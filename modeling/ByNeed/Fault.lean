import ByNeed.Error
import ByNeed.Kind
import ByNeed.Number.Text

/-!
# Faults

A fault is a cause for which the evaluator raises an error by itself.  Its kind
decides the name of the error and this module is the one place where the wording
of its message is written down.
-/

namespace ByNeed

/-- A cause for an error of the evaluator. -/
inductive Fault where
  /-- A value of one kind was needed and another was found. -/
  | expected (wanted found : Kind)
  /-- An effect was to be run and something else was found. -/
  | notAnEffect (found : Kind)
  /-- An operation on collections met something else. -/
  | notACollection (found : Kind)
  /-- Something that is neither a function nor a dictionary was applied. -/
  | notApplicable (found : Kind)
  /-- A positional spread is not a list. -/
  | notSpreadable (found : Kind)
  /-- A keyword spread has a key that is not a string. -/
  | notAKeyword (found : Kind)
  | missingPositional (parameter : String)
  | surplusPositionals
  | unexpectedKeyword (keyword : String)
  /-- Keys and values were given, and the last key has no value. -/
  | unpairedKey
  /-- A conditional ran out of branches. -/
  | noDefaultBranch
  /-- There was no list to put elements in front of. -/
  | nothingToExtend
  /-- A dictionary has no such key; the key is given by its outline. -/
  | absentKey (key : String)
  /-- An effect was met by pure evaluation. -/
  | impureEffect
  | emptyList
  | undefinedCell (index : Nat)
  | cellOutOfRange (index size : Nat)
  | cellAlreadyDefined (index : Nat)
  /-- A position is not a whole number. -/
  | fractionalPosition (position : Float)
  /-- A position below one, as given. -/
  | positionBelowOne (position : Float)
  | positionZero
  | positionOutOfRange (position : Nat)
  /-- A thunk was met again during its own evaluation. -/
  | selfDependence
  /-- A computation broke off. -/
  | brokenOff (message : String)
  /-- A rally was called on a scheduler that does not run. -/
  | idleScheduler

namespace Fault

/-- The message of a computation that broke off without one. -/
def noMessage : String :=
  "native computation panicked"

def kind : Fault → ErrorKind
  | .expected .. | .notAnEffect _ | .notACollection _ | .notApplicable _ | .notSpreadable _
  | .notAKeyword _ =>
    .type
  | .missingPositional _ | .surplusPositionals | .unexpectedKeyword _ | .unpairedKey
  | .noDefaultBranch | .nothingToExtend =>
    .arity
  | .absentKey _ => .key
  | .impureEffect => .impureFunction
  | .emptyList => .emptyList
  | .undefinedCell _ | .cellOutOfRange .. | .cellAlreadyDefined _ | .fractionalPosition _ =>
    .value
  | .positionBelowOne _ | .positionZero | .positionOutOfRange _ => .index
  | .selfDependence => .infiniteLoop
  | .brokenOff _ | .idleScheduler => .internal

def message : Fault → String
  | .expected wanted found =>
    "expected a " ++ wanted.name ++ " but found a " ++ found.name
  | .notAnEffect found => "expected an effect but found a " ++ found.name
  | .notACollection found =>
    "expected a list, dictionary or string but found a " ++ found.name
  | .notApplicable found => "a " ++ found.name ++ " cannot be applied"
  | .notSpreadable found => "cannot spread a " ++ found.name ++ " into positional arguments"
  | .notAKeyword found => "keyword argument names must be strings, not a " ++ found.name
  | .missingPositional parameter => "missing positional argument `" ++ parameter ++ "`"
  | .surplusPositionals => "too many positional arguments"
  | .unexpectedKeyword keyword => "unexpected keyword argument `" ++ keyword ++ "`"
  | .unpairedKey => "keys and values must come in pairs"
  | .noDefaultBranch => "if needs a default branch"
  | .nothingToExtend => "prepend needs a list to prepend to"
  | .absentKey key => "key " ++ key ++ " not found"
  | .impureEffect => "an effect was evaluated in a pure context"
  | .emptyList => "the list is empty"
  | .undefinedCell index =>
    "recursive binding " ++ toString index ++ " used before its definition"
  | .cellOutOfRange index size =>
    "recursive binding " ++ toString index ++ " is out of range for a group of " ++
      toString size
  | .cellAlreadyDefined index =>
    "recursive binding " ++ toString index ++ " is already defined"
  | .fractionalPosition position => Number.text position ++ " is not an integer index"
  | .positionBelowOne position => "index " ++ Number.text position ++ " is out of range"
  | .positionZero => "list indices start at 1"
  | .positionOutOfRange position => "index " ++ toString position ++ " is out of range"
  | .selfDependence => "a value depends on itself"
  | .brokenOff message => message
  | .idleScheduler => "rally needs a started daemon scheduler"

def error (fault : Fault) : Error :=
  Error.ofKind fault.kind fault.message

end Fault
end ByNeed
