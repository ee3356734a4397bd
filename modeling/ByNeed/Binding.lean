import Std.Data.TreeMap
import ByNeed.Dictionary.Operations
import ByNeed.LazyList

/-!
# Binding arguments to parameters

Binding turns the arguments of a call into one thunk for each declared parameter, as lazily as the
signature allows.  A spread list is walked only as far as the required parameters need, or far
enough to see that nothing is left over; what remains becomes a list that is put together when it is
read.
-/

namespace ByNeed

/-- Take the next positional value, walking into spread lists cell by cell.  The
arguments that remain are returned with it. -/
def pull : List Positional → Attempt (Option (Thunk × List Positional))
  | [] => return none
  | .single value :: remaining => return some (value, remaining)
  | .spread list :: remaining => do
      match ← force list with
      | .list .empty => pull remaining
      | .list (.cons head tail) => return some (head, .spread tail :: remaining)
      | .error failure => throw failure
      | other => .fault (.notSpreadable other.kind)

/-- Take one positional value for each required parameter. -/
def bindRequired :
    List String → List Positional → Attempt (List Thunk × List Positional)
  | [], positionals => return ([], positionals)
  | parameter :: parameters, positionals => do
      match ← pull positionals with
      | none => .fault (.missingPositional parameter)
      | some (value, remaining) =>
        let (values, remaining) ← bindRequired parameters remaining
        return (value :: values, remaining)

/-- Put positional arguments in front of a list, the first of them next to it. -/
def passEach : List Positional → Thunk → Code Thunk
  | [], list => return list
  | .single value :: rest, list => do
      passEach rest (← newValue (.list (.cons value list)))
  | .spread values :: rest, list => do
      passEach rest (← LazyList.append values list)

/-- The remaining positional values as a list. -/
def restList (positionals : List Positional) : Code Thunk := do
  passEach positionals.reverse (← newValue (.list .empty))

/-- Bind the list of remaining positionals, or see that there are none. -/
def bindRest (rest : Option String) (positionals : List Positional) :
    Attempt (List Thunk) := do
  match rest with
  | some _ =>
    let list ← restList positionals
    return [list]
  | none =>
    match ← pull positionals with
    | none => return []
    | some _ => .fault .surplusPositionals

abbrev Keywords := Std.TreeMap String Thunk

/-- Add the entries of a spread dictionary to the keywords. -/
def spreadKeywords : List (Value × Thunk) → Keywords → Attempt Keywords
  | [], keywords => return keywords
  | (.string name, value) :: rest, keywords => spreadKeywords rest (keywords.insert name value)
  | (other, _) :: _, _ => .fault (.notAKeyword other.kind)

/-- Collect keyword arguments in the order written; later ones win. -/
def collectKeywords : List Keyword → Keywords → Attempt Keywords
  | [], keywords => return keywords
  | .named name value :: rest, keywords => collectKeywords rest (keywords.insert name value)
  | .spread dictionary :: rest, keywords => do
      let entries := (← forceDictionary dictionary).toList
      collectKeywords rest (← spreadKeywords entries keywords)

/-- The thunk of a default.  A computed default is suspended, in sight of the
parameters bound before it. -/
def Default.thunk (default : Default) (names : List String) (bound : List Thunk) : Code Thunk :=
  match default with
  | .fixed value => return value
  | .computed scope body => suspend (.build (scope.bindAll names bound) body)

/-- Fill optional parameters in order, each from the keyword of its name or from
its default.  The keywords not used are returned with them. -/
def bindOptionals (names : List String) :
    List Optional → List Thunk → Keywords → Code (List Thunk × Keywords)
  | [], bound, keywords => return (bound, keywords)
  | optional :: rest, bound, keywords => do
      match keywords.get? optional.name with
      | some value => bindOptionals names rest (bound ++ [value]) (keywords.erase optional.name)
      | none =>
        let value ← optional.default.thunk names bound
        bindOptionals names rest (bound ++ [value]) keywords

/-- Bind the dictionary of remaining keywords, or see that there are none. -/
def bindRestKeywords (rest : Option String) (keywords : Keywords) :
    Attempt (List Thunk) := do
  match rest with
  | some _ =>
    let entries := keywords.toList.map fun (name, value) => (Value.string name, value)
    let dictionary ← Dictionary.ofEntries entries
    let thunk ← newValue (.dictionary dictionary)
    return [thunk]
  | none =>
    match keywords.toList with
    | [] => return []
    | (name, _) :: _ => .fault (.unexpectedKeyword name)

/-- Bind arguments to the parameters of a signature. -/
def Signature.bind (signature : Signature) (arguments : Arguments) :
    Attempt (List Thunk) := do
  let (required, remaining) ← bindRequired signature.required arguments.positionals
  let rest ← bindRest signature.rest remaining
  let keywords ← collectKeywords arguments.keywords {}
  let (bound, unused) ←
    bindOptionals signature.names signature.optionals (required ++ rest) keywords
  let restKeywords ← bindRestKeywords signature.restKeywords unused
  return bound ++ restKeywords

end ByNeed
