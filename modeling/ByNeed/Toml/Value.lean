import ByNeed.Toml.Number
import ByNeed.Toml.Text

/-!
# Values of documents

Besides strings, numbers, booleans and moments there are arrays and tables written
in place.  Keys of a table may be dotted, which makes tables within the table.
-/

namespace ByNeed
namespace Toml

/-- How a table came to be. -/
inductive Origin where
  /-- By a header of its own. -/
  | written
  /-- Between braces, where nothing can be added later. -/
  | inPlace
  /-- By the header of a table within it. -/
  | implied
  /-- By a dotted key. -/
  | dotted
  deriving DecidableEq, Repr

inductive Value where
  | string (text : String)
  | integer (value : Int)
  | fractional (written : String)
  | boolean (value : Bool)
  | moment (written : String)
  | array (elements : List Value)
  | table (origin : Origin) (entries : List (String × Value))
  /-- Tables that share a header, in order. -/
  | tables (elements : List (List (String × Value)))

abbrev Entries := List (String × Value)

def Entries.replace (entries : Entries) (key : String) (value : Value) : Entries :=
  entries.map fun entry => if entry.1 = key then (key, value) else entry

/-- Change the table at the end of a path, making the tables on the way that are not
there.  Of tables that share a header the last is meant.  Dotted keys do not lead
through tables with a header, and nothing leads through tables in place. -/
def alter (origin : Origin) (change : Origin → Entries → Option Entries) :
    List String → Origin → Entries → Option Entries
  | [], reached, entries => change reached entries
  | key :: path, _, entries =>
    match entries.lookup key with
    | none => do
        let inner ← alter origin change path origin []
        some (entries ++ [(key, .table origin inner)])
    | some (.table reached inner) => do
        if reached = .inPlace ∨ (origin = .dotted ∧ reached = .written) then
          none
        else
          let inner ← alter origin change path reached inner
          some (Entries.replace entries key (.table reached inner))
    | some (.tables elements) => do
        let last ← elements.getLast?
        let last ← alter origin change path .written last
        some (Entries.replace entries key (.tables (elements.dropLast ++ [last])))
    | some _ => none

/-- Assign a value to a key that is not there yet.  Keys without dots belong to
written tables and keys with dots to dotted ones. -/
def assign (path : List String) (key : String) (value : Value) (reached : Origin)
    (entries : Entries) : Option Entries :=
  alter .dotted
    (fun reached entries =>
      if (reached = .dotted) ↔ path.isEmpty then none
      else if (entries.lookup key).isSome then none
      else some (entries ++ [(key, value)]))
    path reached entries

/-- The greatest number of parts of a key, and the greatest depth of a value. -/
def depthLimit : Nat := 80

/-- Whether a character may stand in a key without marks. -/
def isBare (character : Char) : Bool :=
  character.isAlphanum || character == '_' || character == '-'

/-- One part of a key. -/
def keyPart : Scan String := do
  match ← Scan.peek with
  | some '\x22' | some '\x27' => lineString
  | _ =>
    let first ← Scan.satisfy isBare
    let rest ← Scan.takeWhile isBare
    return String.ofList (first :: rest)

/-- The further parts of a key, each after a dot, within a bound on their number. -/
def keyParts : Nat → Scan (List String)
  | 0 => failure
  | bound + 1 => do
      Scan.blanks
      match ← Scan.peek with
      | some '.' => do
          Scan.expect '.'
          Scan.blanks
          let part ← keyPart
          return part :: (← keyParts bound)
      | _ => return []

/-- A key: the parts before its last dot, and the last part. -/
def key : Scan (List String × String) := do
  Scan.blanks
  let first ← keyPart
  let parts := first :: (← keyParts (depthLimit - 1))
  return (parts.dropLast, parts.getLastD first)

/-- An assignment: a key and its value. -/
def assignment (value : Scan Value) : Scan (List String × String × Value) := do
  let (path, last) ← key
  Scan.expect '='
  Scan.blanks
  return (path, last, ← value)

/-- The elements of an array up to its closing bracket, within a bound on their
number. -/
def arrayRest (value : Scan Value) : Nat → Scan (List Value)
  | 0 => failure
  | bound + 1 => do
      Scan.gaps
      match ← Scan.peek with
      | some ']' => do
          Scan.expect ']'
          return []
      | _ =>
        let element ← value
        Scan.gaps
        match ← Scan.next with
        | ',' => return element :: (← arrayRest value bound)
        | ']' => return [element]
        | _ => failure

/-- The assignments of a table in place up to its closing brace, within a bound on
their number. -/
def tableRest (value : Scan Value) : Nat → Entries → Scan Entries
  | 0, _ => failure
  | bound + 1, entries => do
      let (path, last, assigned) ← assignment value
      Scan.blanks
      match assign path last assigned .written entries with
      | none => failure
      | some entries =>
        match ← Scan.next with
        | ',' => tableRest value bound entries
        | '\x7d' => return entries
        | _ => failure

/-- A value that is neither array nor table. -/
def simpleValue : Scan Value := do
  match ← Scan.peek with
  | some '\x22' | some '\x27' => return .string (← string)
  | some 't' => do
      Scan.expectAll ['t', 'r', 'u', 'e']
      return .boolean true
  | some 'f' => do
      Scan.expectAll ['f', 'a', 'l', 's', 'e']
      return .boolean false
  | _ =>
    (do return .moment (← moment))
      <|> (do return .fractional (← fractional))
      <|> (do return .integer (← integer))

/-- A value of limited depth. -/
def value : Nat → Scan Value
  | 0 => simpleValue
  | depth + 1 => fun input =>
    match input with
    | '[' :: rest =>
      if depth = 0 then none
      else ((arrayRest (value depth) (rest.length + 1)).map Value.array) rest
    | '\x7b' :: rest =>
      if depth = 0 then none
      else
        match Scan.blanks rest with
        | some (_, '\x7d' :: rest) => some (.table .inPlace [], rest)
        | some (_, rest) =>
          ((tableRest (value depth) (rest.length + 1) []).map (Value.table .inPlace)) rest
        | none => none
    | _ => simpleValue input

end Toml
end ByNeed
