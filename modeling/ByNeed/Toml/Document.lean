import ByNeed.Toml.Value

/-!
# Documents

A document is a sequence of lines: assignments, and headers that say to which table
the assignments after them belong.  A table has one header at most, and no key is
assigned twice.
-/

namespace ByNeed
namespace Toml

/-- A document read in part: its entries so far, and the path of the table to which
assignments belong. -/
structure Draft where
  entries : Entries := []
  path : List String := []

namespace Draft

/-- Assign a value to a key of the table at hand. -/
def assign (draft : Draft) (path : List String) (key : String) (value : Value) :
    Option Draft := do
  let entries ← alter .implied (Toml.assign path key value) draft.path .written draft.entries
  some { draft with entries }

/-- Begin the table of a header. -/
def beginTable (draft : Draft) (path : List String) (key : String) : Option Draft := do
  let entries ← alter .implied
    (fun _ entries =>
      match entries.lookup key with
      | none => some (entries ++ [(key, .table .written [])])
      | some (.table .implied inner) => some (Entries.replace entries key (.table .written inner))
      | some _ => none)
    path .written draft.entries
  some { entries, path := path ++ [key] }

/-- Begin one more table of those that share a header. -/
def beginElement (draft : Draft) (path : List String) (key : String) : Option Draft := do
  let entries ← alter .implied
    (fun _ entries =>
      match entries.lookup key with
      | none => some (entries ++ [(key, .tables [[]])])
      | some (.tables elements) => some (Entries.replace entries key (.tables (elements ++ [[]])))
      | some _ => none)
    path .written draft.entries
  some { entries, path := path ++ [key] }

end Draft

/-- A result that may be missing. -/
def required {α : Type} : Option α → Scan α
  | some result => return result
  | none => failure

/-- One line of a document, blanks before it taken. -/
def line (draft : Draft) : Scan Draft := fun input =>
  let read : Scan Draft :=
    match input with
    | '#' :: _ => do
        Scan.lineEnd
        return draft
    | '\n' :: _ | '\r' :: _ => do
        Scan.newline
        return draft
    | '[' :: '[' :: _ => do
        Scan.expectAll ['[', '[']
        let (path, last) ← key
        Scan.expectAll [']', ']']
        Scan.lineEnd
        required (draft.beginElement path last)
    | '[' :: _ => do
        Scan.expect '['
        let (path, last) ← key
        Scan.expect ']'
        Scan.lineEnd
        required (draft.beginTable path last)
    | _ => do
        let (path, last, assigned) ← assignment (value depthLimit)
        Scan.lineEnd
        required (draft.assign path last assigned)
  read input

/-- The lines of a document, within a bound on their number. -/
def lines : Nat → Draft → List Char → Option Draft
  | bound, draft, input =>
    match bound, input.dropWhile Scan.isBlank with
    | _, [] => some draft
    | 0, _ => none
    | bound + 1, input =>
      match line draft input with
      | none => none
      | some (draft, rest) => lines bound draft rest

/-- Read a document.  A mark of byte order may stand in front. -/
def read (text : String) : Option Entries :=
  let input :=
    match text.toList with
    | '\ufeff' :: rest => rest
    | input => input
  (lines (input.length + 1) {} input).map Draft.entries

end Toml
end ByNeed
