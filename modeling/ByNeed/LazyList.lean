import ByNeed.Compare

/-!
# Operations on lazy lists

Operations evaluate no more of a spine than they need, and no elements unless they
compare them.  A tail that does not evaluate to a list breaks the spine there.
-/

namespace ByNeed
namespace LazyList

/-- The first element. -/
def first : LazyList → Attempt Thunk
  | .empty => .fault .emptyList
  | .cons head _ => return head

/-- Everything after the first element. -/
def rest : LazyList → Attempt Thunk
  | .empty => .fault .emptyList
  | .cons _ tail => return tail

/-- The element thunks of a list, by way of the routine. -/
def elements (list : LazyList) : Attempt (List Thunk) :=
  .ofCode (.call (.elements list) .done)

/-- The element thunks of a list: its head, then those of its tail. -/
def elementsStep : LazyList → Attempt (List Thunk)
  | .empty => return []
  | .cons head tail => do
      return head :: (← (← forceList tail).elements)

def size (list : LazyList) : Attempt Nat := do
  return (← list.elements).length

/-- Whether an element equals a value, by way of the routine. -/
def contains (list : LazyList) (value : Value) : Attempt Bool :=
  .ofCode (.call (.contains list value) .done)

/-- Whether an element equals a value: the head, or one of the tail. -/
def containsStep : LazyList → Value → Attempt Bool
  | .empty, _ => return false
  | .cons head tail, value => do
      if ← equalValues (← force head) value then
        return true
      (← forceList tail).contains value

/-- The element after so many others, by way of the routine. -/
def nth (list : LazyList) (skipped : Nat) : Attempt (Option Thunk) :=
  .ofCode (.call (.nth list skipped) .done)

/-- The element after so many others.  A broken spine counts as one last element
that fails: asking for it gives its error, and there is nothing behind it. -/
def nthStep : LazyList → Nat → Attempt (Option Thunk)
  | .empty, _ => return none
  | .cons head _, 0 => return some head
  | .cons _ tail, skipped + 1 => do
      match (← force tail).toList with
      | .ok rest => rest.nth skipped
      | .error error => if skipped = 0 then throw error else return none

/-- The element at a position, counted from one. -/
def index (list : LazyList) (position : Nat) : Attempt Thunk := do
  if position = 0 then
    .fault .positionZero
  match ← list.nth (position - 1) with
  | some element => return element
  | none => .fault (.positionOutOfRange position)

/-- The elements before a position and the tail after it, by way of the routine. -/
def cut (list : LazyList) (position : Nat) : Attempt (Option (List Thunk × Thunk)) :=
  .ofCode (.call (.cut list position) .done)

/-- The elements before a position, counted from one, and the tail after it. -/
def cutStep : LazyList → Nat → Attempt (Option (List Thunk × Thunk))
  | .empty, _ => return none
  | .cons head tail, position => do
      if position = 1 then
        return some ([], tail)
      match ← (← forceList tail).cut (position - 1) with
      | some (before, behind) => return some (head :: before, behind)
      | none => return none

/-- Put elements in front of a list that is left alone, the first of them next to
it. -/
def prependEach : List Thunk → Thunk → Code Thunk
  | [], list => return list
  | element :: rest, list => do
      prependEach rest (← newValue (.list (.cons element list)))

/-- Put elements in front of a list that is left alone. -/
def prepend (elements : List Thunk) (list : Thunk) : Code Thunk :=
  prependEach elements.reverse list

/-- A list with elements in front, the first of them next to it. -/
def consEach : List Thunk → LazyList → Code LazyList
  | [], list => return list
  | element :: rest, list => do
      consEach rest (.cons element (← newValue (.list list)))

/-- A list of some elements. -/
def ofThunks (elements : List Thunk) : Code LazyList :=
  consEach elements.reverse .empty

/-- A list of some values. -/
def ofValues (values : List Value) : Code LazyList := do
  ofThunks (← values.mapM newValue)

/-- The list without the element at a position, counted from one.  What follows
that element is shared. -/
def delete (list : LazyList) (position : Nat) : Attempt LazyList := do
  if position = 0 then
    .fault .positionZero
  match ← list.cut position with
  | some (before, behind) => forceList (← prepend before behind)
  | none => .fault (.positionOutOfRange position)

/-- A list followed by another; nothing is evaluated yet. -/
def append (list tail : Thunk) : Code Thunk :=
  suspend (.append list tail)

/-- One cell of a list followed by another. -/
def appendStep (list tail : Thunk) : Attempt Thunk := do
  match ← forceList list with
  | .empty => return tail
  | .cons head rest =>
    let joined ← append rest tail
    newValue (.list (.cons head joined))

/-- One list of a list of lists, followed by the others. -/
def concatenateStep (lists : Thunk) : Attempt Thunk := do
  match ← forceList lists with
  | .empty => newValue (.list .empty)
  | .cons head rest =>
    let others ← suspend (.concatenate rest)
    append head others

end LazyList

namespace Dictionary

/-- A list of pairs of key and value; values stay as they are. -/
def pairs (dictionary : Dict) : Code LazyList := do
  let thunks ← dictionary.toList.mapM fun (key, value) => do
    let keyThunk ← newValue key
    newValue (.list (← LazyList.ofThunks [keyThunk, value]))
  LazyList.ofThunks thunks

end Dictionary
end ByNeed
