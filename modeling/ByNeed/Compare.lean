import ByNeed.Code.Basic
import ByNeed.Number.Order

/-!
# Structural order

Values are ordered by kind first.  Within a kind, numbers go by their key, strings by code points,
lists element by element, and dictionaries by size and then by their entries in key order.
Functions and effects go by identity.  Contents that are the very same thunk, and dictionaries that
are the very same, are not looked into.
-/

namespace ByNeed

/-- Compare two values, by way of the routine. -/
def compareValues (left right : Value) : Attempt Ordering :=
  .ofCode (.call (.compare left right) .done)

def equalValues (left right : Value) : Attempt Bool := do
  return (← compareValues left right) == .eq

/-- Compare what two thunks evaluate to, unless they are the same thunk. -/
def compareThunks (left right : Thunk) : Attempt Ordering := do
  if left = right then
    return .eq
  let leftValue ← force left
  let rightValue ← force right
  compareValues leftValue rightValue

namespace LazyList

/-- Compare two lists element by element, up to the first difference.  A list that
ends first is the lesser. -/
def compare : LazyList → LazyList → Attempt Ordering
  | .empty, .empty => return .eq
  | .empty, .cons .. => return .lt
  | .cons .., .empty => return .gt
  | .cons leftHead leftTail, .cons rightHead rightTail => do
      match ← compareThunks leftHead rightHead with
      | .eq =>
        if leftTail = rightTail then
          return .eq
        let left ← forceList leftTail
        let right ← forceList rightTail
        .ofCode (.call (.compareLists left right) .done)
      | unequal => return unequal

end LazyList

namespace Dictionary

/-- Insert an entry into entries sorted by key, behind those with lesser or equal
keys.  The entries passed on the way are held in reverse. -/
def insertSorted (entry : Value × Thunk) (passed : List (Value × Thunk)) :
    List (Value × Thunk) → Attempt (List (Value × Thunk))
  | [] => return passed.reverseAux [entry]
  | other :: rest => do
      match ← compareValues other.1 entry.1 with
      | .gt => return passed.reverseAux (entry :: other :: rest)
      | _ => insertSorted entry (other :: passed) rest

/-- Sort entries by key into those sorted already. -/
def sortEntries : List (Value × Thunk) → List (Value × Thunk) →
    Attempt (List (Value × Thunk))
  | sorted, [] => return sorted
  | sorted, entry :: rest => do
      sortEntries (← insertSorted entry [] sorted) rest

/-- The entries of a dictionary in key order. -/
def sortedEntries (dictionary : Dict) : Attempt (List (Value × Thunk)) :=
  sortEntries [] dictionary.toList

/-- Compare entries pair by pair, by key and then by value, up to the first
difference. -/
def compareEntries :
    List (Value × Thunk) → List (Value × Thunk) → Attempt Ordering
  | (leftKey, leftValue) :: left, (rightKey, rightValue) :: right => do
      match ← compareValues leftKey rightKey with
      | .eq =>
        match ← compareThunks leftValue rightValue with
        | .eq => compareEntries left right
        | unequal => return unequal
      | unequal => return unequal
  | _, _ => return .eq

/-- Compare two dictionaries by size and then by their entries in key order. -/
def compare (left right : Dict) : Attempt Ordering := do
  match Ord.compare left.size right.size with
  | .eq =>
    if left.isSame right then
      return .eq
    let leftEntries ← left.sortedEntries
    let rightEntries ← right.sortedEntries
    compareEntries leftEntries rightEntries
  | unequal => return unequal

end Dictionary

namespace Value

/-- Compare two values.  An error on the left, and then one on the right, is the
outcome. -/
def compare : Value → Value → Attempt Ordering
  | .error failure, _ => throw failure
  | _, .error failure => throw failure
  | .nil, .nil => return .eq
  | .boolean left, .boolean right => return Ord.compare left right
  | .number left, .number right => return Number.order left right
  | .string left, .string right => return Ord.compare left right
  | .list left, .list right => left.compare right
  | .dictionary left, .dictionary right => left.compare right
  | .function left, .function right => return Ord.compare left.identity right.identity
  | .effect left _, .effect right _ => return Ord.compare left right
  | left, right => return Ord.compare left.kind.rank right.kind.rank

end Value
end ByNeed
