import ByNeed.Compare

/-!
# Looking at a value completely

The complete view of a value evaluates everything inside it, depth first: for each
cell of a list its head and then its tail, for each entry of a dictionary, in key
order, its key and then its value.  Errors are shown where they stand.
-/

namespace ByNeed

/-- The complete view of a value, by way of the routine. -/
def viewValue (value : Value) (limit : Nat) : Code View :=
  .call (.view value limit) .done

/-- The view of a list of which so many elements may still be shown. -/
def viewList (list : LazyList) (limit room : Nat) : Code View := do
  match list, room with
  | .empty, _ => return .list []
  | .cons .., 0 => return .longList []
  | .cons head tail, room + 1 =>
    let element ← viewValue (← force head) limit
    match ← force tail with
    | .list rest =>
      let view ← Code.call (.viewList rest limit room) .done
      return .cons element view
    | other => return .brokenList [element] (← viewValue other limit)

/-- The views of the key and the value of an entry. -/
def viewEntry (limit : Nat) (entry : Value × Thunk) : Code (View × View) := do
  let key ← viewValue entry.1 limit
  let value ← viewValue (← force entry.2) limit
  return (key, value)

namespace Value

/-- The complete view of a value, with lists cut off at a limit. -/
def view (value : Value) (limit : Nat) : Code View := do
  match value with
  | .nil => return .nil
  | .boolean truth => return .boolean truth
  | .number x => return .number x
  | .string text => return .string text
  | .list cells => viewList cells limit limit
  | .dictionary entries =>
    match ← entries.sortedEntries.run with
    | .ok sorted => return .dictionary (← sorted.mapM (viewEntry limit))
    | .error failure => return .error failure
  | .function callee => return .function callee.name
  | .effect .. => return .effect
  | .error failure => return .error failure

end Value
end ByNeed
