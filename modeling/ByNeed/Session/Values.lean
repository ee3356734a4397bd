import ByNeed.Session.Basic

/-!
# Operations on thunks and values

Binding names, evaluating, looking at what is there, comparing and rendering.
-/

namespace ByNeed
namespace Host

def letName (name : String) (expr : Expr) : Host Unit := do
  bind name (← build expr)
  if expr matches .effect _ then
    modify fun session => { session with effects := name :: session.effects }

/-- The view of what an expression evaluates to. -/
def viewForced (expr : Expr) : Host View := do
  view (← force expr)

/-- The view of the outcome of running the effect an expression evaluates to. -/
def viewImpure (expr : Expr) : Host View := do
  view (← run (forceImpure (← build expr)))

/-- The views of what a thunk evaluates to for several readers. -/
def viewRepeatedly (expr : Expr) (times : Nat) : Host (List View) := do
  let thunk ← build expr
  let values ← (List.replicate times thunk).mapM fun thunk => run (ByNeed.force thunk)
  values.mapM view

def isEvaluated (expr : Expr) : Host Bool := do
  let thunk ← build expr
  inspect fun store => (store.slot thunk).isEvaluated

def outlineOf (expr : Expr) : Host String := do
  outline (← build expr)

/-- Whether two expressions are the same thunk. -/
def isSame (left right : Expr) : Host Bool := do
  let leftThunk ← build left
  let rightThunk ← build right
  return leftThunk = rightThunk

/-- Take a list apart and bind head and tail.  There is nothing to tell about an
empty list. -/
def uncons (expr : Expr) (headName tailName : String) : Host (Option (String × String)) := do
  match ← list expr with
  | .empty => return none
  | .cons head tail =>
    bind headName head
    bind tailName tail
    return some (← outline head, ← outline tail)

/-- What can be told about a value at first sight. -/
structure Inspection where
  kind : Kind
  outline : String
  number : Except Error Float
  boolean : Except Error Bool
  string : Except Error String
  list : Except Error String
  dictionary : Except Error Nat
  function : Except Error String
  check : Except Error Unit

def inspectValue (expr : Expr) : Host Inspection := do
  let value ← value expr
  return {
    kind := value.kind
    outline := value.outline
    number := value.toNumber
    boolean := value.toBoolean
    string := value.toText
    list := value.toList.map LazyList.outline
    dictionary := value.toDictionary.map Dictionary.size
    function := value.toFunction.map Function.name
    check := value.check.map fun _ => () }

structure Comparison where
  order : Except Error Ordering
  equal : Except Error Bool
  /-- Whether the hashes agree, told of equal values only. -/
  sameHash : Except Error (Option Bool)

def compareValues (left right : Expr) : Host Comparison := do
  let leftValue ← value left
  let rightValue ← value right
  let order ← run (ByNeed.compareValues leftValue rightValue).run
  let equal ← run (equalValues leftValue rightValue).run
  let hashes : Attempt (UInt64 × UInt64) := do
    return (← hashValue leftValue, ← hashValue rightValue)
  let sameHash ← run hashes.run
  return {
    order
    equal
    sameHash := sameHash.map fun (leftHash, rightHash) =>
      match equal with
      | .ok true => some (leftHash == rightHash)
      | _ => none }

/-- The outcomes of comparing every value with every other, row by row. -/
def compareAll (exprs : List Expr) : Host (List (List (Except Error Ordering))) := do
  let values ← exprs.mapM value
  values.mapM fun left => values.mapM fun right => run (ByNeed.compareValues left right).run

/-- The text of a value, strings quoted. -/
def dump (expr : Expr) : Host String := do
  attempt (render (← value expr))

/-- The text of a value, where a string stands for itself. -/
def display (expr : Expr) : Host String := do
  attempt (← value expr).display

/-- The texts of the elements of a list, sorted. -/
def sortedTexts (expr : Expr) : Host (List String) := do
  let texts ← attempt (← list expr).renderElements
  return texts.mergeSort fun left right => compare left right != .gt

/-- Make the last result kept out of a list of thunks. -/
def keepList (thunks : List Thunk) : Host Unit := do
  let cells ← run (LazyList.ofThunks thunks)
  bind lastName (← run (newValue (.list cells)))

end Host
end ByNeed
