import ByNeed.Daemon.Rally
import ByNeed.Primitive.Collection
import ByNeed.Primitive.Control
import ByNeed.Primitive.Ordering
import ByNeed.Render

/-!
# Running primitives

What each primitive does with the parameters that were bound for it.
-/

namespace ByNeed

/-- Parameters that do not fit a primitive.  Binding never gives any. -/
def unfitParameters {α : Type} : Attempt α :=
  ExceptT.lift (.breakOff "parameters do not fit")

namespace LazyPrimitive

def run : LazyPrimitive → List Thunk → Attempt Thunk
  | .list, [elements] => return elements
  | .prepend, [elementsAndList] => Collection.prepend elementsAndList
  | .dictionary, [keysAndValues] => Collection.assign .empty keysAndValues
  | .assign, [target, keysAndValues] => do
      Collection.assign (← forceDictionary target) keysAndValues
  | .merge, [collection, others] => Collection.merge collection others
  | .equal, [values] => do
      newValue (.boolean (← equalAll (← forceList values)))
  | .monotone order, [values] => do
      newValue (.boolean (← order.holds (← forceList values)))
  | .total operation, [numbers] => operation.accumulate operation.start numbers
  | .reduce operation, [initial, numbers] => do
      operation.accumulate (← forceNumber initial) numbers
  | .conditional, [branches] => choose branches
  | .identity, [value] => return value
  | .fixArguments, [function, arguments, keywords] =>
    ByNeed.fixArguments function arguments keywords
  | .catchError, [value] => ByNeed.catchError value
  | .effect, [value] => newEffect value
  | .rally scheduler, [sources] => ByNeed.rally scheduler sources
  | _, _ => unfitParameters

end LazyPrimitive

namespace StrictPrimitive

def run : StrictPrimitive → List Value → Attempt Thunk
  | .first, [list] => do (← Attempt.ofExcept list.toList).first
  | .rest, [list] => do (← Attempt.ofExcept list.toList).rest
  | .size, [collection] => Collection.size collection
  | .index, [collection, key] => Collection.index collection key
  | .includes, [collection, element] => Collection.includes collection element
  | .delete, [collection, key] => Collection.delete collection key
  | .toList, [collection] => Collection.toList collection
  | .compare, [left, right] => do
      newValue (.number (signOf (← compareValues left right)))
  | .remainder, [dividend, divisor] => do
      let x ← Attempt.ofExcept dividend.toNumber
      let y ← Attempt.ofExcept divisor.toNumber
      newValue (.number (Number.remainder x y))
  | .power, [base, exponent] => do
      let x ← Attempt.ofExcept base.toNumber
      let y ← Attempt.ofExcept exponent.toNumber
      newValue (.number (x.pow y))
  | .toString, [value] => do newValue (.string (← value.display))
  | .dump, [value] => do newValue (.string (← render value))
  | .error, [name, message] => raise name message
  | _, _ => unfitParameters

end StrictPrimitive
end ByNeed
