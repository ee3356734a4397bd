import ByNeed.Compare

/-!
# Equality and order of several values

Values are evaluated from left to right and compared as they come; the first
comparison that is rejected decides, and nothing behind it is evaluated.
-/

namespace ByNeed

/-- Whether all elements equal a value, by way of the routine. -/
def allEqual (value : Value) (list : LazyList) : Attempt Bool :=
  .ofCode (.call (.allEqual value list) .done)

/-- Whether all elements equal a value: the head, and then those of the tail. -/
def allEqualStep (value : Value) : LazyList → Attempt Bool
  | .empty => return true
  | .cons head tail => do
      if ← equalValues value (← force head) then
        allEqual value (← forceList tail)
      else
        return false

/-- Whether every value of a list equals the first. -/
def equalAll : LazyList → Attempt Bool
  | .empty => return true
  | .cons head tail => do
      let first ← force head
      allEqual first (← forceList tail)

namespace Monotone

/-- Whether the elements go on from a value in an order, by way of the routine. -/
def holdsFrom (order : Monotone) (previous : Value) (list : LazyList) : Attempt Bool :=
  .ofCode (.call (.monotone order previous list) .done)

/-- Whether the elements go on from a value in an order: the head after the value,
and then those of the tail after the head. -/
def holdsFromStep (order : Monotone) (previous : Value) : LazyList → Attempt Bool
  | .empty => return true
  | .cons head tail => do
      let current ← force head
      if order.accepts (← compareValues previous current) then
        order.holdsFrom current (← forceList tail)
      else
        return false

/-- Whether the values of a list are in an order. -/
def holds (order : Monotone) : LazyList → Attempt Bool
  | .empty => return true
  | .cons head tail => do
      let first ← force head
      order.holdsFrom first (← forceList tail)

end Monotone

/-- The number that stands for the outcome of a comparison. -/
def signOf : Ordering → Float
  | .lt => -1
  | .eq => 0
  | .gt => 1

end ByNeed
