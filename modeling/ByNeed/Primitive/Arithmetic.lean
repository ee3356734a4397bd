import ByNeed.Code.Basic

/-!
# Arithmetic

Sums and products fold over any number of operands, from the neutral element or
from a first operand.  Operands are evaluated one after the other, and the first
that is not a number ends the fold.
-/

namespace ByNeed
namespace Arithmetic

def apply : Arithmetic → Float → Float → Float
  | .add, x, y => x + y
  | .multiply, x, y => x * y
  | .subtract, x, y => x - y
  | .divide, x, y => x / y
  | .floorDivide, x, y => (x / y).floor

/-- Where a fold begins that is given no first operand. -/
def start : Arithmetic → Float
  | .add | .subtract => 0
  | .multiply | .divide | .floorDivide => 1

/-- Fold an operation over numbers, by way of the routine. -/
def fold (operation : Arithmetic) (total : Float) (numbers : LazyList) : Attempt Float :=
  .ofCode (.call (.fold operation total numbers) .done)

/-- Fold an operation over numbers: the first, then the rest. -/
def foldStep (operation : Arithmetic) (total : Float) : LazyList → Attempt Float
  | .empty => return total
  | .cons head tail => do
      let number ← forceNumber head
      let rest ← forceList tail
      operation.fold (operation.apply total number) rest

/-- Fold an operation over the operands a thunk evaluates to. -/
def accumulate (operation : Arithmetic) (total : Float) (numbers : Thunk) : Attempt Thunk := do
  let list ← forceList numbers
  newValue (.number (← operation.fold total list))

end Arithmetic

namespace Number

/-- The position a number stands for, counted from one.  Positions end at the
greatest sixty-four bit word. -/
def position (number : Float) : Except Error Nat :=
  match toInt? number with
  | none => .error (Fault.fractionalPosition number).error
  | some integer =>
    if integer < 1 then
      .error (Fault.positionBelowOne number).error
    else
      .ok (min integer.toNat (twoTo 64 - 1))

end Number
end ByNeed
