/-!
# Primitive operations

The operations every program starts with, told apart by how they take their
parameters: unevaluated, or evaluated and free of errors.
-/

namespace ByNeed

/-- A binary operation on numbers that folds over any number of operands. -/
inductive Arithmetic where
  | add
  | multiply
  | subtract
  | divide
  | floorDivide
  deriving DecidableEq, Repr

/-- An order that adjacent values may be required to satisfy. -/
inductive Monotone where
  | less
  | lessOrEqual
  | greater
  | greaterOrEqual
  deriving DecidableEq, Repr

namespace Monotone

/-- Whether an order accepts the outcome of comparing two adjacent values. -/
def accepts : Monotone → Ordering → Bool
  | .less, outcome => outcome == .lt
  | .lessOrEqual, outcome => outcome != .gt
  | .greater, outcome => outcome == .gt
  | .greaterOrEqual, outcome => outcome != .lt

end Monotone

/-- An operation that takes its parameters unevaluated. -/
inductive LazyPrimitive where
  | list
  | prepend
  | dictionary
  | assign
  | merge
  | equal
  | monotone (order : Monotone)
  /-- Fold over the operands, starting from the neutral element. -/
  | total (operation : Arithmetic)
  /-- Fold over the operands, starting from the first. -/
  | reduce (operation : Arithmetic)
  | conditional
  | identity
  | fixArguments
  | catchError
  | effect
  /-- Merge sources in order of completion, on the daemons of a scheduler. -/
  | rally (scheduler : Nat)
  deriving DecidableEq, Repr

/-- An operation that takes its parameters evaluated. -/
inductive StrictPrimitive where
  | first
  | rest
  | size
  | index
  | includes
  | delete
  | toList
  | compare
  | remainder
  | power
  | toString
  | dump
  | error
  deriving DecidableEq, Repr

end ByNeed
