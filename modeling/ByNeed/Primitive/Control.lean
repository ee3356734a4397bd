import ByNeed.Dictionary.Operations
import ByNeed.Expr.Build

/-!
# Control

Choosing among branches, fixing arguments of a function, and looking at errors as
data.
-/

namespace ByNeed

/-- Choose among alternating conditions and values, by way of the routine. -/
def choose (branches : Thunk) : Attempt Thunk :=
  .ofCode (.call (.choose branches) .done)

/-- Choose the value behind the first condition that is true.  What has no value
behind it is the default.  Conditions are evaluated, values are not. -/
def chooseStep (branches : Thunk) : Attempt Thunk := do
  match ← forceList branches with
  | .empty => .fault .noDefaultBranch
  | .cons condition rest =>
    match ← forceList rest with
    | .empty => return condition
    | .cons value next =>
      let truth ← Attempt.ofExcept (← force condition).toBoolean
      if truth then return value else choose next

/-- A function with leading arguments fixed. -/
def Function.fix (function : Function) (fixed : Arguments) : Code Function := do
  let identity ← .perform .identity
  return .fixing identity function fixed

/-- Fix the arguments of a list and of a dictionary for a function. -/
def fixArguments (function arguments keywords : Thunk) : Attempt Thunk := do
  let callee ← Attempt.ofExcept (← force function).toFunction
  let fixed : Arguments :=
    { positionals := [.spread arguments], keywords := [.spread keywords] }
  newValue (.function (← callee.fix fixed))

/-- The name and the message of an error as a dictionary. -/
def Error.describe (error : Error) : Attempt Dict := do
  let name ← newValue (.string error.name)
  let message ← newValue (.string error.message)
  Dictionary.ofEntries [(.string "name", name), (.string "message", message)]

/-- The description of the error a thunk evaluates to; any other thunk is returned
as it is. -/
def catchError (thunk : Thunk) : Attempt Thunk := do
  match ← force thunk with
  | .error failure => newValue (.dictionary (← failure.describe))
  | _ => return thunk

/-- Make an error value of two strings. -/
def raise (name message : Value) : Attempt Thunk := do
  let name ← Attempt.ofExcept name.toText
  let message ← Attempt.ofExcept message.toText
  newValue (.error { name, message })

end ByNeed
