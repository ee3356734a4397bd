import ByNeed.Binding
import ByNeed.Primitive.Run

/-!
# Calls

A call binds its arguments and runs the body on the bound parameters.  The call of an effectful
function gives an effect that holds the body.  Strict bodies see evaluated parameters.  A dictionary
that is called is indexed by its one argument.
-/

namespace ByNeed

/-- The thunk of a result, an error becoming an error value. -/
def returning (result : Attempt Thunk) : Code Thunk := do
  match ← result.run with
  | .ok thunk => return thunk
  | .error failure => newValue (.error failure)

/-- Evaluate a thunk to a value that is no error. -/
def forceChecked (thunk : Thunk) : Attempt Value := do
  Attempt.ofExcept (← force thunk).check

/-- Evaluate parameters in order, up to the first error. -/
def forceParameters (thunks : List Thunk) : Attempt (List Value) :=
  thunks.mapM forceChecked

namespace Body

/-- Run a body on bound parameters. -/
def invoke (body : Body) (names : List String) (bound : List Thunk) : Attempt Thunk := do
  match body with
  | .lazyPrimitive operation => operation.run bound
  | .strictPrimitive operation => operation.run (← forceParameters bound)
  | .lazyExpr scope expr => build expr (scope.bindAll names bound)
  | .strictExpr scope expr =>
    let values ← forceParameters bound
    let thunks ← ExceptT.lift (values.mapM newValue)
    build expr (scope.bindAll names thunks)

end Body

namespace Function

def call : Function → Arguments → Attempt Thunk
  | .fixing _ target fixed, arguments => target.call (fixed.merge arguments)
  | .plain _ _ signature effectful body, arguments => do
      let bound ← signature.bind arguments
      if effectful then
        newEffect (← suspend (.invoke body signature.names bound))
      else
        body.invoke signature.names bound

end Function

/-- The one parameter of a dictionary that is called. -/
def keySignature : Signature :=
  { required := ["key"] }

/-- Look the one argument up in a dictionary. -/
def Dictionary.call (dictionary : Dict) (arguments : Arguments) : Attempt Thunk := do
  match ← keySignature.bind arguments with
  | [argument] =>
    dictionary.index (← forceChecked argument)
  | _ => unfitParameters

/-- Apply what a thunk evaluates to. -/
def apply (function : Thunk) (arguments : Arguments) : Attempt Thunk := do
  match ← force function with
  | .function callee => callee.call arguments
  | .dictionary entries => entries.call arguments
  | .error failure => throw failure
  | other => .fault (.notApplicable other.kind)

namespace Suspension

/-- Make a dictionary of entries once their keys are evaluated. -/
def makeDictionary (entries : List (Thunk × Thunk)) : Attempt Thunk := do
  let keys ← forceParameters (entries.map Prod.fst)
  let assigned ← Dictionary.ofEntries (keys.zip (entries.map Prod.snd))
  newValue (.dictionary assigned)

/-- Run a suspended computation.  The result is the thunk into which evaluation
continues. -/
def resume : Suspension → Code Thunk
  | .apply function arguments _ => returning (ByNeed.apply function arguments)
  | .append list tail => returning (LazyList.appendStep list tail)
  | .concatenate lists => returning (LazyList.concatenateStep lists)
  | .invoke body names bound => returning (body.invoke names bound)
  | .cell group index => do
      match ← Code.perform (.cell group index) with
      | some definition => return definition
      | none => newValue (.fault (.undefinedCell index))
  | .receive channel => receiveStep channel
  | .build scope body => ByNeed.build body scope
  | .probe note scope body => do
      Code.perform (.note note)
      ByNeed.build body scope
  | .dictionary entries => returning (makeDictionary entries)
  | .forced thunk => do newValue (← force thunk)
  | .outline thunk => do
      let slot ← Code.perform (.look thunk)
      newValue (.string slot.outline)
  | .breakOff message => .breakOff message

end Suspension
end ByNeed
