import ByNeed.Code.Basic

/-!
# Programs

A program is a sequence of statements, each of which is to be an effect.  Running
it runs the effects one after the other, up to the first that fails.
-/

namespace ByNeed

structure Program where
  statements : List Thunk := []

structure StatementFailure where
  /-- The position of the statement, counted from zero. -/
  index : Nat
  error : Error

namespace StatementFailure

/-- One line about a failure. -/
def text (failure : StatementFailure) : String :=
  "statement " ++ toString failure.index ++ " failed: " ++ failure.error.text

/-- The call trace of a failure, then the error itself. -/
def report (failure : StatementFailure) : String :=
  failure.error.report

end StatementFailure

namespace Program

def push (program : Program) (statement : Thunk) : Program :=
  { statements := program.statements ++ [statement] }

/-- Run statements in order, the first having a given position.  The values of those
before it are held in reverse. -/
def runFrom :
    Nat → List Value → List Thunk → ExceptT StatementFailure Code (List Value)
  | _, values, [] => return values.reverse
  | index, values, statement :: rest => do
      match ← ExceptT.lift (forceImpure statement) with
      | .error error => throw { index, error }
      | value => runFrom (index + 1) (value :: values) rest

def run (program : Program) : ExceptT StatementFailure Code (List Value) :=
  runFrom 0 [] program.statements

end Program
end ByNeed
