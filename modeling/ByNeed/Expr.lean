import ByNeed.Error

/-!
# Expressions

Expressions are what thunks are built from.  Building an expression evaluates
nothing; it decides which computations are suspended and which values they share.
-/

namespace ByNeed

/-- How a function treats its parameters. -/
inductive Mode where
  /-- Parameters are passed unevaluated. -/
  | byNeed
  /-- Parameters are evaluated before the body runs. -/
  | strict
  /-- A call yields an effect that holds the suspended body. -/
  | effectful
  deriving DecidableEq, Repr

/-- A value that can be written down directly. -/
inductive Literal where
  | nil
  | boolean (value : Bool)
  | number (value : Float)
  | string (value : String)

/-- How an argument is passed. -/
inductive Passing where
  | single
  | spread
  deriving DecidableEq, Repr

/-- How a parameter's default is found. -/
inductive DefaultMode where
  /-- Built once, when the function is made. -/
  | fixed
  /-- Built for each call, in sight of the parameters before it. -/
  | computed
  deriving DecidableEq, Repr

inductive Expr where
  | literal (value : Literal)
  | name (name : String)
  | list (elements : List Expr)
  | prepend (elements : List Expr) (tail : Expr)
  | dictionary (entries : List (Expr × Expr))
  | error (name message : String)
  | effect (payload : Expr)
  | call
      (function : Expr)
      (positionals : List (Passing × Expr))
      (keywords : List (String × Expr))
      (site : Option Site)
  | function
      (name : String)
      (required : List String)
      (rest : Option String)
      (optionals : List (String × DefaultMode × Expr))
      (restKeywords : Option String)
      (mode : Mode)
      (body : Expr)
  | letIn (bindings : List (String × Expr)) (body : Expr)
  | letRec (bindings : List (String × Expr)) (body : Expr)
  /-- A computation that builds its body when it runs. -/
  | suspend (body : Expr)
  /-- A suspension that leaves a note in the log when it runs. -/
  | probe (note : String) (body : Expr)
  /-- The forced value of an expression. -/
  | forced (body : Expr)
  /-- The outline of an expression's thunk at the time it is asked for. -/
  | outline (body : Expr)
  | breakOff (message : String)

end ByNeed
