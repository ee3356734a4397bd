import ByNeed.Arguments
import ByNeed.Expr
import ByNeed.Primitive

/-!
# Functions

A function pairs a signature with a body.  The signature lists its parameters:
required positionals, a list of the remaining positionals, optional keywords with
defaults, and a dictionary of the remaining keywords.  Fixing leading arguments
of a function gives another function.
-/

namespace ByNeed

/-- Names in sight, innermost first. -/
abbrev Scope := List (String × Thunk)

namespace Scope

/-- The thunk bound to the innermost occurrence of a name. -/
def find? (scope : Scope) (name : String) : Option Thunk :=
  scope.lookup name

/-- Bind names to thunks, the later ones innermost. -/
def bindAll (scope : Scope) (names : List String) (thunks : List Thunk) : Scope :=
  (names.zip thunks).foldl (fun inner binding => binding :: inner) scope

end Scope

/-- The default of an optional parameter. -/
inductive Default where
  /-- One thunk, shared by all calls. -/
  | fixed (value : Thunk)
  /-- Built for each call, in sight of the parameters bound before it. -/
  | computed (scope : Scope) (body : Expr)

/-- A parameter filled by the keyword of its name. -/
structure Optional where
  name : String
  default : Default

structure Signature where
  required : List String := []
  rest : Option String := none
  optionals : List Optional := []
  restKeywords : Option String := none

namespace Signature

/-- Parameter names in the order in which they are bound. -/
def names (signature : Signature) : List String :=
  signature.required ++ signature.rest.toList ++
    signature.optionals.map Optional.name ++ signature.restKeywords.toList

/-- The number of parameters a call binds. -/
def arity (signature : Signature) : Nat :=
  signature.required.length + signature.rest.toList.length +
    signature.optionals.length + signature.restKeywords.toList.length

theorem length_names (signature : Signature) : signature.names.length = signature.arity := by
  simp only [names, arity, List.length_append, List.length_map]

end Signature

/-- What a function does once its parameters are bound. -/
inductive Body where
  /-- A primitive on unevaluated parameters. -/
  | lazyPrimitive (operation : LazyPrimitive)
  /-- A primitive on evaluated parameters. -/
  | strictPrimitive (operation : StrictPrimitive)
  /-- An expression over the parameters, unevaluated. -/
  | lazyExpr (scope : Scope) (body : Expr)
  /-- An expression over the parameters, evaluated. -/
  | strictExpr (scope : Scope) (body : Expr)

/-- A function.  Functions are told apart by an identity given at creation. -/
inductive Function where
  | plain
      (identity : Nat)
      (name : String)
      (signature : Signature)
      (effectful : Bool)
      (body : Body)
  /-- A function with leading arguments fixed. -/
  | fixing
      (identity : Nat)
      (target : Function)
      (fixed : Arguments)

namespace Function

/-- The identity by which functions are compared. -/
def identity : Function → Nat
  | .plain identity .. => identity
  | .fixing identity .. => identity

def name : Function → String
  | .plain _ name .. => name
  | .fixing _ target _ => target.name ++ " (partial)"

/-- The declared parameters; a function with fixed arguments declares none. -/
def signature : Function → Signature
  | .plain _ _ signature _ _ => signature
  | .fixing .. => {}

/-- Whether a function is declared to yield effects. -/
def isEffectful : Function → Bool
  | .plain _ _ _ effectful _ => effectful
  | .fixing .. => false

/-- The outermost layer of a function as text. -/
def outline (function : Function) : String :=
  "<function " ++ function.name ++ ">"

end Function
end ByNeed
