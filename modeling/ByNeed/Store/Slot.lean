import ByNeed.Value

/-!
# Slots

A slot memoises one thunk.  It starts out with a value or with a suspended
computation.  A thread that claims the computation leaves its mark while it runs
and publishes the value in the end, so a slot only ever moves from suspended to
evaluating to evaluated.
-/

namespace ByNeed

/-- A computation that has not run yet.  Running it gives a thunk, into which
evaluation continues. -/
inductive Suspension where
  /-- A call, with the site where it was written. -/
  | apply (function : Thunk) (arguments : Arguments) (site : Option Site)
  | append (list tail : Thunk)
  /-- The lists of a list, one after the other. -/
  | concatenate (lists : Thunk)
  | invoke (body : Body) (names : List String) (bound : List Thunk)
  | cell (group index : Nat)
  /-- The next cell of the list behind a channel. -/
  | receive (channel : Nat)
  /-- An expression, built when it is needed. -/
  | build (scope : Scope) (body : Expr)
  /-- An expression that leaves a note when it is built. -/
  | probe (note : String) (scope : Scope) (body : Expr)
  /-- A dictionary of entries whose keys are yet to be evaluated. -/
  | dictionary (entries : List (Thunk × Thunk))
  /-- The value of a thunk, held by a thunk of its own. -/
  | forced (thunk : Thunk)
  | outline (thunk : Thunk)
  | breakOff (message : String)

namespace Suspension

/-- The site of a call; no other computation has one. -/
def site : Suspension → Option Site
  | .apply _ _ site => site
  | _ => none

end Suspension

inductive Slot where
  | suspended (computation : Suspension)
  /-- Claimed by a thread. -/
  | evaluating (owner : Nat)
  | evaluated (value : Value)

namespace Slot

def isEvaluated : Slot → Bool
  | .evaluated _ => true
  | _ => false

def outline : Slot → String
  | .suspended _ => "Thunk(<unevaluated>)"
  | .evaluating _ => "Thunk(<evaluating>)"
  | .evaluated value => "Thunk(" ++ value.outline ++ ")"

end Slot
end ByNeed
