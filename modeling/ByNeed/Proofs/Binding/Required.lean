import ByNeed.Proofs.Binding.Passing

/-!
# Required parameters

Positional values are pulled one at a time.  What was pulled, followed by the values of the
arguments that remain, is what the call passes.
-/

namespace ByNeed

open Attempt

variable {self : Nat} {store between after later : Store} {spreads : List Thunk}

/-- From now on, a call passes some values and then what other arguments pass. -/
def PassesOn (self : Nat) (store : Store) (positionals : List Positional) (values : List Thunk)
    (remaining : List Positional) : Prop :=
  ∀ later, store.Keeps later → ∀ {others after},
    (positionalValues remaining).Returns self later others after →
      (positionalValues positionals).Returns self later (values ++ others) after

namespace PassesOn

variable {positionals remaining final : List Positional} {values others : List Thunk}
  {list : Thunk}

theorem refl (store : Store) (positionals : List Positional) :
    PassesOn self store positionals [] positionals :=
  fun _ _ _ _ returns => returns

theorem trans (first : PassesOn self store positionals values remaining)
    (second : PassesOn self store remaining others final) :
    PassesOn self store positionals (values ++ others) final := by
  intro later keeps rest after returns
  rw [List.append_assoc]
  exact first later keeps (second later keeps returns)

theorem mono (passes : PassesOn self store positionals values remaining)
    (keeps : store.Keeps later) : PassesOn self later positionals values remaining :=
  fun final further => passes final (keeps.trans further)

theorem single (store : Store) (value : Thunk) (remaining : List Positional) :
    PassesOn self store (.single value :: remaining) [value] remaining :=
  fun _ _ _ _ returns => returns.map (value :: ·)

end PassesOn

end ByNeed
