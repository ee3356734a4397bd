import Mathlib.Logic.Relation
import ByNeed.Proofs.Machine.Claims

/-!
# A lone thread

While one thread evaluates and nobody else does, the thunks that are being evaluated are those of
the chains on its stack.  So nothing is left behind once its code is over.
-/

namespace ByNeed

variable {ρ : Type}
variable {self : Nat} {outcome : Except String ρ} {after : Store}

namespace Thread

variable {before later : Thread ρ × Store}

/-- One step of a lone thread. -/
def Moves (self : Nat) (before after : Thread ρ × Store) : Prop :=
  before.1.step self before.2 = (.moved after.1, after.2)

/-- Any number of steps of a lone thread. -/
abbrev Reaches (self : Nat) : Thread ρ × Store → Thread ρ × Store → Prop :=
  Relation.ReflTransGen (Moves self)

/-- Where a lone thread stands after so many steps, if it can take them. -/
def advance (self : Nat) : Nat → Thread ρ × Store → Option (Thread ρ × Store)
  | 0, config => some config
  | steps + 1, config =>
    match config.1.step self config.2 with
    | (.moved thread, store) => advance self steps (thread, store)
    | _ => none

theorem reaches_of_advance (steps : Nat) {after : Thread ρ × Store}
    (advances : advance self steps before = some after) : Reaches self before after := by
  induction steps generalizing before with
  | zero =>
    cases advances
    exact .refl
  | succ steps ih =>
    rw [advance] at advances
    split at advances
    · rename_i thread store moved
      have moves : Moves self before (thread, store) := moved
      exact .head moves (ih advances)
    · contradiction

theorem moves_rightUnique (self : Nat) :
    Relator.RightUnique (Moves self : Thread ρ × Store → Thread ρ × Store → Prop) := by
  rintro before ⟨next, after⟩ ⟨nextToo, afterToo⟩ moved movedToo
  have same := moved.symm.trans movedToo
  cases same
  rfl

/-- A thread that has finished takes no further step. -/
theorem eq_of_finished_of_reaches
    (finished : before.1.step self before.2 = (.finished outcome, after))
    (reaches : Reaches self before later) : before = later := by
  rcases reaches.cases_head with same | ⟨next, moved, -⟩
  · exact same
  · have impossible := finished.symm.trans moved
    cases impossible

/-- A thread owns what it has claimed, and nobody else has claimed anything. -/
structure Alone (number : Nat) (thread : Thread ρ) (store : Store) : Prop
    extends Owns number thread store where
  sole : ∀ thunk owner, store.slot? thunk = some (.evaluating owner) → owner = number

namespace Alone

variable {self : Nat} {thread next : Thread ρ} {store after : Store}

theorem isEvaluating_iff (alone : thread.Alone self store) (thunk : Thunk) :
    (∃ slot, store.slot? thunk = some slot ∧ slot.IsEvaluating) ↔ thunk ∈ thread.claims := by
  rw [alone.mem_iff]
  constructor
  · rintro ⟨_, held, owner, rfl⟩
    rwa [← alone.sole thunk owner held]
  · intro marked
    exact ⟨_, marked, self, rfl⟩

/-- Every step of a lone thread keeps the invariant. -/
theorem of_moved (alone : thread.Alone self store)
    (moved : thread.step self store = (.moved next, after)) : next.Alone self after := by
  have progress := progress_of_moved moved
  refine ⟨alone.toOwns.of_progress progress, ?_⟩
  intro thunk owner marked
  by_cases same : owner = self
  · exact same
  · have markedBefore := (alone.toOwns.evaluating_other_iff progress same thunk).mp marked
    exact alone.sole thunk owner markedBefore

section

variable (reaches : Reaches self before later) (alone : before.1.Alone self before.2)

include reaches alone

/-- Every run of a lone thread keeps the invariant. -/
theorem of_reaches : later.1.Alone self later.2 := by
  induction reaches with
  | refl => exact alone
  | tail _ moved ih => exact ih.of_moved moved

/-- What has been claimed stays claimed until it is published. -/
theorem claimed_or_evaluated (claimed : thunk ∈ before.1.claims) :
    thunk ∈ later.1.claims ∨ ∃ value, later.2.slot? thunk = some (.evaluated value) := by
  induction reaches with
  | refl => exact .inl claimed
  | tail run moved ih =>
    have aloneThen := of_reaches run alone
    have progress := progress_of_moved moved
    have aloneNow := aloneThen.of_moved moved
    rcases ih with claimedThen | ⟨value, evaluated⟩
    · rw [aloneThen.mem_iff] at claimedThen
      obtain ⟨slot, held, moves⟩ := aloneThen.toOwns.slot_moves progress claimedThen
      cases moves with
      | stay => exact .inl ((aloneNow.mem_iff thunk).mpr held)
      | publish owner value => exact .inr ⟨value, held⟩
    · obtain ⟨slot, held, moves⟩ := aloneThen.toOwns.slot_moves progress evaluated
      cases moves
      exact .inr ⟨value, held⟩

end

end Alone
end Thread

/-! ## Whole runs -/

/-- A lone thread runs code to its end, with a result or by breaking off. -/
def Code.Ends (self : Nat) (code : Code ρ) (store : Store) (outcome : Except String ρ)
    (after : Store) : Prop :=
  ∃ thread, Thread.Reaches self (.running code, store) (thread, after) ∧
    thread.step self after = (.finished outcome, after)

/-- A lone thread runs code to one end at most. -/
theorem Code.Ends.unique {code : Code ρ} (ends : code.Ends self store outcome after)
    (endsToo : code.Ends self store other left) : outcome = other ∧ after = left := by
  obtain ⟨thread, reaches, finished⟩ := ends
  obtain ⟨threadToo, reachesToo, finishedToo⟩ := endsToo
  have same : (thread, after) = (threadToo, left) := by
    rcases reaches.total_of_right_unique (Thread.moves_rightUnique self) reachesToo with on | on
    · exact Thread.eq_of_finished_of_reaches finished on
    · exact (Thread.eq_of_finished_of_reaches finishedToo on).symm
  cases same
  have outcomes := finished.symm.trans finishedToo
  cases outcomes
  exact ⟨rfl, rfl⟩

namespace Store

variable {store : Store}

/-- No thunk is being evaluated. -/
def Settled (store : Store) : Prop :=
  ∀ thunk slot, store.slot? thunk = some slot → ¬slot.IsEvaluating

/-- The stores that lone threads make: from one without thunks, by running code to its
end, and by changing what is not a slot. -/
inductive Reachable : Store → Prop
  | start {store : Store} (empty : store.slots = #[]) : Reachable store
  | change {store after : Store}
      (reachable : Reachable store)
      (same : after.slots = store.slots) :
      Reachable after
  | run {store after : Store} {ρ : Type} {self : Nat} {code : Code ρ}
      {outcome : Except String ρ}
      (reachable : Reachable store)
      (ends : code.Ends self store outcome after) :
      Reachable after

theorem Settled.alone (settled : store.Settled) (self : Nat) (code : Code ρ) :
    (Thread.running code).Alone self store := by
  have unmarked : ∀ thunk owner, store.slot? thunk ≠ some (.evaluating owner) := by
    intro thunk owner marked
    exact settled thunk _ marked ⟨owner, rfl⟩
  exact
    { nodup := by simp
      mem_iff := by simp [unmarked]
      sole := by simp [unmarked] }

theorem Settled.of_ends (settled : store.Settled) {code : Code ρ}
    (ends : code.Ends self store outcome after) : after.Settled := by
  obtain ⟨thread, reaches, finished⟩ := ends
  have alone := Thread.Alone.of_reaches reaches (settled.alone self code)
  have outcome := thread.outcome_step self after
  rw [finished] at outcome
  obtain ⟨-, -, claims_eq⟩ := outcome
  intro thunk slot held evaluating
  have claimed := (alone.isEvaluating_iff thunk).mp ⟨slot, held, evaluating⟩
  rw [claims_eq] at claimed
  contradiction

theorem Reachable.settled (reachable : store.Reachable) : store.Settled := by
  induction reachable with
  | start empty =>
    intro thunk slot held
    simp [slot?, empty] at held
  | change _ same ih =>
    intro thunk slot held
    rw [slot?_congr same] at held
    exact ih thunk slot held
  | run _ ends ih => exact ih.of_ends ends

end Store

/-- While a lone thread runs any code on any store that lone threads make, the thunks
being evaluated are those of the chains on its stack, each of them once.  Whenever the
thread is back at its own code, as it is when forcing an expression is over, none is
left, and all that it had claimed are evaluated.  A thunk that is asked for during its
own evaluation is answered with an error, and no slot changes. -/
theorem evaluating_iff_on_stack {store : Store} (reachable : store.Reachable) (self : Nat)
    (code : Code ρ) {thread : Thread ρ} {during : Store}
    (reaches : Thread.Reaches self (.running code, store) (thread, during)) :
    (thread.claims.Nodup ∧
      ∀ thunk,
        (∃ slot, during.slot? thunk = some slot ∧ slot.IsEvaluating) ↔ thunk ∈ thread.claims) ∧
    (∀ next after,
      Thread.Reaches self (thread, during) (.running next, after) →
        after.Settled ∧
        ∀ thunk ∈ thread.claims, ∃ value, after.slot? thunk = some (.evaluated value)) ∧
    (∀ thunk slot,
      during.slot? thunk = some slot →
      slot.IsEvaluating →
      (∀ next chain stack,
        thread = .driving (.evaluate thunk next) chain stack →
          thread.step self during =
            (.moved (.driving (next (.fault .selfDependence)) chain stack), during)) ∧
      (∀ chain stack,
        thread = .driving (.done thunk) chain stack →
          thread.step self during =
            (.moved (.settling (.fault .selfDependence) chain stack), during))) := by
  have alone : thread.Alone self during :=
    Thread.Alone.of_reaches reaches (reachable.settled.alone self code)
  refine ⟨⟨alone.nodup, alone.isEvaluating_iff⟩, ?_, ?_⟩
  · intro next after finishes
    have aloneAfter : (Thread.running next).Alone self after :=
      Thread.Alone.of_reaches finishes alone
    constructor
    · intro thunk slot held evaluating
      have claimed := (aloneAfter.isEvaluating_iff thunk).mp ⟨slot, held, evaluating⟩
      contradiction
    · intro thunk claimed
      rcases Thread.Alone.claimed_or_evaluated finishes alone claimed with claimed | evaluated
      · contradiction
      · exact evaluated
  · rintro thunk _ held ⟨owner, rfl⟩
    rw [alone.sole thunk owner held] at held
    have cycle := Store.claim_of_evaluating_self (Store.slot_eq_of_slot? held)
    constructor
    · rintro next chain stack rfl
      simp only [Thread.step, Stack.evaluate, cycle, Stack.resume]
    · rintro chain stack rfl
      simp only [Thread.step, Thread.follow, cycle]

/-- A computation that continues into its own thunk. -/
def selfReference : Code Value := do
  let group ← Code.perform (.newGroup 1)
  let thunk ← suspend (.cell group 0)
  let _ ← Code.perform (.define group 0 thunk)
  force thunk

theorem selfReference_on_stack :
    ∃ during : Store, Thread.Reaches 0
        (.running selfReference, { digest := Digest.multiplicative })
        (.driving (.done ⟨0⟩) [⟨⟨0⟩, none⟩] (.base fun value => .done value.purely), during) ∧
      (∀ thunk, (∃ slot, during.slot? thunk = some slot ∧ slot.IsEvaluating) ↔
        thunk ∈ [(⟨0⟩ : Thunk)]) ∧
      Thread.step 0 (.driving (.done ⟨0⟩) [⟨⟨0⟩, none⟩] (.base fun value => .done value.purely))
        during = (.moved (.settling (.fault .selfDependence) [⟨⟨0⟩, none⟩]
          (.base fun value => .done value.purely)), during) := by
  let during : Store :=
    { slots := #[.evaluating 0]
      groups := #[#[some ⟨0⟩]]
      digest := Digest.multiplicative }
  have reaches : Thread.Reaches 0 (.running selfReference, { digest := Digest.multiplicative })
      (.driving (.done ⟨0⟩) [⟨⟨0⟩, none⟩] (.base fun value => .done value.purely), during) :=
    Thread.reaches_of_advance 5 rfl
  obtain ⟨⟨-, claimed⟩, -, cycle⟩ :=
    evaluating_iff_on_stack (.start rfl) 0 selfReference reaches
  exact ⟨during, reaches, claimed, (cycle ⟨0⟩ _ rfl ⟨0, rfl⟩).2 _ _ rfl⟩

end ByNeed
