import ByNeed.Proofs.Evaluator.Returns
import ByNeed.Proofs.Safety.Threads

/-!
# Thunks out of sight

Thunks that nothing refers to stay as they are, whatever else is evaluated.  To see this, a store is
held against one in which the slots of such thunks are sealed: a thread that is safe there takes the
same steps in both.
-/

namespace ByNeed

open Realm

variable {later : Store} {action : Action} {thunk : Thunk}

/-- A later store has left some thunks alone. -/
def Store.Spares (veiled : Thunk → Prop) (earlier later : Store) : Prop :=
  ∀ thunk, veiled thunk → later.slot? thunk = earlier.slot? thunk

/-- One store shows another one, with some thunks veiled. -/
structure Store.Veils (veiled : Thunk → Prop) (store shown : Store) : Prop where
  isSealed : ∀ thunk, veiled thunk → ∃ slot, shown.slot? thunk = some slot ∧ slot.isSealed = true
  slot?_eq : ∀ thunk, ¬veiled thunk → shown.slot? thunk = store.slot? thunk
  size_eq : shown.slots.size = store.slots.size
  others : ∃ slots, shown = { store with slots }

namespace Store

variable {veiled : Thunk → Prop} {store shown after : Store} {thunk : Thunk}

theorem holds_iff_lt : store.Holds thunk ↔ thunk.slot < store.slots.size := by
  constructor
  · rintro ⟨slot, held⟩
    exact (Array.getElem?_eq_some_iff.mp held).1
  · intro inBounds
    exact ⟨_, Array.getElem?_eq_getElem inBounds⟩

theorem Spares.trans (left : store.Spares veiled after) (right : after.Spares veiled later) :
    store.Spares veiled later :=
  fun thunk isVeiled => (right thunk isVeiled).trans (left thunk isVeiled)

theorem Grows.spares (grows : store.Grows after)
    (holds : ∀ thunk, veiled thunk → store.Holds thunk) : store.Spares veiled after := by
  intro thunk isVeiled
  obtain ⟨slot, held⟩ := holds thunk isVeiled
  rw [held, grows.keeps thunk slot held]

theorem Veils.refl (store : Store) : store.Veils (fun _ => False) store where
  isSealed _ impossible := impossible.elim
  slot?_eq _ _ := rfl
  size_eq := rfl
  others := ⟨store.slots, rfl⟩

namespace Veils

variable (veils : store.Veils veiled shown)

include veils

/-- What can be seen is not veiled. -/
theorem unveiled_of_sees (sees : shown.Sees thunk) : ¬veiled thunk := by
  intro isVeiled
  obtain ⟨slot, held, unsealed⟩ := sees
  obtain ⟨other, otherHeld, isSealed⟩ := veils.isSealed thunk isVeiled
  rw [held] at otherHeld
  cases otherHeld
  rw [unsealed] at isSealed
  contradiction

theorem holds_iff : store.Holds thunk ↔ shown.Holds thunk := by
  rw [holds_iff_lt, holds_iff_lt, veils.size_eq]

theorem holds (isVeiled : veiled thunk) : store.Holds thunk := by
  obtain ⟨slot, held, -⟩ := veils.isSealed thunk isVeiled
  exact veils.holds_iff.mpr ⟨slot, held⟩

theorem setSlot (unveiled : ¬veiled thunk) (slot : Slot) :
    (store.setSlot thunk slot).Veils veiled (shown.setSlot thunk slot) where
  isSealed other isVeiled := by
    have ne : other ≠ thunk := fun same => unveiled (same ▸ isVeiled)
    rw [slot?_setSlot_of_ne shown ne]
    exact veils.isSealed other isVeiled
  slot?_eq other unveiledToo := by
    have same := veils.slot?_eq other unveiledToo
    simp only [slot?, Store.setSlot, Array.getElem?_setIfInBounds, veils.size_eq] at same ⊢
    rw [same]
  size_eq := by simp [Store.setSlot, veils.size_eq]
  others := by
    obtain ⟨slots, rfl⟩ := veils.others
    exact ⟨_, rfl⟩

omit veils in
theorem spares_setSlot (unveiled : ¬veiled thunk) (slot : Slot) :
    store.Spares veiled (store.setSlot thunk slot) := by
  intro other isVeiled
  have ne : other ≠ thunk := fun same => unveiled (same ▸ isVeiled)
  exact slot?_setSlot_of_ne store ne slot

/-- A thunk that is made in both stores is made in the same place. -/
theorem allocate (slot : Slot) : (shown.allocate slot).1 = (store.allocate slot).1 ∧
      (store.allocate slot).2.Veils veiled (shown.allocate slot).2 := by
  have place : shown.slots.size = store.slots.size := veils.size_eq
  refine ⟨congrArg Thunk.mk place, fun thunk isVeiled => ?_, fun thunk unveiled => ?_, ?_, ?_⟩
  · obtain ⟨former, held, isSealed⟩ := veils.isSealed thunk isVeiled
    obtain ⟨inBounds, -⟩ := Array.getElem?_eq_some_iff.mp held
    rw [slot?_allocate, if_neg (Nat.ne_of_lt inBounds)]
    exact ⟨former, held, isSealed⟩
  · rw [slot?_allocate, slot?_allocate, place, veils.slot?_eq thunk unveiled]
  · simp [Store.allocate, place]
  · obtain ⟨slots, rfl⟩ := veils.others
    exact ⟨_, rfl⟩

/-- A thunk that is made may be veiled from the start. -/
theorem allocate_veiled (slot : Slot) (isSealed : other.isSealed = true) :
    (store.allocate slot).2.Veils (fun thunk => veiled thunk ∨ thunk = (store.allocate slot).1)
      (shown.allocate other).2 := by
  have place : shown.slots.size = store.slots.size := veils.size_eq
  refine ⟨fun thunk isVeiled => ?_, fun thunk unveiled => ?_, ?_, ?_⟩
  · rw [slot?_allocate]
    split
    · exact ⟨other, rfl, isSealed⟩
    · rename_i ne
      rcases isVeiled with isVeiled | rfl
      · exact veils.isSealed thunk isVeiled
      · exact absurd place.symm ne
  · rw [not_or] at unveiled
    have ne : thunk.slot ≠ store.slots.size :=
      fun same => unveiled.2 (congrArg Thunk.mk same)
    rw [slot?_allocate, slot?_allocate, place, if_neg ne, if_neg ne]
    exact veils.slot?_eq thunk unveiled.1
  · simp [Store.allocate, place]
  · obtain ⟨slots, rfl⟩ := veils.others
    exact ⟨_, rfl⟩

/-- A change outside the slots is the same for both stores. -/
theorem of_slots_eq (slots_eq : after.slots = store.slots) :
    after.Veils veiled { after with slots := shown.slots } where
  isSealed := veils.isSealed
  slot?_eq thunk unveiled := by
    rw [slot?_congr slots_eq thunk]
    exact veils.slot?_eq thunk unveiled
  size_eq := by rw [slots_eq, veils.size_eq]
  others := ⟨_, rfl⟩

end Veils
end Store

/-! ## Steps in both stores -/

/-- An action that neither makes a thunk nor looks at one does not depend on the slots. -/
theorem Action.perform_withSlots (holdsNone : ∀ value, action ≠ .hold value)
    (suspendsNone : ∀ computation, action ≠ .suspend computation)
    (looksAtNone : ∀ thunk, action ≠ .look thunk) (store : Store) (slots : Array Slot) :
    action.perform { store with slots } =
        ((action.perform store).1, { (action.perform store).2 with slots }) ∧
      (action.perform store).2.slots = store.slots := by
  cases action with
  | hold value => exact absurd rfl (holdsNone value)
  | suspend computation => exact absurd rfl (suspendsNone computation)
  | look thunk => exact absurd rfl (looksAtNone thunk)
  | define group index definition =>
    simp only [perform, perform.replying, Store.define, Store.group]
    split <;> exact ⟨rfl, rfl⟩
  | send channel message =>
    by_cases waits : (store.channel channel).mustWait = true
    · have here : (send channel message).perform store = (none, store) := if_pos waits
      have there : (send channel message).perform { store with slots } = (none, _) :=
        if_pos waits
      rw [here, there]
      exact ⟨rfl, rfl⟩
    · have here : (send channel message).perform store = (some _, _) := if_neg waits
      have there : (send channel message).perform { store with slots } = (some _, _) :=
        if_neg waits
      rw [here, there]
      exact ⟨rfl, rfl⟩
  | receive channel =>
    simp only [perform, Store.channel]
    generalize Channel.receive? _ = received
    cases received <;> exact ⟨rfl, rfl⟩
  | _ => exact ⟨rfl, rfl⟩

namespace Store.Veils

variable {veiled : Thunk → Prop} {store shown after : Store}

theorem perform (veils : store.Veils veiled shown)
    (looks : ∀ thunk, action = .look thunk → shown.Sees thunk)
    (performed : action.perform store = (some reply, after)) :
    ∃ shownAfter, action.perform shown = (some reply, shownAfter) ∧
      after.Veils veiled shownAfter := by
  by_cases idle : (∀ value, action ≠ .hold value) ∧
      (∀ computation, action ≠ .suspend computation) ∧ ∀ thunk, action ≠ .look thunk
  · obtain ⟨slots, rfl⟩ := veils.others
    obtain ⟨same, slots_eq⟩ :=
      Action.perform_withSlots idle.1 idle.2.1 idle.2.2 store slots
    rw [performed] at same slots_eq
    exact ⟨_, same, veils.of_slots_eq slots_eq⟩
  · cases action with
    | hold value =>
      cases performed
      obtain ⟨place, later⟩ := veils.allocate (.evaluated value)
      exact ⟨_, congrArg (fun thunk => (some thunk, _)) place, later⟩
    | suspend computation =>
      cases performed
      obtain ⟨place, later⟩ := veils.allocate (.suspended computation)
      exact ⟨_, congrArg (fun thunk => (some thunk, _)) place, later⟩
    | look thunk =>
      cases performed
      have same := veils.slot?_eq thunk (veils.unveiled_of_sees (looks thunk rfl))
      refine ⟨shown, ?_, veils⟩
      rw [Action.perform, slot_eq_getD, same, ← slot_eq_getD]
    | _ => simp at idle

theorem claim (veils : store.Veils veiled shown) (unveiled : ¬veiled thunk) (self : Nat) :
    (shown.claim self thunk).1 = (store.claim self thunk).1 ∧
    (store.claim self thunk).2.Veils veiled (shown.claim self thunk).2 ∧
    store.Spares veiled (store.claim self thunk).2 := by
  have same : shown.slot thunk = store.slot thunk := by
    rw [slot_eq_getD, slot_eq_getD, veils.slot?_eq thunk unveiled]
  unfold Store.claim
  rw [same]
  cases store.slot thunk with
  | suspended computation =>
    exact ⟨rfl, veils.setSlot unveiled _, spares_setSlot unveiled _⟩
  | _ => exact ⟨rfl, veils, fun _ _ => rfl⟩

end Store.Veils

variable {ρ α : Type} {base : Frame} {post : Stage base → ρ → Prop} {realm : Realm}
  {veiled : Thunk → Prop} {store after : Store}
variable {stage : Stage base}

namespace Thread

variable {thread next : Thread ρ}

/-- A thread that is safe where thunks are veiled takes its step there too, and leaves
these thunks alone. -/
theorem Safe.veils_of_moved (safe : thread.Safe post realm) (sound : realm.Sound)
    (bears : thread.Bears base.held base.self realm.store) (pure : base.runs = none)
    (veils : store.Veils veiled realm.store)
    (moved : thread.step base.self store = (.moved next, after)) :
    ∃ shownAfter, thread.step base.self realm.store = (.moved next, shownAfter) ∧
      after.Veils veiled shownAfter ∧ store.Spares veiled after := by
  cases thread using stepCases with
  | act context action following =>
    rw [Context.step_act] at moved ⊢
    split at moved
    · rename_i reply between performed
      cases moved
      have looks : ∀ thunk, action = .look thunk → realm.store.Sees thunk := by
        rintro thunk rfl
        rw [Context.safe_thread_iff] at safe
        exact (seesAll_cons.mp (safe.1 (Context.stage bears sound) le_rfl).1).1
      obtain ⟨shownAfter, performedToo, later⟩ := veils.perform looks performed
      refine ⟨shownAfter, by rw [performedToo], later, ?_⟩
      exact (Action.grows_of_perform performed).spares fun _ => veils.holds
    · cases moved
  | ask asks =>
    have may := safe.mayEvaluate sound bears asks.access?_eq
    have sees := may.resolve_right fun ⟨_, _, runs, _⟩ => by
      rw [pure] at runs
      cases runs
    obtain ⟨replies, later, spares⟩ := veils.claim (veils.unveiled_of_sees sees) base.self
    rw [asks.step_eq] at moved ⊢
    generalize store.claim base.self _ = claimed at moved replies later spares
    generalize realm.store.claim base.self _ = shownClaimed at replies later ⊢
    obtain ⟨reply, between⟩ := claimed
    obtain ⟨shownReply, shownAfter⟩ := shownClaimed
    obtain rfl : shownReply = reply := replies
    cases shownReply <;> cases moved <;> exact ⟨shownAfter, rfl, later, spares⟩
  | call context routine following =>
    rw [Context.step_call] at moved ⊢
    cases moved
    exact ⟨_, rfl, veils, fun _ _ => rfl⟩
  | finish | fail => cases moved
  | publish value link chain stack =>
    cases moved
    have marked := bears.slot?_head rfl
    have unveiled := veils.unveiled_of_sees ⟨_, marked, rfl⟩
    exact ⟨_, rfl, veils.setSlot unveiled _, Store.Veils.spares_setSlot unveiled _⟩
  | _ =>
    cases moved
    exact ⟨_, rfl, veils, fun _ _ => rfl⟩

/-- So does a whole run. -/
theorem Safe.veils_of_reaches
    (stable : ∀ (earlier later : Stage base) (result : ρ), earlier ≤ later →
      post earlier result → post later result) {before next : Thread ρ × Store}
    (reaches : Reaches base.self before next) (safe : before.1.Safe post realm)
    (sound : realm.Sound) (bears : before.1.Bears base.held base.self realm.store)
    (pure : base.runs = none) (veils : before.2.Veils veiled realm.store) :
    ∃ shownAfter, Reaches base.self (before.1, realm.store) (next.1, shownAfter) ∧
      next.2.Veils veiled shownAfter ∧ before.2.Spares veiled next.2 := by
  induction reaches with
  | refl => exact ⟨_, .refl, veils, fun _ _ => rfl⟩
  | tail run moved ih =>
    obtain ⟨shown, shownRun, shownVeils, spares⟩ := ih
    obtain ⟨⟨between, rfl, le, soundThen, safeThen⟩, bearsThen⟩ :=
      Safe.of_reaches stable shownRun safe rfl sound bears
    obtain ⟨shownAfter, shownMoved, later, sparesToo⟩ :=
      safeThen.veils_of_moved soundThen bearsThen pure shownVeils moved
    exact ⟨shownAfter, shownRun.tail shownMoved, later, spares.trans sparesToo⟩

end Thread

/-- Code that is safe where thunks are veiled leaves them alone. -/
theorem Code.Safe.spares_of_ends {code : Code ρ} (safe : code.Safe post stage)
    (stable : ∀ (earlier later : Stage base) (result : ρ), earlier ≤ later →
      post earlier result → post later result) (exact : stage.Exact) (pure : base.runs = none)
    (veils : store.Veils veiled stage.store) (ends : code.Ends base.self store outcome after) :
    ∃ later : Stage base, stage ≤ later ∧ later.Exact ∧ after.Veils veiled later.store ∧
      store.Spares veiled after ∧ ∀ result, outcome = .ok result → post later result := by
  obtain ⟨thread, reaches, finished⟩ := ends
  have threadSafe : (Thread.running code).Safe post stage.toRealm :=
    @Context.safe_thread _ _ _ _ .top stable _ _ safe trivial
  obtain ⟨shownAfter, shownReaches, later, spares⟩ :=
    threadSafe.veils_of_reaches stable reaches stage.sound (exact.bears code) pure veils
  obtain ⟨rfl, -⟩ := Thread.eq_of_finished finished
  have shownEnds : code.Ends base.self stage.store outcome shownAfter := by
    refine ⟨_, shownReaches, ?_⟩
    cases outcome <;> rfl
  obtain ⟨final, le, rfl, exactFinal, wanted⟩ := safe.of_ends stable exact shownEnds
  exact ⟨final, le, exactFinal, later, spares, wanted⟩

/-! ## Thunks that were just made -/

/-- One store is made of another by making thunks that nobody has claimed. -/
inductive Store.Adds (store : Store) : Store → Prop
  | refl : Adds store store
  | make {between : Store} (adds : Adds store between) (slot : Slot)
      (unclaimed : ¬slot.IsEvaluating) : Adds store (between.allocate slot).2

namespace Store

variable {first second third : Store} {thunk : Thunk}

theorem Adds.trans (left : first.Adds second) (right : second.Adds third) : first.Adds third := by
  induction right with
  | refl => exact left
  | make _ slot unclaimed ih => exact .make ih slot unclaimed

theorem Grows.trans (left : first.Grows second) (right : second.Grows third) :
    first.Grows third where
  keeps thunk slot held := right.keeps thunk slot (left.keeps thunk slot held)
  unclaimed thunk slot absent held := by
    cases between : second.slot? thunk with
    | none => exact right.unclaimed thunk slot between held
    | some former =>
      have same := right.keeps thunk former between
      rw [held] at same
      cases same
      exact left.unclaimed thunk slot absent between

theorem Adds.grows (adds : store.Adds after) : store.Grows after := by
  induction adds with
  | refl => exact .of_slots_eq rfl
  | @make between _ slot unclaimed ih =>
    exact ih.trans (between.grows_allocate slot unclaimed)

theorem not_holds_allocated (store : Store) (slot : Slot) :
    ¬store.Holds (store.allocate slot).1 := by
  rw [holds_iff_lt]
  exact Nat.lt_irrefl _

theorem holds_allocate_iff (store : Store) (slot : Slot) (thunk : Thunk) :
    (store.allocate slot).2.Holds thunk ↔ store.Holds thunk ∨ thunk = (store.allocate slot).1 := by
  rw [Holds, slot?_allocate]
  by_cases same : thunk.slot = store.slots.size
  · have isNew : thunk = (store.allocate slot).1 := congrArg Thunk.mk same
    rw [if_pos same]
    exact ⟨fun _ => .inr isNew, fun _ => ⟨slot, rfl⟩⟩
  · have notNew : thunk ≠ (store.allocate slot).1 := fun isNew => same (congrArg Thunk.slot isNew)
    simp [same, notNew, Holds]

/-- A thunk was made on the way from one store to another. -/
def Makes (earlier later : Store) (thunk : Thunk) : Prop :=
  ¬earlier.Holds thunk ∧ later.Holds thunk

theorem Makes.of_grows (made : store.Makes after thunk) (grows : after.Grows later) :
    store.Makes later thunk :=
  ⟨made.1, made.2.imp fun slot held => grows.keeps thunk slot held⟩

/-- Some thunks are out of sight of code that starts from certain others. -/
def Hides (frame : Frame) (visible : List Thunk) (veiled : Thunk → Prop) (store : Store) : Prop :=
  ∃ stage : Stage frame, stage.Exact ∧ stage.SeesAll visible ∧ store.Veils veiled stage.store

namespace Hides

variable {visible : List Thunk}

section

variable (hides : store.Hides base visible veiled)

include hides

theorem congr (same : ∀ thunk, veiled thunk ↔ other thunk) : store.Hides base visible other := by
  obtain rfl : veiled = other := funext fun thunk => propext (same thunk)
  exact hides

/-- A thunk that was just made can be kept out of sight. -/
theorem allocate (slot : Slot) : (store.allocate slot).2.Hides base visible
      fun thunk => veiled thunk ∨ thunk = (store.allocate slot).1 := by
  obtain ⟨stage, exact, sees, veils⟩ := hides
  -- The veil is a body that nobody will ever run.
  let body : Suspension := .invoke (.lazyPrimitive .list) [] []
  have allowed : (Action.suspend body).Allowed stage.toRealm := seesAll_nil
  refine ⟨stage.perform (.suspend body) allowed, ?_, ?_, veils.allocate_veiled slot rfl⟩
  · intro thunk marked
    have grows := Action.grows_perform (.suspend body) stage.store
    exact exact thunk ((grows.evaluating_iff thunk _).mp marked)
  · exact sees.mono (le_perform stage.toRealm (.suspend body))

/-- So can all thunks that were made. -/
theorem adds (adds : store.Adds after) :
    after.Hides base visible fun thunk => veiled thunk ∨ store.Makes after thunk := by
  induction adds with
  | refl =>
    refine hides.congr fun thunk => ?_
    exact ⟨.inl, fun cases => cases.resolve_right fun made => made.1 made.2⟩
  | @make between adds slot unclaimed ih =>
    have grows := adds.grows
    have absent : ¬store.Holds (between.allocate slot).1 := by
      rintro ⟨former, held⟩
      exact between.not_holds_allocated slot ⟨former, grows.keeps _ former held⟩
    refine (ih.allocate slot).congr fun thunk => ?_
    rw [Makes, Makes, holds_allocate_iff]
    by_cases isNew : thunk = (between.allocate slot).1
    · simp [isNew, absent]
    · simp [isNew]

theorem holds (isVeiled : veiled thunk) : store.Holds thunk := by
  obtain ⟨stage, -, -, veils⟩ := hides
  exact veils.holds isVeiled

theorem subset (subset : fewer ⊆ visible) : store.Hides base fewer veiled := by
  obtain ⟨stage, exact, sees, veils⟩ := hides
  exact ⟨stage, exact, sees.subset subset, veils⟩

/-- Code that starts from what is visible leaves alone what is out of sight. -/
theorem of_returns (pure : base.runs = none) {attempt : Attempt α} (given : α → List Thunk)
    (safe : ∀ stage : Stage base, stage.SeesAll visible →
      attempt.Safe (fun later result => later.SeesAll (given result)) stage)
    (returns : attempt.Returns base.self store result after) :
    store.Spares veiled after ∧ (∀ thunk, store.Holds thunk → after.Holds thunk) ∧
      after.Hides base (given result ++ visible) veiled := by
  obtain ⟨stage, exact, sees, veils⟩ := hides
  obtain ⟨later, le, exactLater, veilsLater, spares, wanted⟩ :=
    Code.Safe.spares_of_ends (safe stage sees)
      (fun _ _ _ le wanted result isOk => (wanted result isOk).mono le) exact pure veils returns
  refine ⟨spares, fun thunk held => ?_, later, exactLater,
    seesAll_append.mpr ⟨?_, sees.mono le⟩, veilsLater⟩
  · rw [veilsLater.holds_iff]
    exact (veils.holds_iff.mp held).mono le
  · exact wanted (.ok result) rfl result rfl

end

end Hides
end Store
end ByNeed
