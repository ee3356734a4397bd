import Mathlib.Data.Finset.Card
import Mathlib.Data.Finset.Range
import ByNeed.Proofs.Binding.Rest
import ByNeed.Proofs.Evaluator.Groups

/-!
# Groups of sums on the way

Each thunk of the group is as it was, is being evaluated, or has an answer that tells whether a loop
can be reached.  Everything that is being evaluated leads to what is asked for.
-/

namespace ByNeed

variable {self group : Nat} {base store between after : Store} {thunk : Thunk}
  {definition : Definition} {value : Value}

/-! ## What answers tell -/

/-- A value tells whether there is a loop: a number that there is none, and an error of
self-dependence that there is one. -/
def Value.Tells (loops : Prop) : Value → Prop
  | .number _ => ¬loops
  | .error failure => loops ∧ ∃ sites, failure = { Fault.selfDependence.error with trace := sites }
  | _ => False

namespace Value.Tells

variable {loops others : Prop}

theorem through (tells : value.Tells loops) (site : Option Site) :
    (value.through site).Tells loops := by
  cases value with
  | number => exact tells
  | error failure =>
    obtain ⟨found, sites, rfl⟩ := tells
    cases site with
    | none => exact ⟨found, sites, rfl⟩
    | some site => exact ⟨found, site :: sites, rfl⟩
  | _ => contradiction

theorem congr (tells : value.Tells loops) (same : loops ↔ others) : value.Tells others :=
  propext same ▸ tells

theorem purely_eq (tells : value.Tells loops) : value.purely = value := by
  cases value with
  | effect => contradiction
  | _ => rfl

end Value.Tells

/-! ## Stores on the way -/

namespace Store

/-- Some thunks of a group are being evaluated, and some have been, with the answers that
they should have. -/
structure Underway (base : Store) (group thread : Nat) (store : Store) : Prop where
  groups_eq : store.groups = base.groups
  keeps : base.Keeps store
  slot?_cases : ∀ thunk definition, base.Belongs group thunk definition → store.slot? thunk =
    base.slot? thunk ∨ store.slot? thunk = some (.evaluating thread) ∨ ∃ value, store.slot? thunk =
    some (.evaluated value) ∧
      value.Tells (base.LoopsFrom group definition)

/-- A store is underway, and what is being evaluated was so before. -/
structure Passes (base : Store) (group thread : Nat) (store after : Store) : Prop where
  underway : base.Underway group thread after
  keeps : store.Keeps after
  marks : ∀ thunk, after.slot? thunk = some (.evaluating thread) →
    store.slot? thunk = some (.evaluating thread)

/-- What is being evaluated leads to a thunk. -/
def Toward (base : Store) (group thread : Nat) (store : Store) (target : Thunk) : Prop :=
  ∀ thunk definition, base.Belongs group thunk definition →
    store.slot? thunk = some (.evaluating thread) →
      Relation.TransGen (base.Leads group) thunk target

open Classical in
/-- How many thunks of a group nobody has claimed. -/
noncomputable def unclaimed (base : Store) (group : Nat) (store : Store) : Nat :=
  ((Finset.range base.slots.size).filter fun place =>
    (∃ definition, base.Belongs group ⟨place⟩ definition) ∧ store.IsSuspended ⟨place⟩).card

theorem Adds.groups_eq (adds : store.Adds after) : after.groups = store.groups := by
  induction adds with
  | refl => rfl
  | make _ _ _ ih => exact ih

theorem underway_refl (base : Store) (group self : Nat) : base.Underway group self base where
  groups_eq := rfl
  keeps := .refl base
  slot?_cases _ _ _ := .inl rfl

theorem Defines.not_evaluating (defines : base.Defines group thunk definition) :
    base.slot? thunk ≠ some (.evaluating self) := by
  cases defines <;> simp_all

theorem toward_refl (base : Store) (group self : Nat) (target : Thunk) :
    base.Toward group self base target :=
  fun _ _ belongs marked => absurd marked belongs.defines.not_evaluating

namespace Underway

theorem exists_slot? (underway : base.Underway group self store)
    (belongs : base.Belongs group thunk definition) : ∃ slot, store.slot? thunk = some slot := by
  rcases underway.slot?_cases thunk definition belongs with held | held | ⟨value, held, -⟩
  · obtain ⟨defines, -⟩ := belongs
    cases defines <;> exact ⟨_, held.trans ‹_›⟩
  · exact ⟨_, held⟩
  · exact ⟨_, held⟩

theorem adds (underway : base.Underway group self store) (adds : store.Adds after) :
    base.Underway group self after where
  groups_eq := adds.groups_eq.trans underway.groups_eq
  keeps := underway.keeps.trans adds.grows.toKeeps
  slot?_cases thunk definition belongs := by
    obtain ⟨slot, held⟩ := underway.exists_slot? belongs
    rw [adds.grows.keeps thunk slot held, ← held]
    exact underway.slot?_cases thunk definition belongs

section

variable (underway : base.Underway group self store)

include underway

theorem claim (suspended : store.slot? thunk = some (.suspended computation)) :
    base.Underway group self (store.setSlot thunk (.evaluating self)) where
  groups_eq := underway.groups_eq
  keeps := by
    intro other slot held settled
    have heldNow := underway.keeps other slot held settled
    have ne : other ≠ thunk := by
      rintro rfl
      rw [suspended] at heldNow
      cases heldNow
      exact settled computation rfl
    rwa [slot?_setSlot_of_ne store ne]
  slot?_cases other definition belongs := by
    by_cases same : other = thunk
    · subst same
      exact .inr (.inl (slot?_setSlot_self suspended _))
    · rw [slot?_setSlot_of_ne store same]
      exact underway.slot?_cases other definition belongs

theorem publish (marked : store.slot? thunk = some (.evaluating self))
    (unmarked : base.slot? thunk ≠ some (.evaluating self))
    (tells : ∀ definition, base.Belongs group thunk definition →
      value.Tells (base.LoopsFrom group definition)) :
    base.Underway group self (store.publish thunk value) where
  groups_eq := underway.groups_eq
  keeps := by
    intro other slot held settled
    have heldNow := underway.keeps other slot held settled
    have ne : other ≠ thunk := by
      rintro rfl
      rw [marked] at heldNow
      cases heldNow
      exact unmarked held
    rwa [Store.publish, slot?_setSlot_of_ne store ne]
  slot?_cases other definition belongs := by
    by_cases same : other = thunk
    · subst same
      exact .inr (.inr ⟨value, slot?_setSlot_self marked _, tells definition belongs⟩)
    · rw [Store.publish, slot?_setSlot_of_ne store same]
      exact underway.slot?_cases other definition belongs

/-- What is suspended later has been so before. -/
theorem isSuspended (belongs : base.Belongs group thunk definition) (keeps : store.Keeps after)
    (suspended : after.IsSuspended thunk) : store.IsSuspended thunk := by
  obtain ⟨computation, heldAfter⟩ := suspended
  obtain ⟨slot, held⟩ := underway.exists_slot? belongs
  cases slot with
  | suspended computation => exact ⟨computation, held⟩
  | _ =>
    rw [keeps thunk _ held (by simp)] at heldAfter
    cases heldAfter

theorem unclaimed_le (keeps : store.Keeps after) :
    base.unclaimed group after ≤ base.unclaimed group store := by
  classical
  apply Finset.card_le_card
  intro place
  simp only [Finset.mem_filter]
  rintro ⟨inBounds, ⟨definition, belongs⟩, suspended⟩
  exact ⟨inBounds, ⟨definition, belongs⟩, underway.isSuspended belongs keeps suspended⟩

end

end Underway

/-- A claim leaves fewer thunks to claim. -/
theorem unclaimed_lt (self : Nat) (belongs : base.Belongs group thunk definition)
    (suspended : store.slot? thunk = some (.suspended computation)) :
    base.unclaimed group (store.setSlot thunk (.evaluating self)) < base.unclaimed group store := by
  classical
  have inBounds : thunk.slot < base.slots.size := by
    obtain ⟨defines, -⟩ := belongs
    cases defines <;> exact (Array.getElem?_eq_some_iff.mp ‹_›).1
  apply Finset.card_lt_card
  rw [Finset.ssubset_iff_of_subset]
  · refine ⟨thunk.slot, ?_, ?_⟩
    · simp only [Finset.mem_filter, Finset.mem_range]
      exact ⟨inBounds, ⟨definition, belongs⟩, computation, suspended⟩
    · simp only [Finset.mem_filter, not_and]
      rintro - - ⟨pending, held⟩
      rw [slot?_setSlot_self suspended] at held
      cases held
  · intro place
    simp only [Finset.mem_filter]
    rintro ⟨placeInBounds, belongsToo, pending, held⟩
    refine ⟨placeInBounds, belongsToo, pending, ?_⟩
    have ne : (⟨place⟩ : Thunk) ≠ thunk := by
      rintro rfl
      rw [slot?_setSlot_self suspended] at held
      cases held
    rwa [slot?_setSlot_of_ne store ne] at held

namespace Passes

theorem refl (underway : base.Underway group self store) : base.Passes group self store store where
  underway := underway
  keeps := .refl store
  marks _ marked := marked

theorem trans (left : base.Passes group self store between)
    (right : base.Passes group self between after) : base.Passes group self store after where
  underway := right.underway
  keeps := left.keeps.trans right.keeps
  marks thunk marked := left.marks thunk (right.marks thunk marked)

theorem of_adds (underway : base.Underway group self store) (adds : store.Adds after) :
    base.Passes group self store after where
  underway := underway.adds adds
  keeps := adds.grows.toKeeps
  marks thunk marked := (adds.grows.evaluating_iff thunk self).mp marked

theorem publish (passes : base.Passes group self (store.setSlot thunk (.evaluating self)) after)
    (suspended : store.slot? thunk = some (.suspended computation))
    (unmarked : base.slot? thunk ≠ some (.evaluating self))
    (tells : ∀ definition, base.Belongs group thunk definition →
      value.Tells (base.LoopsFrom group definition)) :
    base.Passes group self store (after.publish thunk value) := by
  have isSuspended := slot_eq_of_slot? suspended
  have marked := passes.keeps.claimed isSuspended
  refine ⟨passes.underway.publish marked unmarked tells, passes.keeps.publish isSuspended value, ?_⟩
  intro other markedOther
  have ne : other ≠ thunk := by
    rintro rfl
    rw [Store.publish, slot?_setSlot_self marked] at markedOther
    cases markedOther
  rw [Store.publish, slot?_setSlot_of_ne after ne] at markedOther
  have markedBefore := passes.marks other markedOther
  rwa [slot?_setSlot_of_ne store ne] at markedBefore

theorem toward (passes : base.Passes group self store after)
    (toward : base.Toward group self store target) : base.Toward group self after target :=
  fun thunk definition belongs marked =>
    toward thunk definition belongs (passes.marks thunk marked)

end Passes

theorem Toward.claim (toward : base.Toward group self store thunk)
    (leads : base.Leads group thunk next) :
    base.Toward group self (store.setSlot thunk (.evaluating self)) next := by
  intro other definition belongs marked
  by_cases same : other = thunk
  · subst same
    exact .single leads
  · rw [slot?_setSlot_of_ne store same] at marked
    exact (toward other definition belongs marked).tail leads

end Store

end ByNeed
