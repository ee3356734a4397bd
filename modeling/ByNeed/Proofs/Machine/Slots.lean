import ByNeed.Machine.Thread

/-!
# Slots over time

Only claiming a suspended thunk and publishing the value of a thunk change a slot that is there.
Everything else leaves the slots alone, or adds a thunk that nobody has claimed.
-/

namespace ByNeed
namespace Slot

/-- Claimed by a thread and not yet published. -/
def IsEvaluating (slot : Slot) : Prop :=
  ∃ owner, slot = .evaluating owner

@[simp] theorem isEvaluating_suspended (computation : Suspension) :
    (suspended computation).IsEvaluating ↔ False := by
  simp [IsEvaluating]

@[simp] theorem isEvaluating_evaluated (value : Value) :
    (evaluated value).IsEvaluating ↔ False := by
  simp [IsEvaluating]

/-- One move of a slot, or none: from suspended to evaluating, and from there to
evaluated. -/
inductive Moves : Slot → Slot → Prop
  | stay (slot : Slot) : Moves slot slot
  | claim (computation : Suspension) (owner : Nat) :
      Moves (.suspended computation) (.evaluating owner)
  | publish (owner : Nat) (value : Value) :
      Moves (.evaluating owner) (.evaluated value)

end Slot

namespace Store

variable {thunk : Thunk} {store after : Store} {self : Nat} {computation : Suspension}
variable {former : Slot} {other : Thunk} {earlier later : Store} {value : Value}

/-- The slot of a thunk, if the store holds the thunk. -/
def slot? (store : Store) (thunk : Thunk) : Option Slot :=
  store.slots[thunk.slot]?

/-- Whatever has a value keeps it. -/
def Remembers (store after : Store) : Prop :=
  ∀ thunk value, store.slot? thunk = some (.evaluated value) →
    after.slot? thunk = some (.evaluated value)

/-- What is told of a thunk is what it holds, or it is excused. -/
def Tells (store : Store) (excused : Thunk → Value → Prop) (thunk : Thunk) (value : Value) : Prop :=
  store.slot? thunk = some (.evaluated value) ∨ excused thunk value

theorem Tells.mono (tells : store.Tells excused thunk value) (keeps : store.Remembers after) :
    after.Tells excused thunk value :=
  tells.imp_left (keeps thunk value)

theorem slot_eq_getD (store : Store) (thunk : Thunk) :
    store.slot thunk = (store.slot? thunk).getD (.evaluated .nil) := by
  simp [slot, slot?]

theorem slot_eq_of_slot? {slot : Slot} (held : store.slot? thunk = some slot) :
    store.slot thunk = slot := by
  rw [slot_eq_getD, held, Option.getD_some]

/-- A thunk that is not held counts as evaluated to nil. -/
theorem slot?_or_nil {slot : Slot} (held : store.slot thunk = slot) :
    store.slot? thunk = some slot ∨ slot = .evaluated .nil := by
  rw [slot_eq_getD] at held
  cases found : store.slot? thunk with
  | none => exact .inr (by rw [← held, found, Option.getD_none])
  | some former => exact .inl (by rw [← held, found, Option.getD_some])

theorem slot?_of_suspended (suspended : store.slot thunk = .suspended computation) :
    store.slot? thunk = some (.suspended computation) :=
  (slot?_or_nil suspended).resolve_right nofun

theorem slot?_of_evaluating (marked : store.slot thunk = .evaluating self) :
    store.slot? thunk = some (.evaluating self) :=
  (slot?_or_nil marked).resolve_right nofun

theorem slot?_or_nil_of_evaluated (evaluated : store.slot thunk = .evaluated value) :
    store.slot? thunk = some (.evaluated value) ∨ value = .nil :=
  (slot?_or_nil evaluated).imp_right Slot.evaluated.inj

theorem slot?_congr {left right : Store} (same : left.slots = right.slots) (thunk : Thunk) :
    left.slot? thunk = right.slot? thunk := by
  rw [slot?, slot?, same]

theorem slot?_setSlot_self (held : store.slot? thunk = some former) (slot : Slot) :
    (store.setSlot thunk slot).slot? thunk = some slot := by
  obtain ⟨inBounds, -⟩ := Array.getElem?_eq_some_iff.mp held
  simp [slot?, setSlot, inBounds]

theorem slot?_setSlot_of_ne (store : Store) (ne : other ≠ thunk) (slot : Slot) :
    (store.setSlot thunk slot).slot? other = store.slot? other := by
  have places : thunk.slot ≠ other.slot := by
    intro same
    apply ne
    cases thunk
    cases other
    simp_all
  simp [slot?, setSlot, places]

theorem slot?_setSlot_cases (held : store.slot? thunk = some former) (slot : Slot)
    (otherHeld : store.slot? other = some found) :
    (other = thunk ∧ found = former ∧ (store.setSlot thunk slot).slot? other = some slot) ∨
      (store.setSlot thunk slot).slot? other = some found := by
  by_cases same : other = thunk
  · subst other
    rw [held] at otherHeld
    cases otherHeld
    exact .inl ⟨rfl, rfl, slot?_setSlot_self held slot⟩
  · exact .inr (by rw [slot?_setSlot_of_ne store same, otherHeld])

theorem slot?_of_setSlot {slot found : Slot}
    (isFound : (store.setSlot thunk slot).slot? other = some found) :
    store.slot? other = some found ∨ found = slot := by
  by_cases same : other = thunk
  · subst other
    simp only [slot?, setSlot, Array.getElem?_setIfInBounds_self] at isFound
    split at isFound
    · exact .inr (Option.some.inj isFound).symm
    · cases isFound
  · exact .inl (slot?_setSlot_of_ne store same slot ▸ isFound)

/-- A thunk that was made is held, and so is every thunk held before. -/
theorem slot?_allocate (store : Store) (slot : Slot) (thunk : Thunk) :
    (store.allocate slot).2.slot? thunk =
      if thunk.slot = store.slots.size then some slot else store.slot? thunk := by
  simp [slot?, allocate, Array.getElem?_push]

/-! ## Stores that grow -/

/-- A later store holds what an earlier one holds, and otherwise only thunks that
nobody has claimed. -/
structure Grows (earlier later : Store) : Prop where
  keeps : ∀ thunk slot, earlier.slot? thunk = some slot → later.slot? thunk = some slot
  unclaimed : ∀ thunk slot,
    earlier.slot? thunk = none → later.slot? thunk = some slot → ¬slot.IsEvaluating

theorem Grows.of_slots_eq (same : later.slots = earlier.slots) : earlier.Grows later where
  keeps thunk slot held := by
    rwa [slot?_congr same]
  unclaimed thunk slot absent held := by
    rw [slot?_congr same, absent] at held
    contradiction

theorem grows_allocate (store : Store) (slot : Slot) (unclaimed : ¬slot.IsEvaluating) :
    store.Grows (store.allocate slot).2 where
  keeps thunk former held := by
    obtain ⟨inBounds, -⟩ := Array.getElem?_eq_some_iff.mp held
    rw [slot?_allocate, if_neg (Nat.ne_of_lt inBounds), held]
  unclaimed thunk found absent held := by
    rw [slot?_allocate] at held
    split at held
    · cases held
      exact unclaimed
    · rw [absent] at held
      contradiction

/-- What is evaluating in a store that has grown was so before. -/
theorem Grows.evaluating_iff (grows : earlier.Grows later) (thunk : Thunk) (owner : Nat) :
    later.slot? thunk = some (.evaluating owner) ↔
      earlier.slot? thunk = some (.evaluating owner) := by
  constructor
  · intro held
    cases before : earlier.slot? thunk with
    | none => exact absurd ⟨owner, rfl⟩ (grows.unclaimed thunk _ before held)
    | some slot => rw [← grows.keeps thunk slot before, held]
  · exact grows.keeps thunk _

/-! ## Claims -/

/-- A thread is given a computation exactly when the thunk is suspended. -/
theorem claim_of_suspended (suspended : store.slot thunk = .suspended computation) (self : Nat) :
    store.claim self thunk = (.owned computation, store.setSlot thunk (.evaluating self)) := by
  simp only [claim, suspended]

theorem claim_of_evaluated (evaluated : store.slot thunk = .evaluated value) (self : Nat) :
    store.claim self thunk = (.ready value, store) := by
  simp only [claim, evaluated]

theorem claim_of_evaluating_self (evaluating : store.slot thunk = .evaluating self) :
    store.claim self thunk = (.cycle, store) := by
  simp only [claim, evaluating, if_true]

theorem claim_of_evaluating_other (evaluating : store.slot thunk = .evaluating owner)
    (ne : owner ≠ self) : store.claim self thunk = (.busy, store) := by
  simp only [claim, evaluating, if_neg ne]

theorem slot?_of_owned (owned : (store.claim self thunk).1 = .owned computation) :
    store.slot? thunk = some (.suspended computation) := by
  unfold claim at owned
  split at owned
  · cases owned
  · split at owned <;> cases owned
  · rename_i suspended
    cases owned
    exact slot?_of_suspended suspended

end Store

end ByNeed
