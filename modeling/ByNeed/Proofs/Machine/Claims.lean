import ByNeed.Proofs.Machine.Context
import ByNeed.Proofs.Machine.Effects

/-!
# What a thread has claimed

A thread has claimed the thunks of the chains it works on.  `Thread.progress_step` says what a step
does to its claims and to the store.  So the thunks it has claimed are exactly those that bear its
mark, each claimed once, whatever other threads do.
-/

namespace ByNeed

open Store

variable {ρ α : Type}

/-- The thunks of a chain, the most recent claim first. -/
def chainThunks (chain : List Link) : List Thunk :=
  chain.map Link.thunk

@[simp] theorem chainThunks_nil : chainThunks [] = [] := rfl

@[simp] theorem chainThunks_cons (link : Link) (chain : List Link) :
    chainThunks (link :: chain) = link.thunk :: chainThunks chain := rfl

/-- The thunks of the chains that wait on a stack. -/
def Stack.claims : Stack ρ → List Thunk
  | .base _ => []
  | .nested _ chain rest => chainThunks chain ++ rest.claims

/-- An access of a thread to the slot of a thunk, in one locked section. -/
inductive Access where
  /-- Ask for the thunk. -/
  | claim (thunk : Thunk)
  /-- Publish the value of the thunk. -/
  | publish (thunk : Thunk) (value : Value)

namespace Thread

/-- The thunks a thread has claimed and not yet published. -/
def claims : Thread ρ → List Thunk
  | .running _ => []
  | .driving _ chain stack => chainThunks chain ++ stack.claims
  | .settling _ chain stack => chainThunks chain ++ stack.claims

@[simp] theorem claims_running (code : Code ρ) : (running code).claims = [] := rfl

@[simp] theorem claims_driving (code : Code Thunk) (chain : List Link) (stack : Stack ρ) :
    (driving code chain stack).claims = chainThunks chain ++ stack.claims := rfl

@[simp] theorem claims_settling (value : Value) (chain : List Link) (stack : Stack ρ) :
    (settling value chain stack).claims = chainThunks chain ++ stack.claims := rfl

/-- The access to a slot that a thread makes in its next step, if it makes one. -/
def access? : Thread ρ → Option Access
  | .running (.evaluate thunk _) => some (.claim thunk)
  | .driving (.evaluate thunk _) _ _ => some (.claim thunk)
  | .driving (.done thunk) _ _ => some (.claim thunk)
  | .settling value (link :: _) _ => some (.publish link.thunk (value.through link.site))
  | _ => none

end Thread

@[simp] theorem Stack.claims_resume (stack : Stack ρ) (value : Value) :
    (stack.resume value).claims = stack.claims := by
  cases stack <;> rfl

namespace Context

theorem claims_thread (context : Context ρ α) (code other : Code α) :
    (context.thread code).claims = (context.thread other).claims := by
  cases context <;> rfl

@[simp] theorem access?_act (context : Context ρ α) (action : Action)
    (next : action.Reply → Code α) : (context.thread (.act action next)).access? = none := by
  cases context <;> rfl

@[simp] theorem access?_call (context : Context ρ α) (routine : Routine)
    (next : routine.Reply → Code α) : (context.thread (.call routine next)).access? = none := by
  cases context <;> rfl

end Context

namespace Thread.Asks

variable {thread : Thread ρ} {thunk : Thunk} {answered : Value → Thread ρ}
  {chain : List Link} {stack : Stack ρ}

section

variable (asks : thread.Asks thunk answered chain stack)

include asks

theorem access?_eq : thread.access? = some (.claim thunk) := by
  cases asks with
  | evaluate context thunk next => cases context <;> rfl
  | follow thunk chain stack => rfl

theorem claims_eq : chainThunks chain ++ stack.claims = thread.claims := by
  cases asks with
  | evaluate context thunk next => cases context <;> rfl
  | follow thunk chain stack => rfl

theorem claims_answered (value : Value) : (answered value).claims = thread.claims := by
  cases asks with
  | evaluate context thunk next => exact context.claims_thread _ _
  | follow thunk chain stack => rfl

end

end Thread.Asks

/-! ## Steps -/

namespace Thread

/-- What a step of a thread can do, and what it finds in the store. -/
inductive Steps (self : Nat) : Thread ρ → Store → Step ρ × Store → Prop
  | act {α : Type} (context : Context ρ α) {action : Action} {reply : action.Reply}
      {next : action.Reply → Code α} (performed : action.perform store = (some reply, after)) :
      Steps self (context.thread (.act action next)) store
        (.moved (context.thread (next reply)), after)
  | block {α : Type} (context : Context ρ α) {action : Action} {next : action.Reply → Code α}
      (performed : action.perform store = (none, after)) :
      Steps self (context.thread (.act action next)) store (.waiting, after)
  | answer (asks : Asks thread thunk answered chain stack)
      (evaluated : store.slot thunk = .evaluated value) :
      Steps self thread store (.moved (answered value), store)
  | cycle (asks : Asks thread thunk answered chain stack)
      (marked : store.slot thunk = .evaluating self) :
      Steps self thread store (.moved (answered (.fault .selfDependence)), store)
  | busy (asks : Asks thread thunk answered chain stack)
      (marked : store.slot thunk = .evaluating owner) (different : owner ≠ self) :
      Steps self thread store (.waiting, store)
  | claim (asks : Asks thread thunk answered chain stack)
      (suspended : store.slot? thunk = some (.suspended computation)) :
      Steps self thread store (.moved (.driving computation.resume
        (⟨thunk, computation.site⟩ :: chain) stack), store.setSlot thunk (.evaluating self))
  | call {α : Type} (context : Context ρ α) {routine : Routine} {next : routine.Reply → Code α} :
      Steps self (context.thread (.call routine next)) store
        (.moved (context.thread (routine.body.bind next)), store)
  | finish (result : ρ) :
      Steps self (.running (.done result)) store (.finished (.ok result), store)
  | fail (message : String) :
      Steps self (.running (.breakOff message)) store (.finished (.error message), store)
  | breakOff (message : String) (chain : List Link) (stack : Stack ρ) :
      Steps self (.driving (.breakOff message) chain stack) store
        (.moved (.settling (.fault (.brokenOff message)) chain stack), store)
  | settled (value : Value) (stack : Stack ρ) :
      Steps self (.settling value [] stack) store (.moved (stack.resume value), store)
  | publish (value : Value) (link : Link) (chain : List Link) (stack : Stack ρ) :
      Steps self (.settling value (link :: chain) stack) store
        (.moved (.settling (value.through link.site) chain stack),
          store.publish link.thunk (value.through link.site))

variable {thread : Thread ρ} {store : Store} {thunk : Thunk} {self : Nat}

theorem steps (self : Nat) (thread : Thread ρ) (store : Store) :
    thread.Steps self store (thread.step self store) := by
  cases thread using stepCases with
  | act context action next =>
    rw [Context.step_act]
    split
    · exact .act context ‹_›
    · exact .block context ‹_›
  | @ask thread thunk answered chain stack asks =>
    rw [asks.step_eq]
    cases held : store.slot thunk with
    | evaluated value =>
      rw [claim_of_evaluated held]
      exact .answer asks held
    | suspended computation =>
      rw [claim_of_suspended held]
      exact .claim asks (slot?_of_suspended held)
    | evaluating owner =>
      by_cases same : owner = self
      · subst same
        rw [claim_of_evaluating_self held]
        exact .cycle asks held
      · rw [claim_of_evaluating_other held same]
        exact .busy asks held same
  | call context routine next =>
    rw [Context.step_call]
    exact .call context
  | finish => exact .finish _
  | fail => exact .fail _
  | breakOff => exact .breakOff ..
  | settled => exact .settled ..
  | publish => exact .publish ..

theorem steps_of_step (stepped : thread.step self store = result) :
    thread.Steps self store result :=
  stepped ▸ thread.steps self store

/-- The next step of a thread changes no slot that is there: it publishes nothing, and
it asks for nothing that is suspended. -/
structure Passive (thread : Thread ρ) (store : Store) : Prop where
  unpublished : ∀ thunk value, thread.access? ≠ some (.publish thunk value)
  refused : ∀ thunk, thread.access? = some (.claim thunk) →
    ∀ computation, store.slot? thunk ≠ some (.suspended computation)

theorem Passive.of_access?_eq_none (access_eq : thread.access? = none) (store : Store) :
    thread.Passive store where
  unpublished := by simp [access_eq]
  refused := by simp [access_eq]

theorem Passive.of_refusal (access_eq : thread.access? = some (.claim thunk))
    {slot : Slot} (found : store.slot thunk = slot)
    (unsuspended : ∀ computation, slot ≠ .suspended computation) : thread.Passive store where
  unpublished := by simp [access_eq]
  refused asked asks computation suspended := by
    rw [access_eq] at asks
    cases asks
    exact unsuspended computation (found.symm.trans (slot_eq_of_slot? suspended))

/-- What a step of a thread can do: nothing to the slots that are there, or claim a
suspended thunk, or publish the thunk it has claimed last. -/
inductive Progress (self : Nat) (thread : Thread ρ) (store : Store) :
    Thread ρ → Store → Prop
  | keep {next : Thread ρ} {after : Store}
      (passive : thread.Passive store)
      (claims_eq : next.claims = thread.claims)
      (grows : store.Grows after) :
      Progress self thread store next after
  | claim (thunk : Thunk) (computation : Suspension) (chain : List Link) (stack : Stack ρ)
      (access_eq : thread.access? = some (.claim thunk))
      (suspended : store.slot? thunk = some (.suspended computation))
      (claims_eq : chainThunks chain ++ stack.claims = thread.claims) :
      Progress self thread store (.driving computation.resume (⟨thunk, computation.site⟩ :: chain)
        stack) (store.setSlot thunk (.evaluating self))
  | publish {next : Thread ρ} (thunk : Thunk) (value : Value)
      (access_eq : thread.access? = some (.publish thunk value))
      (claims_eq : thread.claims = thunk :: next.claims) :
      Progress self thread store next (store.publish thunk value)

/-- What comes of a step: progress, or no change of the slots that are there.  A
thread that finishes has claimed nothing. -/
def Outcome (self : Nat) (thread : Thread ρ) (store : Store) : Step ρ × Store → Prop
  | (.moved next, after) => thread.Progress self store next after
  | (.waiting, after) => thread.Passive store ∧ store.Grows after
  | (.finished _, after) => thread.Passive store ∧ store.Grows after ∧ thread.claims = []

theorem outcome_step (self : Nat) (thread : Thread ρ) (store : Store) :
    thread.Outcome self store (thread.step self store) := by
  have steps := thread.steps self store
  generalize thread.step self store = result at steps
  cases steps with
  | act context performed =>
    exact .keep (.of_access?_eq_none (context.access?_act _ _) _) (context.claims_thread _ _)
      (Action.grows_of_perform performed)
  | block context performed =>
    exact ⟨.of_access?_eq_none (context.access?_act _ _) _, Action.grows_of_perform performed⟩
  | answer asks evaluated =>
    exact .keep (.of_refusal asks.access?_eq evaluated nofun) (asks.claims_answered _)
      (.of_slots_eq rfl)
  | cycle asks marked =>
    exact .keep (.of_refusal asks.access?_eq marked nofun) (asks.claims_answered _)
      (.of_slots_eq rfl)
  | busy asks marked => exact ⟨.of_refusal asks.access?_eq marked nofun, .of_slots_eq rfl⟩
  | claim asks suspended =>
    exact .claim _ _ _ _ asks.access?_eq suspended asks.claims_eq
  | call context =>
    exact .keep (.of_access?_eq_none (context.access?_call _ _) _) (context.claims_thread _ _)
      (.of_slots_eq rfl)
  | breakOff => exact .keep (.of_access?_eq_none rfl store) rfl (.of_slots_eq rfl)
  | settled => exact .keep (.of_access?_eq_none rfl store) (by simp) (.of_slots_eq rfl)
  | publish => exact .publish _ _ rfl (by simp)
  | _ => exact ⟨.of_access?_eq_none rfl store, .of_slots_eq rfl, rfl⟩

theorem progress_of_moved (moved : thread.step self store = (.moved next, after)) :
    thread.Progress self store next after := by
  have outcome := thread.outcome_step self store
  rwa [moved] at outcome

/-! ## Ownership -/

/-- The thunks that bear the mark of a thread are those it held from the start and those
it has claimed, each claimed once. -/
structure Bears (held : Thunk → Prop) (number : Nat) (thread : Thread ρ) (store : Store) :
    Prop where
  nodup : thread.claims.Nodup
  apart : ∀ thunk ∈ thread.claims, ¬held thunk
  marked_iff : ∀ thunk,
    store.slot? thunk = some (.evaluating number) ↔ held thunk ∨ thunk ∈ thread.claims

/-- A thread has claimed exactly the thunks that bear its mark, each once. -/
structure Owns (number : Nat) (thread : Thread ρ) (store : Store) : Prop where
  nodup : thread.claims.Nodup
  mem_iff : ∀ thunk, thunk ∈ thread.claims ↔ store.slot? thunk = some (.evaluating number)

/-- To own what is marked is to hold nothing from the start. -/
theorem owns_iff_bears : thread.Owns self store ↔ thread.Bears (fun _ => False) self store := by
  constructor
  · intro owns
    exact ⟨owns.nodup, fun _ _ held => held, fun thunk => by rw [← owns.mem_iff, false_or]⟩
  · intro bears
    exact ⟨bears.nodup, fun thunk => by rw [bears.marked_iff, false_or]⟩

namespace Bears

variable {held : Thunk → Prop} {self : Nat} {thread next : Thread ρ} {store after : Store}
variable {thunk : Thunk} (bears : thread.Bears held self store)

include bears

/-- A thread that claims and publishes nothing keeps its marks while the store grows. -/
theorem of_grows (claims_eq : next.claims = thread.claims) (grows : store.Grows after) :
    next.Bears held self after := by
  refine ⟨claims_eq ▸ bears.nodup, claims_eq ▸ bears.apart, fun thunk => ?_⟩
  rw [grows.evaluating_iff, bears.marked_iff, claims_eq]

theorem of_claim (suspended : store.slot? thunk = some (.suspended computation))
    (claims_eq : next.claims = thunk :: thread.claims) :
    next.Bears held self (store.setSlot thunk (.evaluating self)) := by
  have unmarked : ¬(held thunk ∨ thunk ∈ thread.claims) := by
    rw [← bears.marked_iff, suspended]
    simp
  rw [not_or] at unmarked
  refine ⟨?_, ?_, fun other => ?_⟩
  · rw [claims_eq]
    exact List.nodup_cons.mpr ⟨unmarked.2, bears.nodup⟩
  · rw [claims_eq]
    exact List.forall_mem_cons.mpr ⟨unmarked.1, bears.apart⟩
  · rw [claims_eq, List.mem_cons]
    by_cases same : other = thunk
    · subst other
      simp [slot?_setSlot_self suspended]
    · rw [slot?_setSlot_of_ne store same, bears.marked_iff]
      simp [same]

/-- The thunk claimed last bears the mark of the thread. -/
theorem slot?_head (claims_eq : thread.claims = thunk :: rest) :
    store.slot? thunk = some (.evaluating self) := by
  rw [bears.marked_iff, claims_eq]
  exact .inr List.mem_cons_self

theorem of_publish (claims_eq : thread.claims = thunk :: next.claims) (value : Value) :
    next.Bears held self (store.publish thunk value) := by
  have marked := bears.slot?_head claims_eq
  have nodup := bears.nodup
  have apart := bears.apart
  rw [claims_eq] at nodup apart
  obtain ⟨unclaimed, nodup⟩ := List.nodup_cons.mp nodup
  obtain ⟨notHeld, apart⟩ := List.forall_mem_cons.mp apart
  refine ⟨nodup, apart, fun other => ?_⟩
  by_cases same : other = thunk
  · subst other
    simp [Store.publish, slot?_setSlot_self marked, unclaimed, notHeld]
  · rw [Store.publish, slot?_setSlot_of_ne store same, bears.marked_iff, claims_eq]
    simp [same]

/-- Every step keeps track of the marks. -/
theorem of_progress (progress : thread.Progress self store next after) :
    next.Bears held self after := by
  cases progress with
  | keep _ claims_eq grows => exact bears.of_grows claims_eq grows
  | claim thunk computation chain stack _ suspended claims_eq =>
    exact bears.of_claim suspended (by simp [claims_eq])
  | publish thunk value _ claims_eq => exact bears.of_publish claims_eq value

theorem of_moved (moved : thread.step self store = (.moved next, after)) :
    next.Bears held self after :=
  bears.of_progress (progress_of_moved moved)

end Bears

namespace Owns

variable {self : Nat} {thread next : Thread ρ} {store after : Store}
variable {thunk : Thunk} (owns : thread.Owns self store)

include owns

theorem bears : thread.Bears (fun _ => False) self store :=
  owns_iff_bears.mp owns

theorem of_grows (claims_eq : next.claims = thread.claims) (grows : store.Grows after) :
    next.Owns self after :=
  owns_iff_bears.mpr (owns.bears.of_grows claims_eq grows)

theorem slot?_head (claims_eq : thread.claims = thunk :: rest) :
    store.slot? thunk = some (.evaluating self) :=
  owns.bears.slot?_head claims_eq

section

variable (progress : thread.Progress self store next after)

include progress

/-- Ownership is kept by every step. -/
theorem of_progress : next.Owns self after :=
  owns_iff_bears.mpr (owns.bears.of_progress progress)

/-- A step of a thread leaves the marks of all other threads alone. -/
theorem evaluating_other_iff (ne : other ≠ self) (thunk : Thunk) :
    after.slot? thunk = some (.evaluating other) ↔
      store.slot? thunk = some (.evaluating other) := by
  cases progress with
  | keep _ _ grows => exact grows.evaluating_iff thunk other
  | claim claimed computation _ _ _ suspended _ =>
    by_cases same : thunk = claimed
    · subst thunk
      simp [slot?_setSlot_self suspended, suspended, ne.symm]
    · rw [slot?_setSlot_of_ne store same]
  | publish published value _ claims_eq =>
    have held := owns.slot?_head claims_eq
    by_cases same : thunk = published
    · subst thunk
      simp [Store.publish, slot?_setSlot_self held, held, ne.symm]
    · rw [Store.publish, slot?_setSlot_of_ne store same]

/-- A step of a thread moves every slot forward by one state at most. -/
theorem slot_moves {slot : Slot} (held : store.slot? thunk = some slot) :
    ∃ later, after.slot? thunk = some later ∧ slot.Moves later := by
  cases progress with
  | keep _ _ grows => exact ⟨slot, grows.keeps thunk slot held, .stay slot⟩
  | claim claimed computation _ _ _ suspended _ =>
    rcases slot?_setSlot_cases suspended _ held with ⟨rfl, rfl, marked⟩ | kept
    · exact ⟨_, marked, .claim computation self⟩
    · exact ⟨slot, kept, .stay slot⟩
  | publish published value _ claims_eq =>
    have marked := owns.slot?_head claims_eq
    rcases slot?_setSlot_cases marked _ held with ⟨rfl, rfl, evaluated⟩ | kept
    · exact ⟨_, evaluated, .publish self value⟩
    · exact ⟨slot, kept, .stay slot⟩

end

end Owns
end Thread
end ByNeed
