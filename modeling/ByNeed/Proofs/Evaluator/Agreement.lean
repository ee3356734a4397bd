import ByNeed.Proofs.Evaluator.Recursive
import ByNeed.Proofs.Machine.Solo

/-!
# The machine agrees with the recursive evaluator

From a recursive evaluation follows a run of the machine in every context.  For the converse every
thread has a meaning in terms of the recursive evaluator, which no step changes.
-/

namespace ByNeed

open Store

open Thread

variable {ρ α : Type} {self : Nat}

/-! ## From recursion to the machine -/

/-- Code that does nothing but end. -/
def Code.ofOutcome : Except String α → Code α
  | .ok result => .done result
  | .error message => .breakOff message

namespace Context

variable (context : Context ρ α)

theorem moves_act {action : Action} {next : action.Reply → Code α} {reply : action.Reply}
    (performed : action.perform store = (some reply, after)) :
    Moves self (context.thread (.act action next), store) (context.thread (next reply), after) := by
  rw [Moves, step_act, performed]

theorem moves_call (routine : Routine) (next : routine.Reply → Code α) (store : Store) :
    Moves self (context.thread (.call routine next), store) (context.thread (routine.body.bind
      next), store) :=
  context.step_call routine next self store

theorem moves_settled (next : Value → Code α) (value : Value) (store : Store) :
    Moves self (.settling value [] (context.stack next), store) (context.thread (next value), store)
      := by
  rw [Moves, step, resume_stack]

end Context

theorem Thread.moves_publish (value : Value) (link : Link) (chain : List Link) (stack : Stack ρ)
    (store : Store) :
    Moves self (.settling value (link :: chain) stack, store) (.settling (value.through link.site)
      chain stack, store.publish link.thunk (value.through link.site)) :=
  rfl

theorem Thread.moves_breakOff (message : String) (chain : List Link) (stack : Stack ρ)
    (store : Store) :
    Moves self (.driving (.breakOff message) chain stack, store) (.settling (.fault (.brokenOff
      message)) chain stack, store) :=
  rfl

namespace Thread.Asks

variable {thread : Thread ρ} {thunk : Thunk} {answered : Value → Thread ρ}
  {chain : List Link} {stack : Stack ρ} {store : Store}

section

variable (asks : thread.Asks thunk answered chain stack)

include asks

theorem moves_claim (suspended : store.slot thunk = .suspended computation) :
    Moves self (thread, store) (.driving computation.resume (⟨thunk, computation.site⟩ :: chain)
      stack, store.setSlot thunk (.evaluating self)) := by
  rw [Moves, asks.step_eq, claim_of_suspended suspended]

theorem moves_answered (answers : store.claim self thunk = (.ready value, store) ∨
      store.claim self thunk = (.cycle, store) ∧ value = .fault .selfDependence) :
    Moves self (thread, store) (answered value, store) := by
  rw [Moves, asks.step_eq]
  rcases answers with ready | ⟨cycle, rfl⟩
  · rw [ready]
  · rw [cycle]

theorem reaches_answered (value : Value) (store : Store) :
    Reaches self (.settling value chain stack, store) (answered value, store) := by
  cases asks with
  | evaluate context thunk next => exact .single (context.moves_settled next value store)
  | follow thunk chain stack => exact .refl

end

end Thread.Asks

namespace Thunk

/-- Once claimed on top of any chain, a thunk is settled with a value. -/
def Driven (self : Nat) (thunk : Thunk) (store : Store) (value : Value) (after : Store) : Prop :=
  ∀ computation, store.slot thunk = .suspended computation →
    ∀ {ρ : Type} (chain : List Link) (stack : Stack ρ),
      Reaches self (.driving computation.resume (⟨thunk, computation.site⟩ :: chain) stack,
          store.setSlot thunk (.evaluating self))
        (.settling value chain stack, after)

namespace Evaluates

variable {thunk : Thunk} {store after : Store} {value : Value}

theorem suspended_or_answers (evaluates : thunk.Evaluates self store value after) :
    (∃ computation, store.slot thunk = .suspended computation) ∨ after = store ∧
        (store.claim self thunk = (.ready value, store) ∨
          store.claim self thunk = (.cycle, store) ∧ value = .fault .selfDependence) := by
  cases evaluates with
  | memoized evaluated => exact .inr ⟨rfl, .inl (claim_of_evaluated evaluated self)⟩
  | cycle evaluating => exact .inr ⟨rfl, .inr ⟨claim_of_evaluating_self evaluating, rfl⟩⟩
  | computed suspended _ _ => exact .inl ⟨_, suspended⟩
  | brokenOff suspended _ => exact .inl ⟨_, suspended⟩

theorem reaches_of_driven (evaluates : thunk.Evaluates self store value after)
    (driven : thunk.Driven self store value after) (asks : thread.Asks thunk answered chain stack) :
    Reaches self (thread, store) (answered value, after) := by
  rcases evaluates.suspended_or_answers with ⟨computation, suspended⟩ | ⟨rfl, answers⟩
  · have settles := driven computation suspended chain stack
    exact .head (asks.moves_claim suspended) (settles.trans (asks.reaches_answered value after))
  · exact .single (asks.moves_answered answers)

end Evaluates

namespace Driven

variable {thunk next : Thunk} {store between after : Store} {value : Value}
  {computation : Suspension}

theorem of_not_suspended (settled : ∀ pending, store.slot thunk ≠ .suspended pending) :
    thunk.Driven self store value after :=
  fun pending suspended => absurd suspended (settled pending)

section

variable (suspended : store.slot thunk = .suspended computation)

include suspended

theorem of_suspended (settles : ∀ {ρ : Type} (chain : List Link) (stack : Stack ρ), Reaches self
        (.driving computation.resume (⟨thunk, computation.site⟩ :: chain) stack,
          store.setSlot thunk (.evaluating self))
        (.settling value chain stack, after)) : thunk.Driven self store value after := by
  intro pending suspendedToo
  obtain rfl := Slot.suspended.inj (suspended.symm.trans suspendedToo)
  exact settles

theorem computed (drives : ∀ {ρ : Type} (context : Context ρ Thunk), Reaches self
        (context.thread computation.resume, store.setSlot thunk (.evaluating self))
        (context.thread (.done next), between))
    (continues : next.Evaluates self between value after)
    (driven : next.Driven self between value after) :
    thunk.Driven self store (value.through computation.site)
      (after.publish thunk (value.through computation.site)) := by
  apply of_suspended suspended
  intro ρ chain stack
  have follows := continues.reaches_of_driven driven
    (.follow next (⟨thunk, computation.site⟩ :: chain) stack)
  have publishes := follows.tail (moves_publish value ⟨thunk, computation.site⟩ chain stack after)
  exact (drives (.link (⟨thunk, computation.site⟩ :: chain) stack)).trans publishes

theorem brokenOff (drives : ∀ {ρ : Type} (context : Context ρ Thunk), Reaches self
        (context.thread computation.resume, store.setSlot thunk (.evaluating self))
        (context.thread (.breakOff message), after)) :
    thunk.Driven self store ((Value.fault (.brokenOff message)).through computation.site)
      (after.publish thunk ((Value.fault (.brokenOff message)).through computation.site)) := by
  apply of_suspended suspended
  intro ρ chain stack
  have breaks := (drives (.link (⟨thunk, computation.site⟩ :: chain) stack)).tail
    (moves_breakOff message (⟨thunk, computation.site⟩ :: chain) stack after)
  exact breaks.tail (moves_publish _ ⟨thunk, computation.site⟩ chain stack after)

end

end Driven
end Thunk

mutual

theorem Code.Runs.reaches {α : Type} {code : Code α} {store after : Store}
    {outcome : Except String α} :
    code.Runs self store outcome after → ∀ {ρ : Type} (context : Context ρ α),
      Reaches self (context.thread code, store) (context.thread (.ofOutcome outcome), after)
  | .done _ _, _, _ => .refl
  | .breakOff _ _, _, _ => .refl
  | .act performed rest, _, context => .head (context.moves_act performed) (rest.reaches context)
  | .evaluate evaluates rest, _, context =>
    (evaluates.reaches_of_driven evaluates.driven (.evaluate context _ _)).trans
      (rest.reaches context)
  | .call rest, _, context => .head (context.moves_call _ _ _) (rest.reaches context)

theorem Thunk.Evaluates.driven {thunk : Thunk} :
    thunk.Evaluates self store value after → thunk.Driven self store value after
  | .memoized evaluated => .of_not_suspended (by simp [evaluated])
  | .cycle evaluating => .of_not_suspended (by simp [evaluating])
  | .computed suspended runs continues =>
    .computed suspended runs.reaches continues continues.driven
  | .brokenOff suspended runs => .brokenOff suspended runs.reaches

end

/-! ## From the machine to recursion -/

/-- The value that evaluation gives from the outcome of a computation on. -/
def Thunk.Continues (self : Nat) : Except String Thunk → Store → Value → Store → Prop
  | .ok next, store, value, after => next.Evaluates self store value after
  | .error message, store, value, after => value = .fault (.brokenOff message) ∧ after = store

/-- Publish a value to the links of a chain. -/
def settle : Value → List Link → Store → Value × Store
  | value, [], store => (value, store)
  | value, link :: chain, store =>
    settle (value.through link.site) chain (store.publish link.thunk (value.through link.site))

/-- Run the computation of a link, continue, publish to the chain, and go on. -/
def Code.Drives (self : Nat) (code : Code Thunk) (chain : List Link) (rest : Value → Store → Prop)
    (store : Store) : Prop :=
  ∃ reply between value settled,
    code.Runs self store reply between ∧
    Thunk.Continues self reply between value settled ∧
    rest (settle value chain settled).1 (settle value chain settled).2

/-- What is on the stack completes with an outcome, once it is handed a value. -/
def Stack.Completes (self : Nat) (outcome : Except String ρ)
    (after : Store) : Stack ρ → Value → Store → Prop
  | .base next, value, store => (next value).Runs self store outcome after
  | .nested next chain rest, value, store =>
    (next value).Drives self chain (rest.Completes self outcome after) store

/-- A thread completes with an outcome, by the recursive evaluator. -/
def Thread.Completes (self : Nat) (outcome : Except String ρ)
    (after : Store) : Thread ρ → Store → Prop
  | .running code, store => code.Runs self store outcome after
  | .driving code chain stack, store =>
    code.Drives self chain (stack.Completes self outcome after) store
  | .settling value chain stack, store =>
    stack.Completes self outcome after (settle value chain store).1 (settle value chain store).2

section Completes

variable {outcome : Except String ρ} {after : Store}

theorem Stack.completes_resume (stack : Stack ρ) (value : Value) (store : Store) :
    (stack.resume value).Completes self outcome after store =
      stack.Completes self outcome after value store := by
  cases stack <;> rfl

theorem Context.completes_of_runs (context : Context ρ α) (runs : ∀ reply settled,
      later.Runs self between reply settled → former.Runs self store reply settled)
    (completes : (context.thread later).Completes self outcome after between) :
    (context.thread former).Completes self outcome after store := by
  cases context with
  | top => exact runs outcome after completes
  | link chain stack =>
    obtain ⟨reply, settling, value, settled, laterRuns, rest⟩ := completes
    exact ⟨reply, settling, value, settled, runs reply settling laterRuns, rest⟩

theorem Thunk.Evaluates.of_continues {thunk : Thunk} {computation : Suspension}
    (suspended : store.slot thunk = .suspended computation)
    (runs : computation.resume.Runs self (store.setSlot thunk (.evaluating self)) reply between)
    (continues : Thunk.Continues self reply between value settled) :
    thunk.Evaluates self store (value.through computation.site)
      (settled.publish thunk (value.through computation.site)) := by
  cases reply with
  | ok next => exact .computed suspended runs continues
  | error message =>
    obtain ⟨rfl, rfl⟩ := continues
    exact .brokenOff suspended runs

namespace Thread.Asks

variable {thread : Thread ρ} {thunk : Thunk} {answered : Value → Thread ρ}
  {chain : List Link} {stack : Stack ρ} {store between : Store} {value : Value}

theorem completes (asks : thread.Asks thunk answered chain stack)
    (evaluates : thunk.Evaluates self store value between)
    (answeredCompletes : (answered value).Completes self outcome after between) :
    thread.Completes self outcome after store := by
  cases asks with
  | evaluate context thunk next =>
    apply context.completes_of_runs _ answeredCompletes
    exact fun reply settled rest => .evaluate evaluates rest
  | follow thunk chain stack =>
    exact ⟨.ok thunk, store, value, between, .done thunk store, evaluates, answeredCompletes⟩

theorem completes_answered (asks : thread.Asks thunk answered chain stack)
    (settlingCompletes : (settling value chain stack).Completes self outcome after store) :
    (answered value).Completes self outcome after store := by
  cases asks with
  | evaluate context thunk next =>
    have resumes : ((context.stack next).resume value).Completes self outcome after store := by
      rw [Stack.completes_resume]
      exact settlingCompletes
    rwa [Context.resume_stack] at resumes
  | follow thunk chain stack => exact settlingCompletes

end Thread.Asks

theorem Thread.completes_of_moved {thread next : Thread ρ}
    (moved : thread.step self store = (.moved next, between))
    (completes : next.Completes self outcome after between) :
    thread.Completes self outcome after store := by
  cases Thread.steps_of_step moved with
  | act context performed =>
    exact context.completes_of_runs (fun _ _ rest => .act performed rest) completes
  | answer asks evaluated => exact asks.completes (.memoized evaluated) completes
  | cycle asks marked => exact asks.completes (.cycle marked) completes
  | claim asks suspended =>
    -- To settle the chain of the claim is to publish to the thunk and settle the rest.
    obtain ⟨reply, ended, value, settled, runs, continues, rest⟩ := completes
    have evaluates :=
      Thunk.Evaluates.of_continues (slot_eq_of_slot? suspended) runs continues
    exact asks.completes evaluates (asks.completes_answered rest)
  | call context => exact context.completes_of_runs (fun _ _ rest => .call rest) completes
  | breakOff => exact ⟨.error _, _, _, _, .breakOff _ _, ⟨rfl, rfl⟩, completes⟩
  | settled => rwa [Stack.completes_resume] at completes
  | publish => exact completes

theorem Thread.completes_of_reaches {before later : Thread ρ × Store}
    (reaches : Reaches self before later)
    (completes : later.1.Completes self outcome after later.2) :
    before.1.Completes self outcome after before.2 := by
  induction reaches using Relation.ReflTransGen.head_induction_on with
  | refl => exact completes
  | head moved _ ih => exact completes_of_moved moved ih

theorem Thread.eq_of_finished {thread : Thread ρ}
    (finished : thread.step self store = (.finished outcome, after)) :
    thread = .running (.ofOutcome outcome) ∧ after = store := by
  cases Thread.steps_of_step finished with
  | finish | fail => exact ⟨rfl, rfl⟩

end Completes

/-- The machine runs code to an end exactly as the recursive evaluator does. -/
theorem Code.ends_iff_runs {code : Code ρ} {store after : Store} {outcome : Except String ρ} :
    code.Ends self store outcome after ↔ code.Runs self store outcome after := by
  constructor
  · rintro ⟨thread, reaches, finished⟩
    obtain ⟨rfl, -⟩ := Thread.eq_of_finished finished
    apply Thread.completes_of_reaches reaches
    cases outcome with
    | ok result => exact .done result after
    | error message => exact .breakOff message after
  · intro runs
    refine ⟨_, runs.reaches .top, ?_⟩
    cases outcome <;> rfl

theorem Code.ends_evaluated_iff {thunk : Thunk} :
    (Code.evaluated thunk).Ends self store outcome after ↔
      ∃ value, outcome = .ok value ∧ thunk.Evaluates self store value after := by
  rw [Code.ends_iff_runs]
  constructor
  · rintro (_ | _ | _ | ⟨evaluates, rest⟩ | _)
    cases rest
    exact ⟨_, rfl, evaluates⟩
  · rintro ⟨value, rfl, evaluates⟩
    exact .evaluate evaluates (.done value after)

theorem Thunk.Evaluates.unique {thunk : Thunk} (evaluates : thunk.Evaluates self store value after)
    (evaluatesToo : thunk.Evaluates self store other left) : value = other ∧ after = left := by
  have ends := Code.ends_evaluated_iff.mpr ⟨value, rfl, evaluates⟩
  have endsToo := Code.ends_evaluated_iff.mpr ⟨other, rfl, evaluatesToo⟩
  obtain ⟨values, stores⟩ := ends.unique endsToo
  exact ⟨Except.ok.inj values, stores⟩

end ByNeed
