import ByNeed.Machine.Thread

/-!
# Code in its context

A thread runs its own code, or the computation of the most recent link of a chain, and most steps do
the same in both.  So it is enough to look at eight kinds of threads, `Thread.stepCases`.
-/

namespace ByNeed

variable {ρ α : Type}

/-- The place in which a thread with results in `ρ` runs code with results in `α`. -/
inductive Context (ρ : Type) : Type → Type 1
  /-- The code of the thread itself. -/
  | top : Context ρ ρ
  /-- The computation of the most recent link of a chain. -/
  | link (chain : List Link) (stack : Stack ρ) : Context ρ Thunk

namespace Context

/-- The thread that runs code in a context. -/
def thread : Context ρ α → Code α → Thread ρ
  | .top, code => .running code
  | .link chain stack, code => .driving code chain stack

/-- The stack that waits for a value on behalf of code in a context. -/
def stack : Context ρ α → (Value → Code α) → Stack ρ
  | .top, next => .base next
  | .link chain stack, next => .nested next chain stack

@[simp] theorem resume_stack (context : Context ρ α) (next : Value → Code α) (value : Value) :
    (context.stack next).resume value = context.thread (next value) := by
  cases context <;> rfl

@[simp] theorem step_call (context : Context ρ α) (routine : Routine)
    (next : routine.Reply → Code α) (self : Nat) (store : Store) :
    (context.thread (.call routine next)).step self store =
      (.moved (context.thread (routine.body.bind next)), store) := by
  cases context <;> rfl

theorem step_act (context : Context ρ α) (action : Action) (next : action.Reply → Code α)
    (self : Nat) (store : Store) :
    (context.thread (.act action next)).step self store = match action.perform store with
      | (some reply, store) => (.moved (context.thread (next reply)), store)
      | (none, store) => (.waiting, store) := by
  cases context <;> rfl

end Context

/-- A thread asks for a thunk in its next step.  If the thunk answers, the thread goes on
with the value; otherwise the thunk is claimed on top of a chain. -/
inductive Thread.Asks :
    Thread ρ → Thunk → (Value → Thread ρ) → List Link → Stack ρ → Prop
  /-- Code needs the value. -/
  | evaluate {α : Type} (context : Context ρ α) (thunk : Thunk) (next : Value → Code α) :
      Asks (context.thread (.evaluate thunk next)) thunk
        (fun value => context.thread (next value)) [] (context.stack next)
  /-- A computation continues into the thunk. -/
  | follow (thunk : Thunk) (chain : List Link) (stack : Stack ρ) :
      Asks (.driving (.done thunk) chain stack) thunk
        (fun value => .settling value chain stack) chain stack

theorem Thread.Asks.step_eq {thread : Thread ρ} (asks : thread.Asks thunk answered chain stack)
    (self : Nat) (store : Store) :
    thread.step self store = match store.claim self thunk with
      | (.ready value, store) => (.moved (answered value), store)
      | (.cycle, store) => (.moved (answered (.fault .selfDependence)), store)
      | (.busy, store) => (.waiting, store)
      | (.owned computation, store) =>
        (.moved (.driving computation.resume (⟨thunk, computation.site⟩ :: chain) stack),
          store) := by
  cases asks with
  | evaluate context thunk next => cases context <;> rfl
  | follow thunk chain stack => rfl

/-- The kinds of threads that step differently. -/
@[elab_as_elim]
theorem Thread.stepCases {motive : Thread ρ → Prop}
    (act : ∀ {α : Type} (context : Context ρ α) (action : Action)
      (next : action.Reply → Code α), motive (context.thread (.act action next)))
    (ask : ∀ {thread thunk answered chain stack},
      Thread.Asks thread thunk answered chain stack → motive thread)
    (call : ∀ {α : Type} (context : Context ρ α) (routine : Routine)
      (next : routine.Reply → Code α), motive (context.thread (.call routine next)))
    (finish : ∀ result, motive (.running (.done result)))
    (fail : ∀ message, motive (.running (.breakOff message)))
    (breakOff : ∀ message chain stack, motive (.driving (.breakOff message) chain stack))
    (settled : ∀ value stack, motive (.settling value [] stack))
    (publish : ∀ value link chain stack, motive (.settling value (link :: chain) stack))
    (thread : Thread ρ) : motive thread := by
  cases thread with
  | running code =>
    cases code with
    | done result => exact finish result
    | breakOff message => exact fail message
    | act action next => exact act .top action next
    | evaluate thunk next => exact ask (.evaluate .top thunk next)
    | call routine next => exact call .top routine next
  | driving code chain stack =>
    cases code with
    | done thunk => exact ask (.follow thunk chain stack)
    | breakOff message => exact breakOff message chain stack
    | act action next => exact act (.link chain stack) action next
    | evaluate thunk next => exact ask (.evaluate (.link chain stack) thunk next)
    | call routine next => exact call (.link chain stack) routine next
  | settling value chain stack =>
    cases chain with
    | nil => exact settled value stack
    | cons link chain => exact publish value link chain stack

end ByNeed
