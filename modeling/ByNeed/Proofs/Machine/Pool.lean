import ByNeed.Proofs.Machine.Claims

/-!
# Pools of threads

A pool is a store shared by threads.  In every turn one thread takes its next step or begins, or
something changes what is not a slot.  A schedule is a list of turns, so what holds after every
schedule holds for every interleaving.  Its events are the accesses that its threads make to slots.
-/

namespace ByNeed

/-- A thread, whatever its result. -/
structure Worker where
  {Result : Type}
  thread : Thread Result

/-- Threads that share a store. -/
structure Pool where
  store : Store
  threads : Nat → Option Worker

/-- One turn of a schedule. -/
inductive Turn where
  /-- The thread under a number takes its next step. -/
  | step (number : Nat)
  /-- A thread begins under a number that is free. -/
  | start (number : Nat) {Result : Type} (code : Code Result)
  /-- Something other than the slots of the store changes. -/
  | change (update : Store → Store) (keeps : ∀ store, (update store).slots = store.slots)

/-- An access to a slot, made by the thread under a number. -/
inductive Event where
  /-- The thread asked for a thunk and got a reply. -/
  | claimed (number : Nat) (thunk : Thunk) (reply : Store.Claim)
  /-- The thread published the value of a thunk. -/
  | published (number : Nat) (thunk : Thunk) (value : Value)

namespace Event

/-- Whether the computation of a thunk is handed out. -/
def handsOut (thunk : Thunk) : Event → Bool
  | .claimed _ asked (.owned _) => asked == thunk
  | _ => false

theorem handsOut_iff {event : Event} :
    event.handsOut thunk = true ↔
      ∃ number computation, event = .claimed number thunk (.owned computation) := by
  unfold handsOut
  split <;> simp_all

/-- An event takes the slot of a thunk from one state to the next. -/
inductive Takes (thunk : Thunk) : Event → Slot → Slot → Prop
  | claim (number : Nat) (computation : Suspension) :
      Takes thunk (.claimed number thunk (.owned computation))
        (.suspended computation) (.evaluating number)
  | publish (number : Nat) (value : Value) :
      Takes thunk (.published number thunk value) (.evaluating number) (.evaluated value)

end Event

namespace Pool

/-- Set the thread under a number. -/
def setThread (pool : Pool) (number : Nat) (worker : Option Worker) : Pool :=
  { pool with threads := fun other => if other = number then worker else pool.threads other }

@[simp] theorem threads_setThread_self (pool : Pool) (number : Nat) (worker : Option Worker) :
    (pool.setThread number worker).threads number = worker := by
  simp [setThread]

theorem threads_setThread_of_ne (pool : Pool) (ne : other ≠ number)
    (worker : Option Worker) :
    (pool.setThread number worker).threads other = pool.threads other := by
  simp [setThread, ne]

/-- Take the outcome of a step of the thread under a number. -/
def afterStep {ρ : Type} (pool : Pool) (number : Nat) : Step ρ × Store → Pool
  | (.moved thread, store) => { pool with store }.setThread number (some ⟨thread⟩)
  | (.waiting, store) => { pool with store }
  | (.finished _, store) => { pool with store }.setThread number none

/-- Take a turn. -/
def turn (pool : Pool) : Turn → Pool
  | .step number =>
    match pool.threads number with
    | none => pool
    | some worker => pool.afterStep number (worker.thread.step number pool.store)
  | .start number code =>
    match pool.threads number with
    | none => pool.setThread number (some ⟨.running code⟩)
    | some _ => pool
  | .change update _ => { pool with store := update pool.store }

/-- The event of an access. -/
def eventOf (pool : Pool) (number : Nat) : Access → Event
  | .claim thunk => .claimed number thunk (pool.store.claim number thunk).1
  | .publish thunk value => .published number thunk value

/-- The event of a turn, if a slot is accessed. -/
def event? (pool : Pool) : Turn → Option Event
  | .step number =>
    match pool.threads number with
    | none => none
    | some worker => worker.thread.access?.map (pool.eventOf number)
  | _ => none

/-- Take the turns of a schedule. -/
def run (pool : Pool) (turns : List Turn) : Pool :=
  turns.foldl turn pool

@[simp] theorem run_nil (pool : Pool) : pool.run [] = pool := rfl

@[simp] theorem run_cons (pool : Pool) (first : Turn) (turns : List Turn) :
    pool.run (first :: turns) = (pool.turn first).run turns := rfl

theorem run_append (pool : Pool) (earlier later : List Turn) :
    pool.run (earlier ++ later) = (pool.run earlier).run later := by
  simp [run]

/-- The events of a schedule, in order. -/
def events (pool : Pool) : List Turn → List Event
  | [] => []
  | first :: turns => (pool.event? first).toList ++ (pool.turn first).events turns

/-- Nothing is being evaluated yet: no thunk is claimed, and every thread is at its
own code. -/
structure Idle (pool : Pool) : Prop where
  unclaimed : ∀ thunk slot, pool.store.slot? thunk = some slot → ¬slot.IsEvaluating
  running : ∀ number worker, pool.threads number = some worker →
    ∃ code, worker.thread = .running code

/-- Every thread owns what it has claimed, and nothing is claimed under a number that
is free. -/
structure Owned (pool : Pool) : Prop where
  owns : ∀ number worker, pool.threads number = some worker → worker.thread.Owns number pool.store
  free : ∀ number, pool.threads number = none →
    ∀ thunk, pool.store.slot? thunk ≠ some (.evaluating number)

end Pool
end ByNeed
