import ByNeed.Call
import ByNeed.Complete

/-!
# Routines and threads

Only here do routines get to know each other; where one is needed elsewhere, it is called by name.

A thread evaluates the thunks its code asks for on a stack of its own.  Evaluating a thunk claims it
and runs its computation.  When that gives another thunk, the thread claims this one too, so a
sequence of tail calls is a chain of claimed thunks and not a growing stack.  At the end of the
chain its value is published to every thunk claimed, the most recent first, and an error records the
call sites it passes.

One step is one indivisible access to the store at most, so every interleaving of threads is a
sequence of steps.
-/

namespace ByNeed

namespace Routine

/-- The code behind each routine. -/
def body : (routine : Routine) → Code routine.Reply
  | .compare left right => (left.compare right).run
  | .compareLists left right => (left.compare right).run
  | .hash value => value.hash.run
  | .hashElements list => list.hashes.run
  | .render value => value.render.run
  | .renderElements list => list.renderElements.run
  | .elements list => list.elementsStep.run
  | .contains list value => (list.containsStep value).run
  | .nth list skipped => (list.nthStep skipped).run
  | .cut list position => (list.cutStep position).run
  | .fold operation total numbers => (operation.foldStep total numbers).run
  | .allEqual value list => (allEqualStep value list).run
  | .monotone order previous list => (order.holdsFromStep previous list).run
  | .assign dictionary list => (dictionary.assignStep list).run
  | .mergeAll dictionary list => (dictionary.mergeAllStep list).run
  | .choose branches => (chooseStep branches).run
  | .view value limit => value.view limit
  | .viewList list limit room => ByNeed.viewList list limit room
  | .walk scheduler spine channel backlog bound =>
    walkStep scheduler spine channel backlog bound

end Routine

/-- A thunk claimed by a thread, with the site of the call it stands for. -/
structure Link where
  thunk : Thunk
  site : Option Site
  deriving DecidableEq, Repr

/-- What a thread does once the evaluation at hand is over. -/
inductive Stack (ρ : Type) where
  /-- Go on with the code of the thread. -/
  | base (next : Value → Code ρ)
  /-- Go on with a computation that asked for the value, itself part of a chain. -/
  | nested (next : Value → Code Thunk) (chain : List Link) (rest : Stack ρ)

/-- The state of a thread whose code has a result.  Chains are listed with the most
recent claim first. -/
inductive Thread (ρ : Type) where
  | running (code : Code ρ)
  /-- Runs the computation of the most recent link of a chain. -/
  | driving (code : Code Thunk) (chain : List Link) (stack : Stack ρ)
  /-- Publishes the value of a chain. -/
  | settling (value : Value) (chain : List Link) (stack : Stack ρ)

/-- What a thread that tried one step did. -/
inductive Step (ρ : Type) where
  | moved (thread : Thread ρ)
  /-- The store does not allow the step yet. -/
  | waiting
  | finished (outcome : Except String ρ)

variable {ρ : Type}

/-- Hand the value of an evaluation to what asked for it. -/
def Stack.resume (stack : Stack ρ) (value : Value) : Thread ρ :=
  match stack with
  | .base next => .running (next value)
  | .nested next chain rest => .driving (next value) chain rest

/-- Ask for a thunk that code needs. -/
def Stack.evaluate (stack : Stack ρ) (self : Nat) (thunk : Thunk)
    (store : Store) : Step ρ × Store :=
  match store.claim self thunk with
  | (.ready value, store) => (.moved (stack.resume value), store)
  | (.cycle, store) => (.moved (stack.resume (.fault .selfDependence)), store)
  | (.busy, store) => (.waiting, store)
  | (.owned computation, store) =>
    (.moved (.driving computation.resume [⟨thunk, computation.site⟩] stack), store)

/-- Go on from the thunk a computation returned. -/
def Thread.follow (self : Nat) (thunk : Thunk) (chain : List Link) (stack : Stack ρ)
    (store : Store) : Step ρ × Store :=
  match store.claim self thunk with
  | (.ready value, store) => (.moved (.settling value chain stack), store)
  | (.cycle, store) => (.moved (.settling (.fault .selfDependence) chain stack), store)
  | (.busy, store) => (.waiting, store)
  | (.owned computation, store) =>
    (.moved (.driving computation.resume (⟨thunk, computation.site⟩ :: chain) stack), store)

namespace Thread

/-- The channel a thread is about to send on, by its own code. -/
def sendingTo? : Thread ρ → Option Nat
  | .running (.act (.send channel _) _) => some channel
  | _ => none

/-- One step of a thread with a number of its own. -/
def step (self : Nat) : Thread ρ → Store → Step ρ × Store
  | .running (.done result), store => (.finished (.ok result), store)
  | .running (.breakOff message), store => (.finished (.error message), store)
  | .running (.call routine next), store => (.moved (.running (routine.body.bind next)), store)
  | .running (.act action next), store =>
    match action.perform store with
    | (some reply, store) => (.moved (.running (next reply)), store)
    | (none, store) => (.waiting, store)
  | .running (.evaluate thunk next), store => (Stack.base next).evaluate self thunk store
  | .driving (.done thunk) chain stack, store => follow self thunk chain stack store
  | .driving (.breakOff message) chain stack, store =>
    (.moved (.settling (.fault (.brokenOff message)) chain stack), store)
  | .driving (.call routine next) chain stack, store =>
    (.moved (.driving (routine.body.bind next) chain stack), store)
  | .driving (.act action next) chain stack, store =>
    match action.perform store with
    | (some reply, store) => (.moved (.driving (next reply) chain stack), store)
    | (none, store) => (.waiting, store)
  | .driving (.evaluate thunk next) chain stack, store =>
    (Stack.nested next chain stack).evaluate self thunk store
  | .settling value [] stack, store => (.moved (stack.resume value), store)
  | .settling value (link :: chain) stack, store =>
    let value := value.through link.site
    (.moved (.settling value chain stack), store.publish link.thunk value)

end Thread
end ByNeed
