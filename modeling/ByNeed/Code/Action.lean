import ByNeed.Store.Basic

/-!
# Atomic actions

An action reads or changes the store in one indivisible step and replies.  Some
actions have to wait until the store allows them.  What threads do between two
actions is invisible to each other.
-/

namespace ByNeed

/-- One indivisible step on the store. -/
inductive Action where
  /-- Make a thunk that holds a value. -/
  | hold (value : Value)
  /-- Make a thunk of a suspended computation. -/
  | suspend (computation : Suspension)
  /-- Look at the state of a thunk without evaluating it. -/
  | look (thunk : Thunk)
  | identity
  | note (text : String)
  | digest (pieces : List Piece)
  /-- Find the function a free name refers to. -/
  | global (name : String)
  | newGroup (size : Nat)
  | define (group index : Nat) (definition : Thunk)
  | cell (group index : Nat)
  /-- Make a channel with one publisher. -/
  | newChannel (capacity : Nat)
  /-- Send a message; waits while the channel is full. -/
  | send (channel : Nat) (message : Message)
  /-- Read the next message; waits while there is none and one may come. -/
  | receive (channel : Nat)
  /-- Read a channel no further. -/
  | abandon (channel : Nat)
  | retain (channel : Nat)
  | release (channel : Nat)
  /-- Ask whether a message was refused. -/
  | isClosed (channel : Nat)
  | newBacklog
  /-- Start to wait for publishing. -/
  | enter (backlog : Nat)
  /-- Stop to wait for publishing. -/
  | leave (backlog : Nat)
  /-- Wait until a backlog is below a limit. -/
  | awaitBelow (backlog limit : Nat)
  | capacity (scheduler : Nat)
  | isStarted (scheduler : Nat)
  /-- Submit a duty: it is queued, or the daemon has to be launched. -/
  | submit (scheduler : Nat) (duty : Duty)
  /-- Take the queue of a scheduler, which starts it. -/
  | takeQueue (scheduler : Nat)
  /-- Begin the thread of a daemon. -/
  | launch (scheduler : Nat) (daemon : Daemon)
  | countStarted (scheduler : Nat)
  /-- Count a daemon as ended, by doing its duty or by breaking off. -/
  | countEnded (scheduler : Nat) (brokeOff : Bool)
  | countRun (scheduler : Nat)
  /-- Wait until every daemon launched has ended. -/
  | awaitQuiet (scheduler : Nat)

namespace Action

/-- What an action replies. -/
abbrev Reply : Action → Type
  | .hold _ => Thunk
  | .suspend _ => Thunk
  | .look _ => Slot
  | .identity => Nat
  | .note _ => Unit
  | .digest _ => UInt64
  | .global _ => Option Function
  | .newGroup _ => Nat
  | .define .. => Option Fault
  | .cell .. => Option Thunk
  | .newChannel _ => Nat
  | .send .. => Bool
  | .receive _ => Channel.Reading
  | .abandon _ => Unit
  | .retain _ => Unit
  | .release _ => Unit
  | .isClosed _ => Bool
  | .newBacklog => Nat
  | .enter _ => Unit
  | .leave _ => Unit
  | .awaitBelow .. => Unit
  | .capacity _ => Nat
  | .isStarted _ => Bool
  | .submit .. => Option Daemon
  | .takeQueue _ => Option (List Daemon)
  | .launch .. => Unit
  | .countStarted _ => Unit
  | .countEnded .. => Unit
  | .countRun _ => Unit
  | .awaitQuiet _ => Unit

/-- Perform an action.  There is no reply, and nothing changes, while the action has
to wait. -/
def perform : (action : Action) → Store → Option action.Reply × Store
  | .hold value, store => replying (store.allocate (.evaluated value))
  | .suspend computation, store => replying (store.allocate (.suspended computation))
  | .look thunk, store => (some (store.slot thunk), store)
  | .identity, store => replying store.takeIdentity
  | .note text, store => (some (), store.note text)
  | .digest pieces, store => (some (store.digest pieces), store)
  | .global name, store => (some (store.global? name), store)
  | .newGroup size, store => replying (store.newGroup size)
  | .define group index definition, store => replying (store.define group index definition)
  | .cell group index, store => (some (store.cell? group index), store)
  | .newChannel bound, store => replying (store.newChannel bound)
  | .send channel message, store =>
    if (store.channel channel).mustWait then (none, store)
    else
      let (sent, state) := (store.channel channel).send message
      (some sent, store.setChannel channel state)
  | .receive channel, store =>
    match (store.channel channel).receive? with
    | none => (none, store)
    | some (reading, state) => (some reading, store.setChannel channel state)
  | .abandon channel, store => (some (), store.modifyChannel channel Channel.abandon)
  | .retain channel, store => (some (), store.modifyChannel channel Channel.retain)
  | .release channel, store => (some (), store.modifyChannel channel Channel.release)
  | .isClosed channel, store => (some (store.channel channel).closed, store)
  | .newBacklog, store => replying store.newBacklog
  | .enter backlog, store => (some (), store.modifyBacklog backlog (· + 1))
  | .leave backlog, store => (some (), store.modifyBacklog backlog (· - 1))
  | .awaitBelow backlog limit, store =>
    (if store.backlog backlog < limit then some () else none, store)
  | .capacity scheduler, store => (some (store.scheduler scheduler).capacity, store)
  | .isStarted scheduler, store => (some (store.scheduler scheduler).isStarted, store)
  | .submit scheduler duty, store => replying (store.submit scheduler duty)
  | .takeQueue scheduler, store =>
    let (queue, state) := (store.scheduler scheduler).takeQueue
    (some queue, store.setScheduler scheduler state)
  | .launch scheduler daemon, store =>
    (some (), { store with launched := store.launched ++ [(scheduler, daemon)] })
  | .countStarted scheduler, store =>
    (some (), store.modifyScheduler scheduler Scheduler.countStarted)
  | .countEnded scheduler brokeOff, store =>
    (some (), store.modifyScheduler scheduler (Scheduler.countEnded brokeOff))
  | .countRun scheduler, store =>
    (some (), store.modifyScheduler scheduler Scheduler.countRun)
  | .awaitQuiet scheduler, store =>
    (if (store.scheduler scheduler).isQuiet then some () else none, store)
where
  /-- Reply with the result of an operation that never waits. -/
  replying {ρ : Type} (result : ρ × Store) : Option ρ × Store :=
    (some result.1, result.2)

end Action
end ByNeed
