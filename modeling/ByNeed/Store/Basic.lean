import ByNeed.Daemon.Channel
import ByNeed.Daemon.Scheduler
import ByNeed.Digest
import ByNeed.Store.Slot

/-!
# The store

The store holds everything that threads share.  Identities are handed out in increasing order, so
that things made earlier compare less.  The digest by which keys are placed in dictionaries is part
of the store; any function of the pieces it is given will do.
-/

namespace ByNeed

/-- The state shared by all threads. -/
structure Store where
  slots : Array Slot := #[]
  /-- The identity handed out next. -/
  nextIdentity : Nat := 1
  /-- Notes left by computations, oldest first. -/
  log : Array String := #[]
  /-- Recursive groups, each a fixed number of cells that are defined once. -/
  groups : Array (Array (Option Thunk)) := #[]
  /-- The functions that free names refer to. -/
  prelude : List (String × Function) := []
  channels : Array Channel := #[]
  /-- For each rally, how many workers wait to publish. -/
  backlogs : Array Nat := #[]
  schedulers : Array Scheduler := #[]
  /-- Daemons whose thread is yet to begin, each with its scheduler. -/
  launched : List (Nat × Daemon) := []
  /-- The number of the next daemon. -/
  nextDaemon : Nat := 1
  /-- The digest of a sequence of pieces. -/
  digest : List Piece → UInt64

namespace Store

def slot (store : Store) (thunk : Thunk) : Slot :=
  store.slots.getD thunk.slot (.evaluated .nil)

def setSlot (store : Store) (thunk : Thunk) (slot : Slot) : Store :=
  { store with slots := store.slots.setIfInBounds thunk.slot slot }

def allocate (store : Store) (slot : Slot) : Thunk × Store :=
  let thunk : Thunk := { slot := store.slots.size }
  (thunk, { store with slots := store.slots.push slot })

@[simp] theorem slot_allocate_self (store : Store) (slot : Slot) :
    (store.allocate slot).2.slot (store.allocate slot).1 = slot := by
  simp [Store.slot, allocate]

/-- What a thread finds when it asks for a thunk. -/
inductive Claim where
  /-- The value is known. -/
  | ready (value : Value)
  /-- The computation is now the thread's to run. -/
  | owned (computation : Suspension)
  /-- The thread is evaluating this very thunk. -/
  | cycle
  /-- Another thread is evaluating the thunk. -/
  | busy

/-- Ask for a thunk on behalf of a thread. -/
def claim (store : Store) (thread : Nat) (thunk : Thunk) : Claim × Store :=
  match store.slot thunk with
  | .evaluated value => (.ready value, store)
  | .evaluating owner => (if owner = thread then .cycle else .busy, store)
  | .suspended computation =>
    (.owned computation, store.setSlot thunk (.evaluating thread))

/-- Publish the value of a claimed thunk. -/
def publish (store : Store) (thunk : Thunk) (value : Value) : Store :=
  store.setSlot thunk (.evaluated value)

def takeIdentity (store : Store) : Nat × Store :=
  (store.nextIdentity, { store with nextIdentity := store.nextIdentity + 1 })

def note (store : Store) (text : String) : Store :=
  { store with log := store.log.push text }

/-- Make a recursive group of undefined cells. -/
def newGroup (store : Store) (size : Nat) : Nat × Store :=
  (store.groups.size, { store with groups := store.groups.push (Array.replicate size none) })

def group (store : Store) (group : Nat) : Array (Option Thunk) :=
  store.groups.getD group #[]

/-- Define a cell of a recursive group, once. -/
def define (store : Store) (group index : Nat) (definition : Thunk) : Option Fault × Store :=
  let cells := store.group group
  match cells[index]? with
  | none => (some (.cellOutOfRange index cells.size), store)
  | some (some _) => (some (.cellAlreadyDefined index), store)
  | some none =>
    let cells := cells.setIfInBounds index (some definition)
    (none, { store with groups := store.groups.setIfInBounds group cells })

/-- The definition of a cell, if it has one. -/
def cell? (store : Store) (group index : Nat) : Option Thunk :=
  (store.group group)[index]?.join

/-- The function a free name refers to. -/
def global? (store : Store) (name : String) : Option Function :=
  store.prelude.lookup name

/-- Let the name of a function refer to it. -/
def defineGlobal (store : Store) (function : Function) : Store :=
  let others := store.prelude.filter fun entry => entry.1 != function.name
  { store with prelude := (function.name, function) :: others }

def channel (store : Store) (channel : Nat) : Channel :=
  store.channels.getD channel { capacity := 0 }

def setChannel (store : Store) (channel : Nat) (state : Channel) : Store :=
  { store with channels := store.channels.setIfInBounds channel state }

def modifyChannel (store : Store) (channel : Nat) (change : Channel → Channel) : Store :=
  store.setChannel channel (change (store.channel channel))

def newChannel (store : Store) (capacity : Nat) : Nat × Store :=
  (store.channels.size, { store with channels := store.channels.push { capacity } })

def scheduler (store : Store) (scheduler : Nat) : Scheduler :=
  store.schedulers.getD scheduler { capacity := 0, stackSize := 0 }

def setScheduler (store : Store) (scheduler : Nat) (state : Scheduler) : Store :=
  { store with schedulers := store.schedulers.setIfInBounds scheduler state }

theorem setScheduler_scheduler (store : Store) (scheduler : Nat) :
    store.setScheduler scheduler (store.scheduler scheduler) = store := by
  have same : store.schedulers.setIfInBounds scheduler (store.scheduler scheduler) =
      store.schedulers := by
    refine Array.ext (by simp) fun index _ known => ?_
    rw [Array.getElem_setIfInBounds known]
    split
    · next place => simp [Store.scheduler, place, known]
    · rfl
  rw [setScheduler, same]

def modifyScheduler (store : Store) (scheduler : Nat) (change : Scheduler → Scheduler) : Store :=
  store.setScheduler scheduler (change (store.scheduler scheduler))

/-- Submit a duty to a scheduler, under the next number.  A daemon that is not queued
has to be launched. -/
def submit (store : Store) (scheduler : Nat) (duty : Duty) : Option Daemon × Store :=
  let daemon : Daemon := { number := store.nextDaemon, duty }
  let (urgent, state) := (store.scheduler scheduler).submit daemon
  let store := store.setScheduler scheduler state
  (urgent, { store with nextDaemon := store.nextDaemon + 1 })

/-- Make a scheduler that has not started. -/
def newScheduler (store : Store) (capacity stackSize : Nat) : Nat × Store :=
  (store.schedulers.size,
    { store with schedulers := store.schedulers.push { capacity, stackSize } })

/-- Drop a scheduler that nobody can start any more.  The daemons it has queued go,
and their publishers with them. -/
def dropScheduler (store : Store) (scheduler : Nat) : Store :=
  let state := store.scheduler scheduler
  match state.queue with
  | none => store
  | some queue =>
    let channels := queue.filterMap fun daemon => daemon.duty.channel?
    channels.foldl (fun store channel => store.modifyChannel channel Channel.release)
      (store.setScheduler scheduler { state with queue := some [] })

/-- How many workers of a rally wait to publish. -/
def backlog (store : Store) (backlog : Nat) : Nat :=
  store.backlogs.getD backlog 0

def newBacklog (store : Store) : Nat × Store :=
  (store.backlogs.size, { store with backlogs := store.backlogs.push 0 })

/-- Change how many workers of a rally wait to publish. -/
def modifyBacklog (store : Store) (backlog : Nat) (change : Nat → Nat) : Store :=
  let count := change (store.backlog backlog)
  { store with backlogs := store.backlogs.setIfInBounds backlog count }

end Store
end ByNeed
