import ByNeed.Arguments
import ByNeed.Error

/-!
# Daemons and their schedulers

A daemon is a background task with a duty.  A scheduler queues the daemons
submitted to it until it is started; from then on daemons are launched as they are
submitted.  It counts the daemons launched, and those whose duty was done or broke
off.
-/

namespace ByNeed

/-- What a daemon does. -/
inductive Duty where
  /-- Publish elements, then fail if there is an error to fail with. -/
  | feed (elements : List Thunk) (failure : Option Error) (channel : Nat)
  /-- Walk the spine of a rally and start a worker for each of its sources. -/
  | walk (spine : Thunk) (channel : Nat)
  /-- Evaluate one source of a rally and publish it. -/
  | source (source : Thunk) (channel backlog : Nat)
  /-- Count as run, and break off if asked to. -/
  | tally (breaksOff : Bool)
  deriving DecidableEq, Repr

/-- The channel a duty publishes on. -/
def Duty.channel? : Duty → Option Nat
  | .feed _ _ channel => some channel
  | .walk _ channel => some channel
  | .source _ channel _ => some channel
  | .tally _ => none

structure Daemon where
  number : Nat
  duty : Duty
  deriving DecidableEq, Repr

structure Scheduler where
  /-- Capacity of the channels behind feeds and rallies. -/
  capacity : Nat
  /-- Stack size of a daemon's thread. -/
  stackSize : Nat
  /-- The daemons waiting for the start, or none once started. -/
  queue : Option (List Daemon) := some []
  /-- Daemons whose thread was begun. -/
  started : Nat := 0
  /-- Daemons whose duty was done. -/
  finished : Nat := 0
  /-- Daemons whose duty broke off. -/
  brokenOff : Nat := 0
  /-- Daemons that counted themselves as run. -/
  runs : Nat := 0
  deriving Repr

namespace Scheduler

def isStarted (scheduler : Scheduler) : Bool :=
  scheduler.queue.isNone

/-- Submit a daemon: it joins the queue, or has to be launched at once. -/
def submit (scheduler : Scheduler) (daemon : Daemon) : Option Daemon × Scheduler :=
  match scheduler.queue with
  | some queue => (none, { scheduler with queue := some (queue ++ [daemon]) })
  | none => (some daemon, scheduler)

theorem submit_of_isStarted (scheduler : Scheduler) (daemon : Daemon)
    (started : scheduler.isStarted = true) :
    scheduler.submit daemon = (some daemon, scheduler) := by
  have empty : scheduler.queue = none := by simpa [isStarted] using started
  simp [submit, empty]

/-- Take the queue away, which starts the scheduler; there is none the second time. -/
def takeQueue (scheduler : Scheduler) : Option (List Daemon) × Scheduler :=
  (scheduler.queue, { scheduler with queue := none })

/-- What is said when a scheduler is started for the second time. -/
def alreadyStarted : String :=
  "daemon scheduler is already started"

def countStarted (scheduler : Scheduler) : Scheduler :=
  { scheduler with started := scheduler.started + 1 }

def countEnded (brokeOff : Bool) (scheduler : Scheduler) : Scheduler :=
  if brokeOff then { scheduler with brokenOff := scheduler.brokenOff + 1 }
  else { scheduler with finished := scheduler.finished + 1 }

def countRun (scheduler : Scheduler) : Scheduler :=
  { scheduler with runs := scheduler.runs + 1 }

/-- Whether every daemon launched has ended. -/
def isQuiet (scheduler : Scheduler) : Bool :=
  scheduler.started == scheduler.finished + scheduler.brokenOff

def outline (scheduler : Scheduler) : String :=
  "DaemonScheduler \x7b config: DaemonConfig \x7b stack_size: " ++
    toString scheduler.stackSize ++ ", handoff_capacity: " ++ toString scheduler.capacity ++
    " \x7d, started: " ++ (if scheduler.isStarted then "true" else "false") ++ ", .. \x7d"

end Scheduler
end ByNeed
