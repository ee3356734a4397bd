import ByNeed.Code.Basic

/-!
# Submitting daemons, and feeds

A daemon submitted to a scheduler that runs is launched at once and then counted as
started.  Starting a scheduler launches the daemons it has queued, in the order in
which they were submitted.  A feed is a daemon that publishes elements on a channel,
and the lazy list that reads them.
-/

namespace ByNeed

def launch (scheduler : Nat) (daemon : Daemon) : Code Unit := do
  .perform (.launch scheduler daemon)
  .perform (.countStarted scheduler)

def launchAll (scheduler : Nat) : List Daemon → Code Unit
  | [] => return ()
  | daemon :: rest => do
      launch scheduler daemon
      launchAll scheduler rest

/-- Submit a duty to a scheduler. -/
def spawn (scheduler : Nat) (duty : Duty) : Code Unit := do
  match ← .perform (.submit scheduler duty) with
  | some daemon => launch scheduler daemon
  | none => return ()

/-- Start a scheduler and tell how many daemons it had queued.  It can be started
once. -/
def startScheduler (scheduler : Nat) : Code (Option Nat) := do
  match ← .perform (.takeQueue scheduler) with
  | some queue =>
    launchAll scheduler queue
    return some queue.length
  | none => return none

/-- The cell for what was read.  A failure, or the end, is the last thing read. -/
def cellFor (channel : Nat) : Channel.Reading → Code Thunk
  | .item element => do
      let rest ← suspend (.receive channel)
      newValue (.list (.cons element rest))
  | .failure error => do
      .perform (.abandon channel)
      newValue (.error error)
  | .ended => do
      .perform (.abandon channel)
      newValue (.list .empty)

/-- One cell of the list behind a channel. -/
def receiveStep (channel : Nat) : Code Thunk := do
  cellFor channel (← .perform (.receive channel))

def publishAll (channel : Nat) : List Thunk → Code Unit
  | [] => return ()
  | element :: rest => do
      let _ ← Code.perform (.send channel (.item element))
      publishAll channel rest

/-- Publish elements in order, then fail if there is an error to fail with. -/
def feedDuty (elements : List Thunk) (failure : Option Error) (channel : Nat) : Code Unit := do
  publishAll channel elements
  match failure with
  | some error =>
    let _ ← Code.perform (.send channel (.failure error))
  | none => pure ()
  .perform (.release channel)

/-- Start a feed and return the list that reads it. -/
def feed (scheduler : Nat) (elements : List Thunk) (failure : Option Error) : Code Thunk := do
  let bound ← .perform (.capacity scheduler)
  let channel ← .perform (.newChannel bound)
  spawn scheduler (.feed elements failure channel)
  suspend (.receive channel)

end ByNeed
