import ByNeed.Daemon.Feed

/-!
# Rallies

A rally evaluates its sources on daemons, each on one of its own, and lists them in
the order in which they are done.  The list of sources is walked by a further
daemon, so the merged list begins before the sources end.  The walk pauses while as
many workers wait to publish as the channel holds messages.
-/

namespace ByNeed

/-- Evaluate one source and publish it, or fail with its error. -/
def sourceDuty (source : Thunk) (channel backlog : Nat) : Code Unit := do
  let value ← force source
  .perform (.enter backlog)
  let message :=
    match value with
    | .error failure => Message.failure failure
    | _ => Message.item source
  let _ ← Code.perform (.send channel message)
  .perform (.leave backlog)
  .perform (.release channel)

/-- Start a worker for each source, by way of the routine. -/
def walk (scheduler : Nat) (spine : Thunk) (channel backlog capacity : Nat) : Code Unit :=
  .call (.walk scheduler spine channel backlog capacity) .done

/-- Start a worker for each source: one for the first, then for the others.  The
walk ends early once nobody reads the merged list. -/
def walkStep (scheduler : Nat) (spine : Thunk) (channel backlog capacity : Nat) : Code Unit := do
  .perform (.awaitBelow backlog capacity)
  if ← .perform (.isClosed channel) then
    .perform (.release channel)
  else
    match (← force spine).toList with
    | .error failure =>
      let _ ← Code.perform (.send channel (.failure failure))
      .perform (.release channel)
    | .ok .empty => .perform (.release channel)
    | .ok (.cons source rest) =>
      .perform (.retain channel)
      spawn scheduler (.source source channel backlog)
      walk scheduler rest channel backlog capacity

def walkDuty (scheduler : Nat) (spine : Thunk) (channel : Nat) : Code Unit := do
  let bound ← .perform (.capacity scheduler)
  let backlog ← .perform .newBacklog
  walk scheduler spine channel backlog (max 1 bound)

/-- Start a rally and return the merged list.  The scheduler has to be running. -/
def rally (scheduler : Nat) (sources : Thunk) : Attempt Thunk := do
  if ← ExceptT.lift (.perform (.isStarted scheduler)) then
    let bound ← ExceptT.lift (.perform (.capacity scheduler))
    let channel ← ExceptT.lift (.perform (.newChannel bound))
    spawn scheduler (.walk sources channel)
    suspend (.receive channel)
  else
    .fault .idleScheduler

/-- Count as run, and break off if asked to. -/
def tallyDuty (scheduler : Nat) (breaksOff : Bool) : Code Unit := do
  .perform (.countRun scheduler)
  if breaksOff then .breakOff "daemon broke off" else return ()

/-- What a daemon of a scheduler does. -/
def Duty.code (scheduler : Nat) : Duty → Code Unit
  | .feed elements failure channel => feedDuty elements failure channel
  | .walk spine channel => walkDuty scheduler spine channel
  | .source element channel backlog => sourceDuty element channel backlog
  | .tally breaksOff => tallyDuty scheduler breaksOff

/-- The whole life of a daemon: its duty, and being counted as ended. -/
def Daemon.code (scheduler : Nat) (daemon : Daemon) : Code Unit := do
  let outcome ← (daemon.duty.code scheduler).attempt
  .perform (.countEnded scheduler (outcome matches .error _))

end ByNeed
