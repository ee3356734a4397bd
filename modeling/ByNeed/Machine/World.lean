import ByNeed.Machine.Thread

/-!
# The world

A world is a store together with the daemons that live in it.  Whenever code that is run in it has
to wait, every daemon is given a turn.  The schedule is one of many; what threads do to each other
through the store does not depend on it.
-/

namespace ByNeed

/-- A daemon that is alive: its scheduler, its thread and the number by which it
claims thunks. -/
structure Living where
  scheduler : Nat
  number : Nat
  thread : Thread Unit

/-- A store and the daemons that live in it. -/
structure World where
  store : Store
  daemons : List Living := []

/-- How running code ended. -/
inductive Outcome (ρ : Type) where
  | result (result : ρ)
  | brokeOff (message : String)
  /-- Nothing can move any more. -/
  | stuck
  /-- The bound on steps was reached. -/
  | exhausted

namespace World

/-- The number of the thread that runs the code of the host. -/
def hostNumber : Nat := 0

/-- Give life to the daemons that were launched. -/
def adopt (world : World) : World :=
  match world.store.launched with
  | [] => world
  | launched =>
    let newborn := launched.map fun (scheduler, daemon) =>
      { scheduler
        number := daemon.number
        thread := .running (daemon.code scheduler) : Living }
    { store := { world.store with launched := [] }
      daemons := world.daemons ++ newborn }

/-- Move one daemon up to so many steps.  Tells how many steps it did not use, and
whether it is still alive and where. -/
def runDaemon : Nat → Living → Store → (Nat × Option Living) × Store
  | 0, daemon, store => ((0, some daemon), store)
  | steps + 1, daemon, store =>
    match daemon.thread.step daemon.number store with
    | (.moved thread, store) => runDaemon steps { daemon with thread } store
    | (.waiting, store) => ((steps + 1, some daemon), store)
    | (.finished _, store) => ((steps, none), store)

/-- Give every daemon a turn of so many steps, in order.  Tells whether any moved. -/
def runDaemons (turn : Nat) :
    List Living → List Living → Bool → Store → (Bool × List Living) × Store
  | [], done, moved, store => ((moved, done.reverse), store)
  | daemon :: rest, done, moved, store =>
    match runDaemon turn daemon store with
    | ((unused, some daemon), store) =>
      runDaemons turn rest (daemon :: done) (moved || unused < turn) store
    | ((_, none), store) => runDaemons turn rest done true store

/-- The length of a daemon's turn. -/
def turn : Nat := 1000

/-- Give every daemon a turn.  Tells whether any moved. -/
def runAll (world : World) : Bool × World :=
  let world := world.adopt
  match runDaemons turn world.daemons [] false world.store with
  | ((moved, daemons), store) => (moved, { store, daemons })

/-- The channels on which daemons of a scheduler are about to publish. -/
def publishing (world : World) (scheduler : Nat) : List Nat :=
  world.daemons.filterMap fun daemon =>
    if daemon.scheduler = scheduler then daemon.thread.sendingTo? else none

def abandon (world : World) (channels : List Nat) : World :=
  { world with
    store := channels.foldl
      (fun store channel => store.modifyChannel channel Channel.abandon) world.store }

variable {ρ : Type}

/-- Run a thread of the host, letting the daemons move when it has to wait, within
a bound on steps. -/
def runThread : Nat → Thread ρ → Store → List Living → Outcome ρ × World
  | 0, _, store, daemons => (.exhausted, { store, daemons })
  | fuel + 1, thread, store, daemons =>
    match thread.step hostNumber store with
    | (.moved thread, store) => runThread fuel thread store daemons
    | (.finished (.ok result), store) => (.result result, { store, daemons })
    | (.finished (.error message), store) => (.brokeOff message, { store, daemons })
    | (.waiting, store) =>
      match runAll { store, daemons } with
      | (true, world) => runThread fuel thread world.store world.daemons
      | (false, world) => (.stuck, world)

/-- Run code of the host within a bound on steps. -/
def run (world : World) (fuel : Nat) (code : Code ρ) : Outcome ρ × World :=
  runThread fuel (.running code) world.store world.daemons

end World
end ByNeed
