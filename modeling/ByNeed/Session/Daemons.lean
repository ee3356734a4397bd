import ByNeed.Options.Document
import ByNeed.Session.Values

/-!
# Operations on channels, schedulers, programs and runtimes
-/

namespace ByNeed
namespace Host

/-- Let a name refer to a publisher of a channel.  The publisher it referred to
before is dropped. -/
def setPublisher (name : String) (channel : Nat) : Host Unit := do
  if let some former := (← get).publishers.lookup name then
    run (.perform (.release former))
  modify fun session => { session with publishers := Names.set session.publishers name channel }

/-- Let a name refer to the reading end of a channel.  The list it referred to before
is dropped. -/
def setReader (name : String) (reader : Reader) : Host Unit := do
  if let some former := (← get).readers.lookup name then
    change fun store => ((), store.modifyChannel former.channel Channel.abandon)
  modify fun session => { session with readers := Names.set session.readers name reader }

/-- Make a channel under a name, which is also the name of its first publisher. -/
def newChannel (name : String) (capacity : Nat) : Host Unit := do
  let channel ← run (.perform (.newChannel capacity))
  let cursor ← run (suspend (.receive channel))
  setPublisher name channel
  setReader name { channel, cursor }

/-- Make another publisher of the same channel. -/
def clonePublisher (publisher clone : String) : Host Unit := do
  let channel ← find Session.publishers publisher
  run (.perform (.retain channel))
  setPublisher clone channel

def dropPublisher (publisher : String) : Host Unit := do
  let channel ← find Session.publishers publisher
  run (.perform (.release channel))
  modify fun session => { session with publishers := Names.erase session.publishers publisher }

def dropList (name : String) : Host Unit := do
  let reader ← find Session.readers name
  change fun store => ((), store.modifyChannel reader.channel Channel.abandon)
  modify fun session =>
    { session with readers := Names.set session.readers name { reader with dropped := true } }

/-- Send a message, unless that would have to wait.  Tells whether it was accepted. -/
def sendNow (publisher : String) (message : Host Message) : Host (Option Bool) := do
  let channel ← find Session.publishers publisher
  let state ← inspect fun store => store.channel channel
  if state.listening && state.isFull then
    return none
  let message ← message
  change fun store =>
    let (sent, state) := (store.channel channel).send message
    (some sent, store.setChannel channel state)

/-- Publish an expression, unless that would have to wait. -/
def publishNow (publisher : String) (expr : Expr) : Host (Option Bool) :=
  sendNow publisher do
    return .item (← build expr)

/-- Fail with the error an expression evaluates to, unless that would have to wait. -/
def failNow (publisher : String) (expr : Expr) : Host (Option Bool) :=
  sendNow publisher do
    match ← force expr with
    | .error failure => return .failure failure
    | _ => throw .unfit

/-- What reading on from the cursor of a channel gives. -/
inductive Reading where
  | item (element : View)
  | ended
  | failed (failure : Error)
  | dropped
  | wouldWait

/-- Read the next element behind a channel, unless that would have to wait. -/
def readNext (name : String) : Host Reading := do
  let reader ← find Session.readers name
  if reader.dropped then
    return .dropped
  let known ← inspect fun store => (store.slot reader.cursor).isEvaluated
  let state ← inspect fun store => store.channel reader.channel
  if !known && state.unread.isEmpty && state.publishers != 0 then
    return .wouldWait
  match (← run (ByNeed.force reader.cursor)).toList with
  | .ok (.cons head tail) =>
    modify fun session =>
      { session with readers := Names.set session.readers name { reader with cursor := tail } }
    return .item (← view (← run (ByNeed.force head)))
  | .ok .empty => return .ended
  | .error failure => return .failed failure

def publisherState (publisher : String) : Host Channel := do
  let channel ← find Session.publishers publisher
  inspect fun store => store.channel channel

/-- Make a scheduler with the settings of some options. -/
def makeScheduler (options : Options) : Host Nat :=
  change fun store => store.newScheduler options.handoffCapacity options.daemonStackSize

/-- Drop a scheduler to which no name refers any more. -/
def dropScheduler (scheduler : Nat) : Host Unit :=
  change fun store => ((), store.dropScheduler scheduler)

/-- The scheduler that everyone shares: the same each time, and started. -/
def sharedScheduler : Host Nat := do
  match (← get).sharedScheduler with
  | some scheduler => return scheduler
  | none =>
    let scheduler ← makeScheduler {}
    let _ ← run (ByNeed.startScheduler scheduler)
    modify fun session => { session with sharedScheduler := some scheduler }
    return scheduler

def newScheduler (name : String) (capacity : Option Nat) : Host Scheduler := do
  let defaults : Options := {}
  let scheduler ← makeScheduler
    { defaults with handoffCapacity := capacity.getD defaults.handoffCapacity }
  if let some former := (← get).schedulers.lookup name then
    dropScheduler former
  modify fun session =>
    { session with schedulers := Names.set session.schedulers name scheduler }
  inspect fun store => store.scheduler scheduler

def schedulerState (name : String) : Host Scheduler := do
  let scheduler ← find Session.schedulers name
  inspect fun store => store.scheduler scheduler

/-- Submit a daemon that counts itself as run. -/
def spawnTally (name : String) (breaksOff : Bool) : Host Unit := do
  let scheduler ← find Session.schedulers name
  run (spawn scheduler (.tally breaksOff))

def startScheduler (name : String) : Host (Option Nat) := do
  let scheduler ← find Session.schedulers name
  run (ByNeed.startScheduler scheduler)

/-- Drop the lists on which daemons of a scheduler wait to publish.  Tells whether
there are any. -/
def dropAwaited (scheduler : Nat) : Host Bool :=
  ExceptT.lift (StateT.lift fun world =>
    let channels := world.publishing scheduler
    (!channels.isEmpty, world.abandon channels))

/-- Wait until every daemon that a scheduler launched has ended.  When nothing moves
any more while the host waits, nobody is left to read what daemons wait to publish,
so their lists are dropped. -/
def awaitQuiet (scheduler : Nat) : Nat → Host Unit
  | 0 => throw .exhausted
  | attempts + 1 =>
    tryCatch (run (.perform (.awaitQuiet scheduler))) fun
      | .stuck => do
          if ← dropAwaited scheduler then
            awaitQuiet scheduler attempts
          else
            throw .stuck
      | refusal => throw refusal

/-- The state of a scheduler once every daemon launched has ended. -/
def quietState (name : String) : Host Scheduler := do
  let scheduler ← find Session.schedulers name
  awaitQuiet scheduler fuel
  inspect fun store => store.scheduler scheduler

/-- The error an expression evaluates to, if there is an expression. -/
def failureOf (expr : Option Expr) : Host (Option Error) := do
  match expr with
  | none => return none
  | some expr =>
    match ← force expr with
    | .error failure => return some failure
    | _ => throw .unfit

/-- Start a feed on a scheduler and keep its list. -/
def keepFeedOn (scheduler : Nat) (elements : List Expr) (failure : Option Expr) : Host String := do
  let thunks ← elements.mapM build
  let failure ← failureOf failure
  keep (← run (feed scheduler thunks failure))

def keepFeed (name : String) (elements : List Expr) (failure : Option Expr) : Host String := do
  keepFeedOn (← find Session.schedulers name) elements failure

/-- Keep the function that merges sources on a scheduler. -/
def keepRally (name : String) : Host String := do
  let scheduler ← find Session.schedulers name
  let entry := Prelude.rally scheduler
  let callee ← run (newFunction entry.name entry.signature false entry.body)
  keep (← run (newValue (.function callee)))

/-- Make a program under a name and tell its length. -/
def newProgram (name : String) (exprs : List Expr) : Host Nat := do
  let statements ← exprs.mapM build
  modify fun session =>
    { session with programs := Names.set session.programs name { statements } }
  return statements.length

/-- Append a statement to a program, which need not exist, and tell its length. -/
def pushStatement (name : String) (expr : Expr) : Host Nat := do
  let program := ((← get).programs.lookup name).getD {}
  let program := program.push (← build expr)
  modify fun session => { session with programs := Names.set session.programs name program }
  return program.statements.length

/-- Run a program and view the values of its statements. -/
def runProgram (name : String) : Host (Except StatementFailure (List View)) := do
  let program ← find Session.programs name
  match ← run program.run.run with
  | .ok values => return .ok (← values.mapM view)
  | .error failure => return .error failure

/-- Make a symbol generator under a name. -/
def newSymbols (name : String) (start : Option String) : Host Unit :=
  modify fun session =>
    let symbols : Symbols :=
      match start with
      | some start => { start }
      | none => {}
    { session with
      generators := session.generators.push symbols
      generatorNames := Names.set session.generatorNames name session.generators.size }

/-- Hand out a symbol of the generator at a place. -/
def takeSymbol (place : Nat) : Host String := do
  match (← get).generators[place]? with
  | none => throw .unfit
  | some symbols =>
    let (symbol, symbols) := symbols.take
    modify fun session =>
      { session with generators := session.generators.setIfInBounds place symbols }
    return symbol

def nextSymbol (name : String) : Host String := do
  takeSymbol (← find Session.generatorNames name)

def resetSymbols (name : String) : Host Unit := do
  let place ← find Session.generatorNames name
  modify fun session =>
    { session with generators := session.generators.modify place Symbols.reset }

/-- Make a runtime from a document, or from the default options.  Its symbols come
from a named generator, or from one of its own.  Free names refer to its prelude from
now on. -/
def newRuntime (document : Option String) (generator : Option String) :
    Host (Except OptionsFailure Options) := do
  let parsed : Except OptionsFailure Options :=
    match document with
    | none => .ok {}
    | some text => Options.ofDocument text
  match parsed with
  | .error failure => return .error failure
  | .ok options =>
    let place ←
      match generator with
      | some name => find Session.generatorNames name
      | none => do
          let place := (← get).generators.size
          modify fun session =>
            { session with
              generators := session.generators.push { start := options.symbolStart } }
          pure place
    let scheduler ← makeScheduler options
    change fun store => ((), store.installPrelude.install (Prelude.rally scheduler))
    if let some former := (← get).runtime then
      dropScheduler former.scheduler
    modify fun session =>
      { session with runtime := some { options, scheduler, symbols := place } }
    return .ok options

def runtime : Host Runtime := do
  match (← get).runtime with
  | some runtime => return runtime
  | none => throw (.unknown "runtime")

def runtimeSymbol : Host String := do
  takeSymbol (← runtime).symbols

def runtimeStarted : Host Bool := do
  let scheduler := (← runtime).scheduler
  inspect fun store => (store.scheduler scheduler).isStarted

def runtimeOutline : Host String := do
  let runtime ← runtime
  let scheduler ← inspect fun store => store.scheduler runtime.scheduler
  return "Runtime \x7b options: " ++ runtime.options.outline ++ ", scheduler: " ++
    scheduler.outline ++ ", .. \x7d"

/-- Start the scheduler of the runtime if needed, and run a program. -/
def runtimeRun (name : String) : Host (Except StatementFailure (List View)) := do
  let _ ← find Session.programs name
  let _ ← run (ByNeed.startScheduler (← runtime).scheduler)
  runProgram name

/-- Start a feed on the scheduler of the runtime and keep its list. -/
def runtimeFeed (elements : List Expr) (failure : Option Expr) : Host String := do
  keepFeedOn (← runtime).scheduler elements failure

end Host
end ByNeed
