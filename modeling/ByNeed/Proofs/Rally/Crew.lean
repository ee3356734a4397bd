import ByNeed.Proofs.Rally.Delivery
import ByNeed.Proofs.Rally.Ledger

/-!
# The crew of a rally

The short pieces of code that the walker and the workers run are named after what they do next.
`Walker.Ahead`, `Worker.Silent` and `Worker.Spoken` say what is known at each.
-/

namespace ByNeed
namespace Rally

/-- Be counted as ended, which is the last thing a daemon does. -/
def farewell (scheduler : Nat) : Code Unit :=
  .act (.countEnded scheduler false) .done

/-- Stop to publish. -/
def release (scheduler channel : Nat) : Code Unit :=
  .act (.release channel) fun _ => farewell scheduler

theorem farewell_avoids (scheduler channel : Nat) : (farewell scheduler).Avoids channel :=
  Code.keeps_perform ⟨trivial, (Option.some_ne_none channel).symm⟩

namespace Worker

/-- What a worker sends, given what its source evaluates to. -/
def message (source : Thunk) : Value → Message
  | .error failure => .failure failure
  | _ => .item source

variable (scheduler channel backlog : Nat) (source : Thunk)

def leave : Code Unit :=
  .act (.leave backlog) fun _ => release scheduler channel

def send (value : Value) : Code Unit :=
  .act (.send channel (message source value)) fun _ => leave scheduler channel backlog

def enter (value : Value) : Code Unit :=
  .act (.enter backlog) fun _ => send scheduler channel backlog source value

def seek : Code Unit :=
  .evaluate source fun value => enter scheduler channel backlog source value.purely

theorem code_eq (number : Nat) :
    Daemon.code scheduler ⟨number, .source source channel backlog⟩ =
      seek scheduler channel backlog source :=
  rfl

/-- A worker has sent nothing yet. -/
inductive Silent (channel : Nat) (source : Thunk) (store : Store) : Code Unit → Prop
  | seek (scheduler backlog : Nat) :
      Silent channel source store (seek scheduler channel backlog source)
  | enter {value : Value} (scheduler backlog : Nat)
      (evaluated : store.slot? source = some (.evaluated value)) :
      Silent channel source store (enter scheduler channel backlog source value.purely)
  | send {value : Value} (scheduler backlog : Nat)
      (evaluated : store.slot? source = some (.evaluated value)) :
      Silent channel source store (send scheduler channel backlog source value.purely)

/-- A worker has sent, and is still a publisher. -/
inductive Spoken (channel : Nat) : Code Unit → Prop
  | leave (scheduler backlog : Nat) : Spoken channel (leave scheduler channel backlog)
  | release (scheduler : Nat) : Spoken channel (release scheduler channel)

theorem Silent.mono {channel : Nat} {source : Thunk} {store after : Store} {code : Code Unit}
    (silent : Silent channel source store code) (keeps : store.Remembers after) :
    Silent channel source after code := by
  cases silent with
  | seek scheduler backlog => exact .seek scheduler backlog
  | enter scheduler backlog evaluated => exact .enter scheduler backlog (keeps _ _ evaluated)
  | send scheduler backlog evaluated => exact .send scheduler backlog (keeps _ _ evaluated)

end Worker

namespace Walker

variable (scheduler channel backlog bound : Nat)

/-- Walk on from a place in the list of sources. -/
def loop (cursor : Thunk) : Code Unit :=
  .call (.walk scheduler cursor channel backlog bound) fun _ => farewell scheduler

def makeBacklog (cursor : Thunk) (bound : Nat) : Code Unit :=
  .act .newBacklog fun backlog => loop scheduler channel backlog (max 1 bound) cursor

def begin (cursor : Thunk) : Code Unit :=
  .act (.capacity scheduler) fun bound => makeBacklog scheduler channel cursor bound

/-- Say that the list of sources failed. -/
def fail (error : Error) : Code Unit :=
  .act (.send channel (.failure error)) fun _ => release scheduler channel

def count (cursor : Thunk) : Code Unit :=
  .act (.countStarted scheduler) fun _ => loop scheduler channel backlog bound cursor

/-- Launch the worker for a source. -/
def launch (daemon : Daemon) (rest : Thunk) : Code Unit :=
  .act (.launch scheduler daemon) fun _ => count scheduler channel backlog bound rest

/-- Submit the worker for a source. -/
def submit (source rest : Thunk) : Code Unit :=
  .act (.submit scheduler (.source source channel backlog)) fun
    | some daemon => launch scheduler channel backlog bound daemon rest
    | none => loop scheduler channel backlog bound rest

/-- Become a publisher for the worker of a source. -/
def retain (source rest : Thunk) : Code Unit :=
  .act (.retain channel) fun _ => submit scheduler channel backlog bound source rest

/-- Go on with what the list of sources evaluates to. -/
def meet (value : Value) : Code Unit :=
  match value.toList with
  | .error failure => fail scheduler channel failure
  | .ok .empty => release scheduler channel
  | .ok (.cons source rest) => retain scheduler channel backlog bound source rest

def seek (cursor : Thunk) : Code Unit :=
  .evaluate cursor fun value => meet scheduler channel backlog bound value.purely

/-- Ask whether the merged list is still read. -/
def ask (cursor : Thunk) : Code Unit :=
  .act (.isClosed channel) fun
    | true => release scheduler channel
    | false => seek scheduler channel backlog bound cursor

def await (cursor : Thunk) : Code Unit :=
  .act (.awaitBelow backlog bound) fun _ => ask scheduler channel backlog bound cursor

theorem code_eq (number : Nat) (cursor : Thunk) :
    Daemon.code scheduler ⟨number, .walk cursor channel⟩ = begin scheduler channel cursor :=
  rfl

/-- One round of the walk, and being counted as ended. -/
theorem walkStep_eq (cursor : Thunk) :
    ((Routine.walk scheduler cursor channel backlog bound).body.bind fun _ =>
      farewell scheduler) = await scheduler channel backlog bound cursor := by
  refine congrArg (Code.act _) (funext fun _ => ?_)
  refine congrArg (Code.act _) (funext fun closed => ?_)
  cases closed with
  | true => rfl
  | false =>
    refine congrArg (Code.evaluate _) (funext fun value => ?_)
    simp only [meet, Code.done_bind]
    cases value.purely.toList with
    | error failure => rfl
    | ok cells =>
      cases cells with
      | empty => rfl
      | cons source rest =>
        refine congrArg (Code.act _) (funext fun _ => ?_)
        refine congrArg (Code.act _) (funext fun urgent => ?_)
        cases urgent <;> rfl

/-- A walker is on its way: where it stands, and what it knows. -/
inductive Ahead (scheduler channel : Nat) (store : Store) (hands : List Hand) (cursor : Thunk) :
    Code Unit → Prop
  | begin : Ahead scheduler channel store hands cursor (begin scheduler channel cursor)
  | makeBacklog (bound : Nat) :
      Ahead scheduler channel store hands cursor (makeBacklog scheduler channel cursor bound)
  | loop (backlog bound : Nat) :
      Ahead scheduler channel store hands cursor (loop scheduler channel backlog bound cursor)
  | await (backlog bound : Nat) :
      Ahead scheduler channel store hands cursor (await scheduler channel backlog bound cursor)
  | ask (backlog bound : Nat) :
      Ahead scheduler channel store hands cursor (ask scheduler channel backlog bound cursor)
  | seek (backlog bound : Nat) :
      Ahead scheduler channel store hands cursor (seek scheduler channel backlog bound cursor)
  | retain {source rest : Thunk} (backlog bound : Nat)
      (evaluated : store.slot? cursor = some (.evaluated (.list (.cons source rest)))) :
      Ahead scheduler channel store hands cursor
        (retain scheduler channel backlog bound source rest)
  | fail {value : Value} {error : Error}
      (evaluated : store.slot? cursor = some (.evaluated value))
      (isError : value.purely.toList = .error error) :
      Ahead scheduler channel store hands cursor (fail scheduler channel error)
  | launch {position number : Nat} {source : Thunk} (backlog bound : Nat)
      (hired : hands[position]? = some ⟨source, .unborn⟩) :
      Ahead scheduler channel store hands cursor
        (launch scheduler channel backlog bound ⟨number, .source source channel backlog⟩ cursor)
  | count (backlog bound : Nat) :
      Ahead scheduler channel store hands cursor (count scheduler channel backlog bound cursor)

variable {scheduler channel} {store after : Store} {hands later : List Hand} {cursor : Thunk}
  {code : Code Unit}

theorem Ahead.mono (ahead : Ahead scheduler channel store hands cursor code)
    (keeps : store.Remembers after)
    (hired : ∀ (position : Nat) (source : Thunk), hands[position]? = some ⟨source, .unborn⟩ →
      later[position]? = some ⟨source, .unborn⟩) :
    Ahead scheduler channel after later cursor code := by
  cases ahead with
  | begin => exact .begin
  | makeBacklog bound => exact .makeBacklog bound
  | loop backlog bound => exact .loop backlog bound
  | await backlog bound => exact .await backlog bound
  | ask backlog bound => exact .ask backlog bound
  | seek backlog bound => exact .seek backlog bound
  | retain backlog bound evaluated => exact .retain backlog bound (keeps _ _ evaluated)
  | fail evaluated isError => exact .fail (keeps _ _ evaluated) isError
  | launch backlog bound found => exact .launch backlog bound (hired _ _ found)
  | count backlog bound => exact .count backlog bound

end Walker
end Rally
end ByNeed
