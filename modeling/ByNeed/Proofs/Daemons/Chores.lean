import ByNeed.Proofs.Calls.Bodies

/-!
# What code owes to daemons

Code that is handed daemons, by submitting one to a scheduler that runs or by starting a scheduler,
has to launch each and then to count it as started.  `Code.Owes` says that code does these chores
before anything else, and that only the last step of a daemon counts it as ended.
-/

namespace ByNeed

open Code

variable {mayBreakOff : Prop} {action : Action}

/-- What is still to be done for a daemon that was handed out. -/
inductive Chore where
  | launch (scheduler : Nat) (daemon : Daemon)
  | count (scheduler : Nat)
  deriving DecidableEq

namespace Chore

/-- The chores for one daemon. -/
def ofDaemon (scheduler : Nat) (daemon : Daemon) : List Chore :=
  [.launch scheduler daemon, .count scheduler]

/-- The chores for daemons, in order. -/
def ofDaemons (scheduler : Nat) (daemons : List Daemon) : List Chore :=
  daemons.flatMap (ofDaemon scheduler)

/-- The daemon that is to be launched. -/
def daemon? : Chore → Option (Nat × Daemon)
  | .launch scheduler daemon => some (scheduler, daemon)
  | .count _ => none

@[simp] theorem filterMap_daemon?_ofDaemons (scheduler : Nat) (daemons : List Daemon) :
    (ofDaemons scheduler daemons).filterMap daemon? = daemons.map (scheduler, ·) := by
  induction daemons with
  | nil => rfl
  | cons daemon rest ih =>
    rw [ofDaemons, List.flatMap_cons, ← ofDaemons, List.filterMap_append, ih]
    rfl

end Chore

namespace Action

/-- The chore that an action does. -/
def chore? : Action → Option Chore
  | .launch scheduler daemon => some (.launch scheduler daemon)
  | .countStarted scheduler => some (.count scheduler)
  | _ => none

/-- The chores that come with the reply to an action. -/
def brings : (action : Action) → action.Reply → List Chore
  | .submit scheduler _, urgent => urgent.elim [] (Chore.ofDaemon scheduler)
  | .takeQueue scheduler, taken => taken.elim [] (Chore.ofDaemons scheduler)
  | _, _ => []

/-- The scheduler with which an action counts a daemon as ended. -/
def closes? : Action → Option Nat
  | .countEnded scheduler _ => some scheduler
  | _ => none

/-- A plain action has nothing to do with daemons. -/
theorem Respects.chore?_eq (plain : action.Respects Regime.plain.mayUse) :
    action.chore? = none ∧ action.closes? = none ∧
      ∀ reply, action.brings reply = [] ∧ action.Mentions Regime.plain.mayUse reply := by
  cases action <;> first | exact ⟨rfl, rfl, fun _ => ⟨rfl, trivial⟩⟩ | exact plain.elim

end Action

/-! ## Code -/

/-- Whether a routine is the walk of a rally. -/
def Routine.isWalk : Routine → Bool
  | .walk .. => true
  | _ => false

namespace Code

variable {α β : Type} {closing : Option Nat} {owed : List Chore} {code : Code α}
variable {following : α → Code β}

/-- Code first does the chores it owes.  Where it is the code of a daemon, its last step is to
count the daemon as ended, and it calls no routine that might break off before. -/
def Owes (closing : Option Nat) : List Chore → Code α → Prop
  | owed, .done _ => closing = none ∧ owed = []
  | owed, .breakOff _ => closing = none ∧ owed = []
  | chore :: rest, .act action next =>
    action.chore? = some chore ∧ ∀ reply, (next reply).Owes closing rest
  | [], .act action next =>
    action.chore? = none ∧
      (action.closes? = none ∧ (∀ reply, (next reply).Owes closing (action.brings reply)) ∨
        closing.isSome ∧ action.closes? = closing ∧ ∀ reply, ∃ result, next reply = .done result)
  | owed, .evaluate _ next => owed = [] ∧ ∀ value, (next value).Owes closing []
  | owed, .call routine next =>
    owed = [] ∧ (closing.isSome → routine.isWalk) ∧ ∀ reply, (next reply).Owes closing []

/-- Code breaks off only if it may, and calls no routine but the walk of a rally. -/
def Steady (mayBreakOff : Prop) : Code α → Prop
  | .done _ => True
  | .breakOff _ => mayBreakOff
  | .act _ next => ∀ reply, (next reply).Steady mayBreakOff
  | .evaluate _ next => ∀ value, (next value).Steady mayBreakOff
  | .call routine next => routine.isWalk ∧ ∀ reply, (next reply).Steady mayBreakOff

/-- The chores that code is about to do. -/
def chores : Code α → List Chore
  | .act (.launch scheduler daemon) next => .launch scheduler daemon :: (next ()).chores
  | .act (.countStarted scheduler) next => .count scheduler :: (next ()).chores
  | _ => []

theorem Owes.chores_eq (owes : code.Owes closing owed) : code.chores = owed := by
  induction code generalizing owed with
  | done | breakOff => exact owes.2.symm
  | act action next ih =>
    cases owed with
    | nil => cases action <;> first | rfl | cases owes.1
    | cons chore rest =>
      obtain ⟨isChore, following⟩ := owes
      cases action <;> cases isChore
      · exact congrArg _ (ih () (following ()))
      · exact congrArg _ (ih () (following ()))
  | _ => exact owes.1.symm

/-- What follows takes over once the chores are done.  The code of a daemon must not break off
before. -/
theorem Owes.bind (owes : code.Owes none owed) (steady : closing.isSome → code.Steady False)
    (rest : ∀ result, (following result).Owes closing []) :
    (code.bind following).Owes closing owed := by
  induction code generalizing owed with
  | done result =>
    obtain ⟨-, rfl⟩ := owes
    exact rest result
  | breakOff message =>
    refine ⟨?_, owes.2⟩
    cases closing with
    | none => rfl
    | some scheduler => exact (steady rfl).elim
  | act action next ih =>
    have following := fun reply owed (owes : (next reply).Owes none owed) =>
      ih reply owes fun isSome => steady isSome reply
    cases owed with
    | cons chore others => exact ⟨owes.1, fun reply => following reply _ (owes.2 reply)⟩
    | nil =>
      obtain ⟨noChore, ⟨goesOn, nexts⟩ | ⟨⟨⟩, -⟩⟩ := owes
      exact ⟨noChore, .inl ⟨goesOn, fun reply => following reply _ (nexts reply)⟩⟩
  | evaluate thunk next ih =>
    exact ⟨owes.1, fun value =>
      ih value (owes.2 value) fun isSome => steady isSome value⟩
  | call routine next ih =>
    exact ⟨owes.1, fun isSome => (steady isSome).1, fun reply =>
      ih reply (owes.2.2 reply) fun isSome => (steady isSome).2 reply⟩

theorem Owes.attempt (owes : code.Owes none owed) : code.attempt.Owes none owed := by
  induction code generalizing owed with
  | act action next ih =>
    cases owed with
    | cons chore others =>
      exact ⟨owes.1, fun reply => ih reply (owes.2 reply)⟩
    | nil =>
      obtain ⟨noChore, ⟨goesOn, nexts⟩ | ⟨⟨⟩, -⟩⟩ := owes
      exact ⟨noChore, .inl ⟨goesOn, fun reply => ih reply (nexts reply)⟩⟩
  | evaluate thunk next ih =>
    exact ⟨owes.1, fun value => ih value (owes.2 value)⟩
  | call routine next ih =>
    exact ⟨owes.1, owes.2.1, fun reply => ih reply (owes.2.2 reply)⟩
  | _ => exact owes

/-- What is attempted does not break off. -/
theorem Steady.attempt (steady : code.Steady True) : code.attempt.Steady False := by
  induction code with
  | done | breakOff => trivial
  | act action next ih =>
    exact fun reply => ih reply (steady reply)
  | evaluate thunk next ih =>
    exact fun value => ih value (steady value)
  | call routine next ih =>
    exact ⟨steady.1, fun reply => ih reply (steady.2 reply)⟩

theorem Steady.bind (steady : code.Steady mayBreakOff)
    (rest : ∀ result, (following result).Steady mayBreakOff) :
    (code >>= following).Steady mayBreakOff := by
  induction code with
  | done result => exact rest result
  | breakOff message => exact steady
  | act action next ih =>
    exact fun reply => ih reply (steady reply)
  | evaluate thunk next ih =>
    exact fun value => ih value (steady value)
  | call routine next ih =>
    exact ⟨steady.1, fun reply => ih reply (steady.2 reply)⟩

theorem Obeys.owes (obeys : code.Obeys .plain kind) : code.Owes none [] := by
  induction code with
  | act action next ih =>
    obtain ⟨noChore, goesOn, replies⟩ := Action.Respects.chore?_eq obeys.1.2
    refine ⟨noChore, .inl ⟨goesOn, fun reply => ?_⟩⟩
    rw [(replies reply).1]
    exact ih reply (obeys.2 reply ⟨action.told_everything reply, (replies reply).2⟩)
  | evaluate thunk next ih =>
    exact ⟨rfl, fun value => ih value (obeys value value.fits_everything)⟩
  | call routine next ih =>
    exact ⟨rfl, nofun, fun reply => ih reply (obeys.2 reply (routine.told_everything reply))⟩
  | _ => exact ⟨rfl, rfl⟩

theorem owes_act {next : action.Reply → Code α} (noChore : action.chore? = none)
    (goesOn : action.closes? = none) (brings : ∀ reply, action.brings reply = [])
    (rest : ∀ reply, (next reply).Owes closing []) : (act action next).Owes closing [] :=
  ⟨noChore, .inl ⟨goesOn, fun reply => brings reply ▸ rest reply⟩⟩

end Code

/-! ## Handing out daemons -/

variable {closing : Option Nat}
variable {routine : Routine}

section

variable (scheduler : Nat)

theorem launch_owes (daemon : Daemon) :
    (launch scheduler daemon).Owes none (Chore.ofDaemon scheduler daemon) :=
  ⟨rfl, fun _ => ⟨rfl, fun _ => ⟨rfl, rfl⟩⟩⟩

theorem launchAll_owes (daemons : List Daemon) :
    (launchAll scheduler daemons).Owes none (Chore.ofDaemons scheduler daemons) := by
  induction daemons with
  | nil => exact ⟨rfl, rfl⟩
  | cons daemon rest ih =>
    exact ⟨rfl, fun _ => ⟨rfl, fun _ => ih⟩⟩

theorem startScheduler_owes : (startScheduler scheduler).Owes none [] := by
  refine ⟨rfl, .inl ⟨rfl, fun taken => ?_⟩⟩
  cases taken with
  | none => exact ⟨rfl, rfl⟩
  | some queue => exact (launchAll_owes scheduler queue).bind nofun fun _ => ⟨rfl, rfl⟩

theorem spawn_owes (duty : Duty) : (spawn scheduler duty).Owes none [] := by
  refine ⟨rfl, .inl ⟨rfl, fun urgent => ?_⟩⟩
  cases urgent with
  | none => exact ⟨rfl, rfl⟩
  | some daemon => exact launch_owes scheduler daemon

theorem spawn_steady (duty : Duty) : (spawn scheduler duty).Steady mayBreakOff := by
  intro urgent
  cases urgent with
  | none => trivial
  | some daemon => exact fun _ _ => trivial

end

theorem force_owes (thunk : Thunk) : (force thunk).Owes none [] :=
  Obeys.owes (force_obeys thunk)

theorem newValue_owes (value : Value) : (newValue value).Owes none [] :=
  owes_act rfl rfl (fun _ => rfl) fun _ => ⟨rfl, rfl⟩

theorem suspend_owes (computation : Suspension) : (suspend computation).Owes none [] :=
  owes_act rfl rfl (fun _ => rfl) fun _ => ⟨rfl, rfl⟩

theorem feed_owes (scheduler : Nat) (elements : List Thunk) (failure : Option Error) :
    (feed scheduler elements failure).Owes none [] :=
  owes_act rfl rfl (fun _ => rfl) fun _ => owes_act rfl rfl (fun _ => rfl) fun _ =>
    (spawn_owes scheduler _).bind nofun fun _ => suspend_owes _

theorem receiveStep_owes (channel : Nat) : (receiveStep channel).Owes none [] := by
  refine owes_act rfl rfl (fun _ => rfl) fun reading => ?_
  cases reading with
  | item element =>
    exact (suspend_owes _).bind nofun fun _ => newValue_owes _
  | _ => exact owes_act rfl rfl (fun _ => rfl) fun _ => newValue_owes _

theorem rally_owes (scheduler : Nat) (sources : Thunk) :
    (rally scheduler sources).run.Owes none [] := by
  refine owes_act rfl rfl (fun _ => rfl) fun started => ?_
  cases started with
  | false => exact ⟨rfl, rfl⟩
  | true =>
    refine owes_act rfl rfl (fun _ => rfl) fun bound => ?_
    refine owes_act rfl rfl (fun _ => rfl) fun channel => ?_
    have spawned : (ExceptT.lift (spawn scheduler (.walk sources channel)) :
        Attempt Unit).run.Owes none [] :=
      (spawn_owes scheduler _).bind nofun fun _ => ⟨rfl, rfl⟩
    refine spawned.bind nofun fun outcome => ?_
    cases outcome with
    | ok done => exact (suspend_owes _).bind nofun fun _ => ⟨rfl, rfl⟩
    | error failure => exact ⟨rfl, rfl⟩

theorem walkStep_owes (scheduler : Nat) (spine : Thunk) (channel backlog capacity : Nat) :
    (walkStep scheduler spine channel backlog capacity).Owes none [] := by
  refine owes_act rfl rfl (fun _ => rfl) fun _ => ?_
  refine owes_act rfl rfl (fun _ => rfl) fun closed => ?_
  have released : (Code.perform (.release channel)).Owes none [] :=
    owes_act rfl rfl (fun _ => rfl) fun _ => ⟨rfl, rfl⟩
  cases closed with
  | true => exact released
  | false =>
    refine (force_owes spine).bind nofun fun value => ?_
    split
    · exact owes_act rfl rfl (fun _ => rfl) fun _ => released
    · exact released
    · refine owes_act rfl rfl (fun _ => rfl) fun _ => ?_
      exact (spawn_owes scheduler _).bind nofun fun _ => ⟨rfl, nofun, fun _ => ⟨rfl, rfl⟩⟩

theorem walkStep_steady (scheduler : Nat) (spine : Thunk) (channel backlog capacity : Nat) :
    (walkStep scheduler spine channel backlog capacity).Steady mayBreakOff := by
  intro _ closed
  cases closed with
  | true => exact fun _ => trivial
  | false =>
    have forced : (force spine).Steady mayBreakOff := fun _ => trivial
    refine forced.bind fun value => ?_
    split
    · exact fun _ _ => trivial
    · exact fun _ => trivial
    · exact fun _ => (spawn_steady scheduler _).bind fun _ => ⟨rfl, fun _ => trivial⟩

/-! ## Daemons -/

theorem publishAll_owes (channel : Nat) (elements : List Thunk) :
    (publishAll channel elements).Owes none [] := by
  induction elements with
  | nil => exact ⟨rfl, rfl⟩
  | cons element rest ih =>
    exact owes_act rfl rfl (fun _ => rfl) fun _ => ih

theorem publishAll_steady (channel : Nat) (elements : List Thunk) :
    (publishAll channel elements).Steady mayBreakOff := by
  induction elements with
  | nil => trivial
  | cons element rest ih => exact fun _ => ih

theorem Duty.code_owes (scheduler : Nat) (duty : Duty) : (duty.code scheduler).Owes none [] := by
  cases duty with
  | feed elements failure channel =>
    refine (publishAll_owes channel elements).bind nofun fun _ => ?_
    cases failure with
    | none => exact owes_act rfl rfl (fun _ => rfl) fun _ => ⟨rfl, rfl⟩
    | some error =>
      exact owes_act rfl rfl (fun _ => rfl) fun _ =>
        owes_act rfl rfl (fun _ => rfl) fun _ => ⟨rfl, rfl⟩
  | walk spine channel =>
    exact owes_act rfl rfl (fun _ => rfl) fun _ =>
      owes_act rfl rfl (fun _ => rfl) fun _ => ⟨rfl, nofun, fun _ => ⟨rfl, rfl⟩⟩
  | source source channel backlog =>
    exact (force_owes source).bind nofun fun _ =>
      owes_act rfl rfl (fun _ => rfl) fun _ =>
        owes_act rfl rfl (fun _ => rfl) fun _ =>
          owes_act rfl rfl (fun _ => rfl) fun _ =>
            owes_act rfl rfl (fun _ => rfl) fun _ => ⟨rfl, rfl⟩
  | tally breaksOff =>
    refine owes_act rfl rfl (fun _ => rfl) fun _ => ?_
    cases breaksOff <;> exact ⟨rfl, rfl⟩

theorem Duty.code_steady (scheduler : Nat) (duty : Duty) : (duty.code scheduler).Steady True := by
  cases duty with
  | feed elements failure channel =>
    refine (publishAll_steady channel elements).bind fun _ => ?_
    cases failure with
    | none => exact fun _ => trivial
    | some error => exact fun _ _ => trivial
  | walk spine channel => exact fun _ _ => ⟨rfl, fun _ => trivial⟩
  | source source channel backlog => exact fun _ _ _ _ _ => trivial
  | tally breaksOff =>
    intro _
    cases breaksOff <;> trivial

/-- A daemon is counted as ended in its last step, and by nobody before. -/
theorem Daemon.code_owes (scheduler : Nat) (daemon : Daemon) :
    (daemon.code scheduler).Owes (some scheduler) [] :=
  (Duty.code_owes scheduler daemon.duty).attempt.bind (fun _ => (Duty.code_steady scheduler
    daemon.duty).attempt) fun _ => ⟨rfl, .inr ⟨rfl, rfl, fun _ => ⟨(), rfl⟩⟩⟩

/-! ## Computations and routines -/

theorem Attempt.owes_bind {attempt : Attempt α} {following : α → Attempt β}
    (first : attempt.run.Owes none []) (rest : ∀ result, (following result).run.Owes none []) :
    (attempt >>= following).run.Owes none [] := by
  refine first.bind nofun fun outcome => ?_
  cases outcome with
  | ok result => exact rest result
  | error failure => exact ⟨rfl, rfl⟩

/-- Only the rally has to do with daemons. -/
theorem Body.invoke_owes (body : Body) (names : List String) (bound : List Thunk) :
    (body.invoke names bound).run.Owes none [] := by
  by_cases isRally : ∃ scheduler, body = .lazyPrimitive (.rally scheduler)
  · obtain ⟨scheduler, rfl⟩ := isRally
    match bound with
    | [sources] => exact rally_owes scheduler sources
    | [] | _ :: _ :: _ => exact ⟨rfl, rfl⟩
  · exact Obeys.owes (Body.Suits.invoke (body.suits_everything names _)
      fun scheduler same => absurd ⟨scheduler, same⟩ isRally)

theorem Function.call_owes (callee : Function) (arguments : Arguments) :
    (callee.call arguments).run.Owes none [] := by
  fun_induction Function.call callee arguments with
  | case1 identity target fixed arguments ih => exact ih
  | case2 identity name signature effectful body arguments =>
    have signatureFits : signature.Fits Regime.plain := .of_everything _ _
    refine Attempt.owes_bind (Obeys.owes (signatureFits.bind arguments)) fun bound => ?_
    cases effectful with
    | true =>
      exact owes_act rfl rfl (fun _ => rfl) fun _ => owes_act rfl rfl (fun _ => rfl) fun _ =>
        owes_act rfl rfl (fun _ => rfl) fun _ => ⟨rfl, rfl⟩
    | false => exact body.invoke_owes _ bound

theorem apply_owes (function : Thunk) (arguments : Arguments) :
    (apply function arguments).run.Owes none [] := by
  refine Attempt.owes_bind (Obeys.owes (Attempt.obeys_lift (force_obeys function))) fun value => ?_
  cases value with
  | function callee => exact callee.call_owes arguments
  | dictionary entries =>
    have entriesFit : entries.Fits Regime.plain := fun entry _ => entry.1.fits_everything
    exact Obeys.owes (entriesFit.call arguments)
  | _ => exact ⟨rfl, rfl⟩

theorem returning_owes (first : result.run.Owes none []) : (returning result).Owes none [] := by
  refine first.bind nofun fun outcome => ?_
  cases outcome with
  | ok thunk => exact ⟨rfl, rfl⟩
  | error failure => exact newValue_owes _

theorem Suspension.resume_owes (computation : Suspension) : computation.resume.Owes none [] := by
  cases computation with
  | receive channel => exact receiveStep_owes channel
  | apply function arguments site => exact returning_owes (apply_owes function arguments)
  | invoke body names bound => exact returning_owes (body.invoke_owes names bound)
  | _ => exact Obeys.owes (Suspension.Suits.resume (Suspension.suits_everything _) trivial nofun)

theorem Routine.body_owes (routine : Routine) : routine.body.Owes none [] := by
  cases routine with
  | walk scheduler spine channel backlog bound =>
    exact walkStep_owes scheduler spine channel backlog bound
  | _ => exact Obeys.owes (Routine.Obeys.body ⟨Routine.fits_everything _, trivial⟩)

theorem Routine.body_steady (isWalk : routine.isWalk = true) : routine.body.Steady False := by
  cases routine with
  | walk scheduler spine channel backlog bound =>
    exact walkStep_steady scheduler spine channel backlog bound
  | _ => cases isWalk

/-! ## Threads -/

variable {ρ : Type} {owed : List Chore}

/-- What waits on a stack owes nothing. -/
def Stack.Owes (closing : Option Nat) : Stack ρ → Prop
  | .base next => ∀ value, (next value).Owes closing []
  | .nested next _ rest => (∀ value, (next value).Owes none []) ∧ rest.Owes closing

namespace Thread

/-- A thread first does the chores that the code it runs owes. -/
def Owes (closing : Option Nat) : List Chore → Thread ρ → Prop
  | owed, .running code => code.Owes closing owed
  | owed, .driving code _ stack => code.Owes none owed ∧ stack.Owes closing
  | owed, .settling _ _ stack => owed = [] ∧ stack.Owes closing

/-- The chores that a thread is about to do. -/
def chores : Thread ρ → List Chore
  | .running code => code.chores
  | .driving code _ _ => code.chores
  | .settling .. => []

/-- The action that a thread is about to perform. -/
def action? : Thread ρ → Option Action
  | .running (.act action _) => some action
  | .driving (.act action _) _ _ => some action
  | _ => none

variable {self : Nat} {thread next : Thread ρ} {store after : Store}
variable {chain : List Link} {stack : Stack ρ} {action : Action} {reply : action.Reply}

theorem Owes.chores_eq (owes : thread.Owes closing owed) : thread.chores = owed := by
  cases thread with
  | running code => exact Code.Owes.chores_eq owes
  | driving code chain stack => exact Code.Owes.chores_eq owes.1
  | settling value chain stack => exact owes.1.symm

/-- What a step of a thread does: it changes slots at most, or it performs an action.  The
action is a chore, or one that may bring chores, or the last of a daemon. -/
inductive Works (closing : Option Nat) (store : Store) (next : Thread ρ) :
    List Chore → Option Action → Store → Prop
  | quiet {slots : Array Slot}
      (owes : next.Owes closing []) :
      Works closing store next [] none { store with slots }
  | chore {action : Action} {chore : Chore} {rest : List Chore} {reply : action.Reply}
      {after : Store}
      (isChore : action.chore? = some chore)
      (performed : action.perform store = (some reply, after))
      (owes : next.Owes closing rest) :
      Works closing store next (chore :: rest) (some action) after
  | other {action : Action} {reply : action.Reply} {after : Store}
      (noChore : action.chore? = none)
      (goesOn : action.closes? = none)
      (performed : action.perform store = (some reply, after))
      (owes : next.Owes closing (action.brings reply)) :
      Works closing store next [] (some action) after
  | close {action : Action} {reply : action.Reply} {after : Store} {scheduler : Nat} {result : ρ}
      (closes : action.closes? = some scheduler)
      (isClosing : closing = some scheduler)
      (performed : action.perform store = (some reply, after))
      (next_eq : next = .running (.done result)) :
      Works closing store next [] (some action) after

/-- Whoever asks for a thunk owes nothing, and neither does whoever is answered. -/
theorem Owes.of_asks (owes : thread.Owes closing owed)
    (asks : thread.Asks thunk answered chain stack) :
    owed = [] ∧ thread.action? = none ∧ stack.Owes closing ∧
      ∀ value, (answered value).Owes closing [] := by
  cases asks with
  | follow thunk chain stack => exact ⟨owes.1.2, rfl, owes.2, fun _ => ⟨rfl, owes.2⟩⟩
  | evaluate context thunk next =>
    cases context with
    | top => exact ⟨owes.1, rfl, owes.2, owes.2⟩
    | link chain stack =>
      exact ⟨owes.1.1, rfl, ⟨owes.1.2, owes.2⟩, fun value => ⟨owes.1.2 value, owes.2⟩⟩

theorem works_act (owes : (Code.act action following).Owes closing owed)
    (performed : action.perform store = (some reply, after)) :
    Works closing store (running (following reply)) owed (some action) after := by
  cases owed with
  | cons chore rest => exact .chore owes.1 performed (owes.2 reply)
  | nil =>
    obtain ⟨noChore, ⟨goesOn, nexts⟩ | ⟨isSome, closes, nexts⟩⟩ := owes
    · exact .other noChore goesOn performed (nexts reply)
    · obtain ⟨scheduler, rfl⟩ := Option.isSome_iff_exists.mp isSome
      obtain ⟨result, next_eq⟩ := nexts reply
      exact .close closes rfl performed (congrArg _ next_eq)

/-- What an action of a computation does. -/
theorem works_act_link (owes : (driving (.act action following) chain stack).Owes closing owed)
    (performed : action.perform store = (some reply, after)) :
    Works closing store (driving (following reply) chain stack) owed (some action) after := by
  obtain ⟨codeOwes, stackOwes⟩ := owes
  cases owed with
  | cons chore rest => exact .chore codeOwes.1 performed ⟨codeOwes.2 reply, stackOwes⟩
  | nil =>
    obtain ⟨noChore, ⟨goesOn, nexts⟩ | ⟨⟨⟩, -⟩⟩ := codeOwes
    exact .other noChore goesOn performed ⟨nexts reply, stackOwes⟩

/-- A routine that is called goes on for the caller. -/
theorem Owes.of_call (owes : (Code.call routine following).Owes closing owed) :
    owed = [] ∧ (routine.body.bind following).Owes closing [] :=
  ⟨owes.1, routine.body_owes.bind (fun isSome => Routine.body_steady (owes.2.1 isSome)) owes.2.2⟩

theorem Owes.works (owes : thread.Owes closing owed)
    (moved : thread.step self store = (.moved next, after)) :
    Works closing store next owed thread.action? after := by
  cases steps_of_step moved with
  | act context performed =>
    cases context with
    | top => exact works_act owes performed
    | link chain stack => exact works_act_link owes performed
  | answer asks | cycle asks =>
    obtain ⟨rfl, quiet, -, answeredOwes⟩ := owes.of_asks asks
    rw [quiet]
    exact .quiet (answeredOwes _)
  | claim asks =>
    obtain ⟨rfl, quiet, stackOwes, -⟩ := owes.of_asks asks
    rw [quiet]
    exact .quiet ⟨Suspension.resume_owes _, stackOwes⟩
  | call context =>
    cases context with
    | top =>
      obtain ⟨rfl, goesOn⟩ := Owes.of_call owes
      exact .quiet goesOn
    | link chain stack =>
      obtain ⟨rfl, goesOn⟩ := Owes.of_call owes.1
      exact .quiet ⟨goesOn, owes.2⟩
  | breakOff =>
    obtain ⟨⟨-, rfl⟩, stackOwes⟩ := owes
    exact .quiet ⟨rfl, stackOwes⟩
  | settled value stack =>
    obtain ⟨rfl, stackOwes⟩ := owes
    cases stack with
    | base following => exact .quiet (stackOwes value)
    | nested following chain rest => exact .quiet ⟨stackOwes.1 value, stackOwes.2⟩
  | publish =>
    obtain ⟨rfl, stackOwes⟩ := owes
    exact .quiet ⟨rfl, stackOwes⟩

end Thread
end ByNeed
