import ByNeed.Proofs.Daemons.Chores
import ByNeed.Proofs.Daemons.Roster
import ByNeed.Proofs.Rally.Company

/-!
# Threads that schedule daemons

Where daemons are tended, any number of threads work on one store, submit daemons, start schedulers
and serve other requests.  A daemon that was launched begins at any time later, on a thread of its
own.  Every shift is a step of the protocol of rosters, because every thread does the chores it
owes.
-/

namespace ByNeed

open Store Option

open Roster (Incident)

namespace Request

/-- The daemon that a thread with this request is. -/
def daemon? : Request → Option (Nat × Daemon)
  | .serve scheduler daemon => some (scheduler, daemon)
  | _ => none

/-- The scheduler that a request is about. -/
def scheduler? : Request → Option Nat
  | .submit scheduler _ => some scheduler
  | .startScheduler scheduler => some scheduler
  | .feed scheduler .. => some scheduler
  | _ => none

end Request

/-! ## Incidents -/

/-- The queue of a scheduler, if there is the scheduler; it has none once it is started. -/
def Store.queue? (store : Store) (scheduler : Nat) : Option (Option (List Daemon)) :=
  store.schedulers[scheduler]?.map (·.queue)

/-- What an action does to daemons and schedulers. -/
def Action.incident? (number : Nat) (store : Store)
    (self? : Option (Nat × Daemon)) : Action → Option Incident
  | .submit scheduler duty =>
    (store.queue? scheduler).map fun _ => .submitted number scheduler ⟨store.nextDaemon, duty⟩
  | .takeQueue scheduler =>
    (store.queue? scheduler).map fun queue =>
      queue.elim (.refused number scheduler) (.swapped number scheduler)
  | .launch scheduler daemon => some (.launched number scheduler daemon)
  | .countStarted scheduler => (store.queue? scheduler).map fun _ => .counted number scheduler
  | .countEnded _ _ => self?.map fun entry => .ended number entry.1 entry.2
  | _ => none

/-- Whether a thread has its result. -/
def Thread.isDone {ρ : Type} : Thread ρ → Bool
  | .running (.done _) => true
  | _ => false

theorem Thread.isDone_iff {ρ : Type} {thread : Thread ρ} :
    thread.isDone ↔ ∃ result, thread = .running (.done result) := by
  constructor
  · intro isOver
    unfold isDone at isOver
    split at isOver
    · exact ⟨_, rfl⟩
    · cases isOver
  · rintro ⟨result, rfl⟩
    rfl

namespace Task

/-- What a start that is over tells. -/
def returns? (number : Nat) : Task → Option Incident
  | ⟨.startScheduler scheduler, .running (.done count)⟩ => some (.returned number scheduler count)
  | _ => none

/-- What the next step of a thread does to daemons and schedulers. -/
def incident? (number : Nat) (store : Store) (task : Task) : Option Incident :=
  match task.thread.action? with
  | some action => action.incident? number store task.request.daemon?
  | none => task.returns? number

/-- The daemon that a thread is, until it has ended. -/
def serving (task : Task) : List (Nat × Daemon) :=
  if task.thread.isDone then [] else task.request.daemon?.toList

/-- The daemons that a thread has yet to launch. -/
def handed (task : Task) : List (Nat × Daemon) :=
  task.thread.chores.filterMap Chore.daemon?

end Task

namespace Service

/-- Whether a move may be made where daemons are tended.  Nobody becomes a daemon but by being
launched, and a request is about a scheduler that is there. -/
def mayTend (service : Service) : Move → Bool
  | .start _ request =>
    request.daemon?.isNone &&
      request.scheduler?.all fun scheduler => (service.store.queue? scheduler).isSome
  | _ => true

/-- Take a shift where daemons are tended. -/
def tend (service : Service) (shift : Shift) : Service :=
  service.shiftIf mayTend shift

/-- Take shifts in order. -/
def tendAll (service : Service) (shifts : List Shift) : Service :=
  shifts.foldl tend service

/-- What a shift does to daemons and schedulers. -/
def incident? (service : Service) : Shift → Option Incident
  | .make (.step number) =>
    (service.tasks number).bind fun task => task.incident? number service.store
  | .make (.start number (.startScheduler scheduler)) =>
    if (service.tasks number).isNone && (service.store.queue? scheduler).isSome then
      some (.called number scheduler)
    else
      none
  | .adopt place number =>
    match service.store.launched[place]?, service.tasks number with
    | some (scheduler, daemon), none => some (.began number scheduler daemon)
    | _, _ => none
  | _ => none

/-- The incidents of shifts, in order. -/
def incidents (service : Service) : List Shift → List Incident
  | [] => []
  | first :: shifts => (service.incident? first).toList ++ (service.tend first).incidents shifts

end Service

/-! ## Actions -/

section Actions

variable {store after : Store} {scheduler number : Nat}

/-- How many daemons a scheduler has counted as started, and as ended. -/
def Scheduler.tally (state : Scheduler) : Nat × Nat :=
  (state.started, state.finished + state.brokenOff)

/-- A roster with the queues, the launched daemons and the counters of a store. -/
def Store.roster (store : Store) (handed : Nat → List (Nat × Daemon))
    (serving : Nat → List (Nat × Daemon)) : Roster where
  queue := store.queue?
  handed
  launched := store.launched
  serving
  next := store.nextDaemon
  tally scheduler := (store.scheduler scheduler).tally

/-- A scheduler that is not there cannot be changed. -/
theorem Store.setScheduler_of_absent (absent : store.queue? scheduler = none) (state : Scheduler) :
    store.setScheduler scheduler state = store := by
  have outside : store.schedulers.size ≤ scheduler := by simpa [queue?] using absent
  rw [setScheduler, Array.setIfInBounds_eq_of_size_le outside]

variable {handed serving : Nat → List (Nat × Daemon)}
  {action : Action} {reply : action.Reply} {self? : Option (Nat × Daemon)}

theorem Store.setScheduler_takeQueue (started : (store.scheduler scheduler).queue = none) :
    store.setScheduler scheduler (store.scheduler scheduler).takeQueue.2 = store := by
  rw [Scheduler.takeQueue, ← started]
  exact store.setScheduler_scheduler scheduler

section

variable {queue : Option (List Daemon)} (found : store.queue? scheduler = some queue)

include found

theorem Store.queue_scheduler : (store.scheduler scheduler).queue = queue := by
  obtain ⟨state, isState, rfl⟩ := map_eq_some_iff.mp found
  rw [Store.scheduler, Array.getD_eq_getD_getElem?, isState, getD_some]

theorem Store.roster_setScheduler (state : Scheduler) :
    (store.setScheduler scheduler state).roster handed serving =
      { store.roster handed serving with
        queue := Function.update store.queue? scheduler (some state.queue)
        tally := Function.update (store.roster handed serving).tally scheduler state.tally } := by
  obtain ⟨_, isState, -⟩ := map_eq_some_iff.mp found
  have inside := (Array.getElem?_eq_some_iff.mp isState).1
  rw [roster, Roster.mk.injEq]
  refine ⟨funext fun other => ?_, rfl, rfl, rfl, rfl, funext fun other => ?_⟩ <;>
    by_cases same : scheduler = other
  · simp [queue?, setScheduler, inside, ← same]
  · simp [queue?, setScheduler, same, Ne.symm same]
  · simp [Store.scheduler, setScheduler, inside, ← same]
  · simp [roster, Store.scheduler, setScheduler, same, Ne.symm same]

/-- A scheduler that counts nothing. -/
theorem Store.roster_setScheduler_of_tally {state : Scheduler}
    (same : state.tally = (store.scheduler scheduler).tally) :
    (store.setScheduler scheduler state).roster handed serving =
      { store.roster handed serving with
        queue := Function.update store.queue? scheduler (some state.queue) } := by
  rw [roster_setScheduler found, same, Roster.mk.injEq]
  exact ⟨rfl, rfl, rfl, rfl, rfl, Function.update_eq_self ..⟩

end

/-- A scheduler that changes what it has counted. -/
theorem Store.roster_modifyScheduler (change : Scheduler → Scheduler)
    (recounts : Nat × Nat → Nat × Nat) (queue_eq : ∀ state, (change state).queue = state.queue)
    (tally_eq : ∀ state, (change state).tally = recounts state.tally) :
    (store.modifyScheduler scheduler change).roster handed serving =
      (store.roster handed serving).recount scheduler recounts := by
  rw [modifyScheduler, Roster.recount,
    show (store.roster handed serving).queue scheduler = store.queue? scheduler from rfl]
  cases found : store.queue? scheduler with
  | none => rw [setScheduler_of_absent found]; rfl
  | some queue =>
    have same : Function.update store.queue? scheduler (some queue) = store.queue? := by
      rw [← found, Function.update_eq_self]
    rw [roster_setScheduler found, queue_eq, tally_eq, queue_scheduler found, same]
    rfl

/-- Nothing happens to a thread that has no daemons to launch and gets none. -/
theorem Store.step_idle (same : after.roster handed serving = store.roster handed serving)
    (free : handed number = []) : (store.roster handed serving).Step none
      (after.roster (Function.update handed number []) serving) := by
  rw [Roster.update_of_free free, same]
  exact .idle

/-- A scheduler that is not there looks like one that is not started. -/
theorem Store.queue_scheduler_of_absent (absent : store.queue? scheduler = none) :
    (store.scheduler scheduler).queue = some [] := by
  have outside : store.schedulers.size ≤ scheduler := by simpa [queue?] using absent
  simp [Store.scheduler, outside]

/-- A daemon that is submitted joins the queue or is handed back. -/
theorem Store.step_submit (duty : Duty) (free : handed number = []) :
    (store.roster handed serving).Step ((Action.submit scheduler duty).incident? number store self?)
      ((store.submit scheduler duty).2.roster (Function.update handed number
          (((Action.submit scheduler duty).brings (store.submit scheduler duty).1).filterMap
            Chore.daemon?)) serving) := by
  have urgent_eq : (store.submit scheduler duty).1 =
      ((store.scheduler scheduler).submit ⟨store.nextDaemon, duty⟩).1 := rfl
  have after_eq : ∀ handed, (store.submit scheduler duty).2.roster handed serving =
      { (store.setScheduler scheduler
        ((store.scheduler scheduler).submit ⟨store.nextDaemon, duty⟩).2).roster handed serving with
        next := store.nextDaemon + 1 } := fun _ => rfl
  rw [Action.incident?]
  cases found : store.queue? scheduler with
  | none =>
    rw [Scheduler.submit, queue_scheduler_of_absent found] at urgent_eq
    rw [urgent_eq, after_eq, setScheduler_of_absent found, Action.brings, elim_none,
      List.filterMap_nil, Roster.update_of_free free]
    exact .skip
  | some queue =>
    rw [Scheduler.submit, queue_scheduler found] at urgent_eq after_eq
    cases queue with
    | none =>
      rw [urgent_eq, after_eq, setScheduler_scheduler]
      exact .hand found free
    | some queue =>
      rw [urgent_eq, after_eq, Action.brings, elim_none, List.filterMap_nil,
        Roster.update_of_free free]
      dsimp only
      rw [roster_setScheduler_of_tally found]
      · exact .wait number found
      · rfl

/-- A start swaps the queue out or finds it gone. -/
theorem Store.step_takeQueue (free : handed number = []) :
    (store.roster handed serving).Step ((Action.takeQueue scheduler).incident? number store self?)
      ((store.setScheduler scheduler (store.scheduler scheduler).takeQueue.2).roster
        (Function.update handed number
          (((Action.takeQueue scheduler).brings (store.scheduler scheduler).queue).filterMap
            Chore.daemon?)) serving) := by
  rw [Action.incident?]
  cases found : store.queue? scheduler with
  | none =>
    rw [setScheduler_of_absent found, queue_scheduler_of_absent found]
    exact step_idle rfl free
  | some queue =>
    rw [queue_scheduler found]
    cases queue with
    | none =>
      rw [Action.brings, elim_none, List.filterMap_nil, Roster.update_of_free free,
        setScheduler_takeQueue (queue_scheduler found)]
      exact .refuse number found
    | some queue =>
      rw [Action.brings, elim_some, Chore.filterMap_daemon?_ofDaemons,
        roster_setScheduler_of_tally found]
      · exact .swap found free
      · rfl

theorem Action.step_of_chore?_eq_none (noChore : action.chore? = none)
    (goesOn : action.closes? = none) (performed : action.perform store = (some reply, after))
    (free : handed number = []) :
    (store.roster handed serving).Step (action.incident? number store self?) (after.roster
        (Function.update handed number ((action.brings reply).filterMap Chore.daemon?))
        serving) := by
  cases action with
  | submit scheduler duty =>
    cases performed
    exact step_submit duty free
  | takeQueue scheduler =>
    cases performed
    exact step_takeQueue free
  | launch | countStarted => cases noChore
  | countEnded scheduler brokeOff => cases goesOn
  | countRun scheduler =>
    cases performed
    refine step_idle ?_ free
    exact (roster_modifyScheduler Scheduler.countRun id (fun _ => rfl) fun _ => rfl).trans
      (Roster.recount_id ..)
  | send | receive =>
    rw [perform] at performed
    split at performed <;> cases performed
    exact step_idle rfl free
  | define group index definition =>
    obtain ⟨groups, same, -⟩ := store.define_eq group index definition
    cases performed
    rw [same]
    exact step_idle rfl free
  | awaitBelow | awaitQuiet =>
    obtain ⟨-, rfl⟩ := Prod.mk.inj performed
    exact step_idle rfl free
  | _ =>
    cases performed
    exact step_idle rfl free

/-- A chore: the first daemon is launched, or one that was launched is counted. -/
theorem Action.step_of_chore {chore : Chore} {rest : List (Nat × Daemon)}
    (isChore : action.chore? = some chore) (performed : action.perform store = (some reply, after))
    (handed_eq : handed number = chore.daemon?.toList ++ rest) :
    (store.roster handed serving).Step (action.incident? number store self?)
      (after.roster (Function.update handed number rest) serving) := by
  cases action <;> cases isChore <;> cases performed
  · exact .launch handed_eq
  · rename_i scheduler
    have same : handed number = rest := handed_eq
    rw [← same, Function.update_eq_self, incident?]
    cases found : store.queue? scheduler with
    | none =>
      rw [modifyScheduler, setScheduler_of_absent found]
      exact .idle
    | some queue =>
      rw [roster_modifyScheduler Scheduler.countStarted (.map (· + 1) id)
        (fun _ => rfl) fun _ => rfl]
      exact .count number (by rw [show (store.roster handed serving).queue _ = _ from found]; rfl)

theorem Action.step_of_closes {entry : Nat × Daemon} (closes : action.closes? = some entry.1)
    (performed : action.perform store = (some reply, after)) (free : handed number = [])
    (isServing : serving number = [entry]) :
    (store.roster handed serving).Step (action.incident? number store (some entry))
      (after.roster (Function.update handed number []) (Function.update serving number [])) := by
  cases action <;> cases closes
  rename_i brokeOff
  cases performed
  rw [Roster.update_of_free free, roster_modifyScheduler _ (.map id (· + 1))]
  · exact @Roster.Step.finish (store.roster handed serving) number entry.1 entry.2 isServing
  · intro state
    cases brokeOff <;> rfl
  · intro state
    cases brokeOff
    · exact Prod.ext rfl (Nat.add_right_comm ..)
    · rfl

theorem Action.incident?_of_waiting (waits : action.perform store = (none, after)) :
    action.incident? number store self? = none := by
  cases action <;> first | rfl | cases waits

end Actions

/-! ## Threads -/

namespace Task

variable {task : Task} {owed : List Chore} {store after : Store} {number : Nat}

/-- A thread does its chores, or it was a daemon and has ended. -/
inductive Orderly (task : Task) : Prop
  | works {owed : List Chore}
      (owes : task.thread.Owes (task.request.daemon?.map Prod.fst) owed)
  | spent {entry : Nat × Daemon} {result : task.request.Result}
      (isDaemon : task.request.daemon? = some entry)
      (thread_eq : task.thread = .running (.done result))

section

variable (owes : task.thread.Owes (task.request.daemon?.map Prod.fst) owed)

include owes

theorem handed_eq : task.handed = owed.filterMap Chore.daemon? := by
  rw [handed, owes.chores_eq]

/-- A daemon that has yet to count itself as ended is at work. -/
theorem serving_eq : task.serving = task.request.daemon?.toList := by
  unfold serving
  split
  · rename_i isDone
    obtain ⟨result, thread_eq⟩ := Thread.isDone_iff.mp isDone
    rw [thread_eq] at owes
    rw [map_eq_none_iff.mp owes.1, toList_none]
  · rfl

end

theorem returns?_eq_none (goesOn : task.thread.isDone = false) : task.returns? number = none := by
  unfold returns?
  split
  · cases goesOn
  · rfl

theorem incident?_of_waiting (waits : task.thread.step number store = (.waiting, after)) :
    task.incident? number store = none := by
  obtain ⟨request, thread⟩ := task
  cases Thread.steps_of_step (show thread.step number store = _ from waits) with
  | block context performed => cases context <;> exact Action.incident?_of_waiting performed
  | busy asks =>
    cases asks with
    | follow thunk chain stack => exact returns?_eq_none rfl
    | evaluate context thunk next => cases context <;> exact returns?_eq_none rfl

/-- A thread that is over has no daemons to launch and is none. -/
theorem Orderly.of_finished (orderly : task.Orderly) {outcome : Except String task.request.Result}
    (finished : task.thread.step number store = (.finished outcome, after)) :
    after = store ∧ task.thread.action? = none ∧ task.handed = [] ∧ task.serving = [] := by
  cases orderly with
  | spent isDaemon thread_eq =>
    rw [thread_eq] at finished
    cases finished
    rw [handed, serving, thread_eq]
    exact ⟨rfl, rfl, rfl, rfl⟩
  | works owes =>
    rw [handed_eq owes, serving_eq owes]
    obtain ⟨request, thread⟩ := task
    cases Thread.steps_of_step (show thread.step number store = _ from finished) <;>
      obtain ⟨isNone, rfl⟩ := owes <;>
      exact ⟨rfl, rfl, rfl, congrArg _ (map_eq_none_iff.mp isNone)⟩

theorem step_returns? (roster : Roster) : roster.Step (task.returns? number) roster := by
  unfold returns?
  split
  · exact .giveBack ..
  · exact .idle

end Task

theorem Thread.isDone_of_moved {thread next : Thread ρ}
    (moved : thread.step number store = (.moved next, after)) : thread.isDone = false := by
  rw [Bool.eq_false_iff]
  intro isDone
  obtain ⟨result, rfl⟩ := isDone_iff.mp isDone
  cases moved

/-- A thread that begins to serve a request owes nothing. -/
theorem Request.code_owes {request : Request} (honest : request.daemon? = none) :
    request.code.Owes none [] := by
  cases request with
  | build expr scope => exact Code.Obeys.owes (build_keeps expr (expr.fits_everything scope.names))
  | call callee arguments => exact callee.call_owes arguments
  | force thunk => exact force_owes thunk
  | forceImpure thunk => exact Code.Obeys.owes (forceImpure_obeys thunk)
  | startScheduler scheduler => exact startScheduler_owes scheduler
  | submit scheduler duty => exact spawn_owes scheduler duty
  | feed scheduler elements failure => exact feed_owes scheduler elements failure
  | serve scheduler daemon => cases honest

/-! ## Services -/

namespace Service

variable {service : Service} {number : Nat} {task : Task} {owed : List Chore} {store after : Store}

/-- All threads of a service do their chores. -/
def Orderly (service : Service) : Prop :=
  ∀ number task, service.tasks number = some task → task.Orderly

/-- Where the daemons of a service are. -/
def roster (service : Service) : Roster :=
  service.store.roster (fun number => (service.tasks number).elim [] Task.handed)
    fun number => (service.tasks number).elim [] Task.serving

theorem tasks_setTask (service : Service) (number : Nat) (task : Option Task) :
    (service.setTask number task).tasks = Function.update service.tasks number task := by
  funext other
  simp [setTask, Function.update_apply]

theorem roster_setTask (service : Service) (number : Nat) (task : Option Task) :
    (service.setTask number task).roster =
      service.store.roster (Function.update service.roster.handed number (task.elim [] Task.handed))
        (Function.update service.roster.serving number (task.elim [] Task.serving)) := by
  rw [roster, tasks_setTask]
  exact congrArg₂ service.store.roster
    (Function.comp_update (Option.elim · [] Task.handed) service.tasks number task)
    (Function.comp_update (Option.elim · [] Task.serving) service.tasks number task)

theorem handed_roster (found : service.tasks number = some task) :
    service.roster.handed number = task.handed := by
  simp [roster, Store.roster, found]

theorem serving_roster (found : service.tasks number = some task) :
    service.roster.serving number = task.serving := by
  simp [roster, Store.roster, found]

theorem roster_of_free (free : service.tasks number = none) :
    service.roster.handed number = [] ∧ service.roster.serving number = [] := by
  simp [roster, Store.roster, free]

theorem Orderly.setTask (orderly : service.Orderly) {task : Option Task}
    (taskOrderly : ∀ set, task = some set → set.Orderly) :
    (service.setTask number task).Orderly := by
  rw [Orderly, tasks_setTask]
  exact (Function.forall_update_iff _
    fun _ task? => ∀ set : Task, task? = some set → set.Orderly).mpr
    ⟨taskOrderly, fun other _ => orderly other⟩

/-- A thread that is a daemon or none as before. -/
theorem roster_setTask_of_serving {next : Option Task}
    (same : next.elim [] Task.serving = service.roster.serving number) :
    ({ service with store }.setTask number next).roster =
      store.roster (Function.update service.roster.handed number (next.elim [] Task.handed))
        service.roster.serving := by
  rw [roster_setTask, same]
  exact congrArg _ (Function.update_eq_self number _)

/-- A thread that goes on with other chores. -/
theorem roster_setTask_of_owes {next : Thread task.request.Result} {owedNext : List Chore}
    (found : service.tasks number = some task)
    (owes : task.thread.Owes (task.request.daemon?.map Prod.fst) owed)
    (owesNext : next.Owes (task.request.daemon?.map Prod.fst) owedNext) :
    ({ service with store }.setTask number (some { task with thread := next })).roster =
      store.roster (Function.update service.roster.handed number (owedNext.filterMap Chore.daemon?))
        service.roster.serving := by
  have same : Task.serving { task with thread := next } = service.roster.serving number := by
    rw [Task.serving_eq owesNext, serving_roster found, Task.serving_eq owes]
  rw [@roster_setTask_of_serving _ _ _ (some _) same, elim_some, Task.handed_eq owesNext]

theorem roster_setTask_of_fresh {task : Task} (free : service.tasks number = none)
    (owes : task.thread.Owes (task.request.daemon?.map Prod.fst) []) :
    ({ service with store }.setTask number (some task)).roster = store.roster service.roster.handed
        (Function.update service.roster.serving number task.request.daemon?.toList) := by
  rw [roster_setTask, elim_some, elim_some, Task.serving_eq owes, Task.handed_eq owes]
  exact congrArg (store.roster · _) (Roster.update_of_free (roster_of_free free).1)

section

variable (orderly : task.Orderly) (found : service.tasks number = some task)

include orderly found

theorem step_of_moved {next : Thread task.request.Result}
    (moved : task.thread.step number service.store = (.moved next, after)) :
    Task.Orderly { task with thread := next } ∧
      service.roster.Step (task.incident? number service.store)
        ({ service with store := after }.setTask number
          (some { task with thread := next })).roster := by
  have goesOn := Thread.isDone_of_moved moved
  cases orderly with
  | spent isDaemon thread_eq =>
    rw [thread_eq] at goesOn
    cases goesOn
  | @works owed owes =>
    have handed_eq : service.roster.handed number = owed.filterMap Chore.daemon? := by
      rw [handed_roster found, Task.handed_eq owes]
    have works := owes.works moved
    rw [Task.incident?, Task.returns?_eq_none goesOn]
    generalize task.thread.action? = action? at works
    cases works with
    | quiet owesNext =>
      rw [roster_setTask_of_owes found owes owesNext]
      exact ⟨.works owesNext, step_idle rfl handed_eq⟩
    | @chore action chore rest reply after isChore performed owesNext =>
      rw [roster_setTask_of_owes found owes owesNext]
      refine ⟨.works owesNext, Action.step_of_chore isChore performed (handed_eq.trans ?_)⟩
      cases chore <;> rfl
    | other noChore staysOpen performed owesNext =>
      rw [roster_setTask_of_owes found owes owesNext]
      exact ⟨.works owesNext, Action.step_of_chore?_eq_none noChore staysOpen performed handed_eq⟩
    | close closes isClosing performed next_eq =>
      obtain ⟨entry, isDaemon, rfl⟩ := map_eq_some_iff.mp isClosing
      subst next_eq
      have isServing : service.roster.serving number = [entry] := by
        rw [serving_roster found, Task.serving_eq owes, isDaemon, toList_some]
      refine ⟨.spent isDaemon rfl, ?_⟩
      rw [roster_setTask, isDaemon]
      exact Action.step_of_closes closes performed handed_eq isServing

/-- A thread that is over gives its number back. -/
theorem step_of_finished {outcome : Except String task.request.Result}
    (finished : task.thread.step number service.store = (.finished outcome, after)) :
    service.roster.Step (task.incident? number service.store)
      ({ service with store := after }.setTask number none).roster := by
  obtain ⟨rfl, quiet, noneHanded, noneServing⟩ := orderly.of_finished finished
  have same : (none : Option Task).elim [] Task.serving = service.roster.serving number := by
    rw [serving_roster found, noneServing, elim_none]
  rw [Task.incident?, quiet, roster_setTask_of_serving same, elim_none,
    Roster.update_of_free ((handed_roster found).trans noneHanded)]
  exact Task.step_returns? _

end

/-! ## Shifts -/

section

variable (orderly : service.Orderly)

include orderly

theorem Orderly.step (number : Nat) :
    (service.move (.step number)).Orderly ∧
      service.roster.Step (service.incident? (.make (.step number)))
        (service.move (.step number)).roster := by
  rw [move, incident?]
  cases found : service.tasks number with
  | none => exact ⟨orderly, .idle⟩
  | some task =>
    have taskOrderly := orderly number task found
    show (service.afterStep number task _).Orderly ∧
      service.roster.Step (task.incident? number service.store)
        (service.afterStep number task _).roster
    rcases stepped : task.thread.step number service.store with ⟨next | _ | outcome, after⟩
    · obtain ⟨nextOrderly, moves⟩ := step_of_moved taskOrderly found stepped
      refine ⟨Orderly.setTask orderly ?_, moves⟩
      rintro _ ⟨⟩
      exact nextOrderly
    · rw [Task.incident?_of_waiting stepped]
      cases Thread.eq_of_waiting stepped
      exact ⟨orderly, .idle⟩
    · refine ⟨Orderly.setTask orderly ?_, step_of_finished taskOrderly found stepped⟩
      rintro _ ⟨⟩

omit orderly in
theorem step_incident?_start (roster : Roster) (request : Request) :
    roster.Step (service.incident? (.make (.start number request))) roster := by
  cases request with
  | startScheduler scheduler =>
    rw [incident?]
    split
    · exact .call ..
    · exact .idle
  | _ => exact .idle

theorem Orderly.start {request : Request} (may : service.mayTend (.start number request) = true) :
    (service.move (.start number request)).Orderly ∧
      service.roster.Step (service.incident? (.make (.start number request)))
        (service.move (.start number request)).roster := by
  rw [move]
  split
  · rename_i allowed
    rw [Bool.and_eq_true, isNone_iff_eq_none] at allowed
    rw [mayTend, Bool.and_eq_true, isNone_iff_eq_none] at may
    have owes : (Thread.running request.code).Owes (request.daemon?.map Prod.fst) [] := by
      rw [may.1]
      exact Request.code_owes may.1
    constructor
    · refine Orderly.setTask orderly ?_
      rintro _ ⟨⟩
      exact .works owes
    · rw [@roster_setTask_of_fresh service number service.store ⟨request, _⟩ allowed.1 owes, may.1,
        toList_none, Roster.update_of_free (roster_of_free allowed.1).2]
      exact step_incident?_start _ request
  · exact ⟨orderly, step_incident?_start _ request⟩

theorem Orderly.adopt (place number : Nat) :
    (service.tend (.adopt place number)).Orderly ∧
      service.roster.Step (service.incident? (.adopt place number))
        (service.tend (.adopt place number)).roster := by
  rw [tend, shiftIf, incident?]
  rcases launched : service.store.launched[place]? with _ | ⟨scheduler, daemon⟩
  · exact ⟨orderly, .idle⟩
  cases free : service.tasks number with
  | some task => exact ⟨orderly, .idle⟩
  | none =>
    have owes : (Thread.running (daemon.code scheduler)).Owes (some scheduler) [] :=
      Daemon.code_owes scheduler daemon
    show ((service.withdraw place).begin number scheduler daemon).Orderly ∧
      service.roster.Step (some (.began number scheduler daemon))
        ((service.withdraw place).begin number scheduler daemon).roster
    constructor
    · refine @Orderly.setTask (service.withdraw place) number orderly _ ?_
      rintro _ ⟨⟩
      exact .works owes
    · rw [begin, withdraw,
        @roster_setTask_of_fresh service number _ ⟨.serve scheduler daemon, _⟩ free owes]
      exact .begin launched (roster_of_free free).2

omit orderly in
/-- A scheduler that is made is not started. -/
theorem queue?_newScheduler (store : Store) (capacity stackSize : Nat) :
    (store.newScheduler capacity stackSize).2.queue? =
      Function.update store.queue? store.schedulers.size (some (some [])) := by
  funext scheduler
  by_cases same : scheduler = store.schedulers.size
  · subst same
    simp [Store.queue?, Store.newScheduler]
  · simp [Store.queue?, Store.newScheduler, same, Array.getElem?_push]

omit orderly in
theorem tally_newScheduler (store : Store) (capacity stackSize scheduler : Nat) :
    ((store.newScheduler capacity stackSize).2.scheduler scheduler).tally =
      (store.scheduler scheduler).tally := by
  by_cases same : scheduler = store.schedulers.size
  · subst same
    simp [Store.scheduler, Store.newScheduler, Scheduler.tally]
  · simp [Store.scheduler, Store.newScheduler, same, Array.getElem?_push]

/-- Every shift keeps the threads in order, and is a step of the protocol. -/
theorem Orderly.tend (shift : Shift) :
    (service.tend shift).Orderly ∧
      service.roster.Step (service.incident? shift) (service.tend shift).roster := by
  cases shift with
  | adopt place number => exact orderly.adopt place number
  | make move =>
    rw [Service.tend, shiftIf]
    split
    · rename_i may
      cases move with
      | step number => exact orderly.step number
      | start number request => exact orderly.start may
      | newScheduler capacity stackSize =>
        refine ⟨orderly, ?_⟩
        have roster_eq : (service.move (.newScheduler capacity stackSize)).roster = _ :=
          (Roster.mk.injEq ..).mpr ⟨queue?_newScheduler service.store capacity stackSize,
            rfl, rfl, rfl, rfl, funext (tally_newScheduler service.store capacity stackSize)⟩
        rw [roster_eq]
        refine .found ?_
        simp [roster, Store.roster, Store.queue?]
      | installRally scheduler => exact ⟨orderly, .idle⟩
    · cases move with
      | start number request => exact ⟨orderly, step_incident?_start _ request⟩
      | _ => exact absurd rfl ‹_›

end

theorem tendAll_induction {invariant : List Incident → Service → Prop}
    (keeps : ∀ {past : List Incident} {service : Service}, invariant past service →
      ∀ shift, invariant (past ++ (service.incident? shift).toList) (service.tend shift))
    {past : List Incident} (holds : invariant past service) (shifts : List Shift) :
    invariant (past ++ service.incidents shifts) (service.tendAll shifts) := by
  induction shifts generalizing service past with
  | nil =>
    rw [incidents, List.append_nil]
    exact holds
  | cons first shifts ih =>
    rw [incidents, ← List.append_assoc]
    exact ih (keeps holds first)

/-- A service is in order, and the daemons are where the incidents of the past have left them. -/
structure Kept (past : List Incident) (service : Service) : Prop where
  orderly : service.Orderly
  records : Roster.Records (.ofIncidents past) service.roster

theorem Kept.tend {past : List Incident} (kept : Kept past service) (shift : Shift) :
    Kept (past ++ (service.incident? shift).toList) (service.tend shift) :=
  ⟨(kept.orderly.tend shift).1,
    Roster.Chronicle.ofIncidents_append past _ ▸ kept.records.step (kept.orderly.tend shift).2⟩

theorem kept_initial (digest : List Piece → UInt64) : Kept [] (initial digest) where
  orderly := nofun
  records := Roster.records_empty (fun _ => rfl) (fun _ => rfl) rfl (fun _ => rfl) fun _ => rfl

/-- What has happened tells where the daemons are, whatever the order of the shifts. -/
theorem kept_tendAll (digest : List Piece → UInt64) (shifts : List Shift) :
    Kept ((initial digest).incidents shifts) ((initial digest).tendAll shifts) :=
  tendAll_induction Kept.tend (kept_initial digest) shifts

end Service
end ByNeed
