import Mathlib.Data.List.Perm.Subperm
import ByNeed.Proofs.Daemons.Tending

/-!
# Starting a scheduler

A start swaps the queue out, launches and counts its daemons one after the other, and tells how many
there were; or it is refused.  Every step of a start is the next line of this script, whatever
others do, so no interleaving loses a daemon or runs one twice.
-/

namespace ByNeed

open List Option

open Roster (Incident)

/-- What a thread has done when it has done a chore. -/
def Chore.incident (number : Nat) : Chore → Incident
  | .launch scheduler daemon => .launched number scheduler daemon
  | .count scheduler => .counted number scheduler

/-- All that a start does, by the queue that it finds. -/
def Roster.startScript (number scheduler : Nat) : Option (List Daemon) → List Incident
  | none => [.refused number scheduler, .returned number scheduler none]
  | some queue =>
    .swapped number scheduler queue :: (queue.flatMap fun daemon =>
        [.launched number scheduler daemon, .counted number scheduler]) ++
      [.returned number scheduler (some queue.length)]

open Roster (startScript)

section Script

variable {number scheduler : Nat} {queue? : Option (List Daemon)} {own : List Incident}

theorem startScript_eq (number scheduler : Nat) (queue? : Option (List Daemon)) :
    startScript number scheduler queue? =
      queue?.elim (.refused number scheduler) (.swapped number scheduler) ::
        (queue?.elim [] (Chore.ofDaemons scheduler)).map (Chore.incident number) ++
        [.returned number scheduler (queue?.map List.length)] := by
  cases queue? with
  | none => rfl
  | some queue =>
    rw [startScript, elim_some, elim_some, Chore.ofDaemons, map_flatMap]
    rfl

/-- Code that does chores and nothing else before it has its result. -/
def Code.Concludes (count : Option Nat) : List Chore → Code (Option Nat) → Prop
  | [], .done result => result = count
  | chore :: rest, .act action next =>
    action.chore? = some chore ∧ ∀ reply, (next reply).Concludes count rest
  | _, _ => False

theorem launchAll_concludes (scheduler : Nat) (queue : List Daemon) (count : Option Nat) :
    ((launchAll scheduler queue).bind fun _ => .done count).Concludes count
      (Chore.ofDaemons scheduler queue) := by
  induction queue with
  | nil => rfl
  | cons daemon rest ih =>
    exact ⟨rfl, fun _ => ⟨rfl, fun _ => ih⟩⟩

/-- A thread that starts a scheduler, by what it has done for that already. -/
inductive Starting (number scheduler : Nat) : List Incident → Thread (Option Nat) → Prop
  | fresh : Starting number scheduler [] (.running (startScheduler scheduler))
  | underway {queue? : Option (List Daemon)} {own : List Incident} {chores : List Chore}
      {code : Code (Option Nat)}
      (script_eq : startScript number scheduler queue? =
        own ++ chores.map (Chore.incident number) ++
          [.returned number scheduler (queue?.map List.length)])
      (concludes : code.Concludes (queue?.map List.length) chores) :
      Starting number scheduler own (.running code)

theorem Starting.step (starting : Starting number scheduler own thread)
    (there : (store.queue? scheduler).isSome) :
    ∃ incident queue?,
      Task.incident? number store ⟨.startScheduler scheduler, thread⟩ =
        some incident ∧
      own ++ [incident] <+: startScript number scheduler queue? ∧
      ∀ {next after}, thread.step number store = (.moved next, after) →
        Starting number scheduler (own ++ [incident]) next := by
  cases starting with
  | fresh =>
    obtain ⟨queue?, found⟩ := isSome_iff_exists.mp there
    refine ⟨queue?.elim (.refused number scheduler) (.swapped number scheduler), queue?, ?_, ?_, ?_⟩
    · show (store.queue? scheduler).map _ = _
      rw [found, map_some]
    · rw [startScript_eq]
      exact ⟨_, rfl⟩
    · rintro next after ⟨⟩
      refine .underway (startScript_eq number scheduler queue?) ?_
      rw [Store.queue_scheduler found]
      cases queue? with
      | none => rfl
      | some queue => exact launchAll_concludes scheduler queue _
  | @underway queue? own chores code script_eq concludes =>
    cases chores with
    | nil =>
      cases code <;> try exact concludes.elim
      rename_i result
      obtain rfl : result = queue?.map List.length := concludes
      refine ⟨_, queue?, rfl, ?_, nofun⟩
      exact ⟨[], by simp [script_eq]⟩
    | cons chore rest =>
      cases code <;> try exact concludes.elim
      rename_i action following
      obtain ⟨isChore, goesOn⟩ := concludes
      replace script_eq : startScript number scheduler queue? =
          (own ++ [chore.incident number]) ++ rest.map (Chore.incident number) ++
            [.returned number scheduler (queue?.map List.length)] := by
        simpa using script_eq
      refine ⟨chore.incident number, queue?, ?_, ?_, ?_⟩
      · cases action <;> cases isChore
        · rfl
        · rename_i other
          have counts : .counted number other ∈ startScript number scheduler queue? := by
            simp [script_eq, Chore.incident]
          obtain rfl : other = scheduler := by
            cases queue? <;> simp [startScript] at counts
            exact counts.2
          obtain ⟨found, isQueue⟩ := isSome_iff_exists.mp there
          show (store.queue? other).map _ = _
          rw [isQueue]
          rfl
      · rw [script_eq, append_assoc]
        exact prefix_append _ _
      · intro next after moved
        cases action <;> cases isChore <;> cases moved <;>
          exact .underway script_eq (goesOn ())

end Script

/-! ## Threads -/

namespace Roster

/-- A scheduler that is there stays. -/
theorem Step.isSome_queue {roster next : Roster} (moves : roster.Step incident next)
    (there : (roster.queue scheduler).isSome) : (next.queue scheduler).isSome := by
  cases moves with
  | found | wait | swap =>
    simp only [Function.update_apply]
    split
    · rfl
    · exact there
  | _ => exact there

end Roster

/-- What a thread does is told of its number. -/
theorem Task.number_of_incident? {task : Task} {store : Store}
    (isIncident : task.incident? number store = some incident) : incident.number = number := by
  rw [incident?] at isIncident
  split at isIncident
  · rename_i action _
    cases action <;>
      simp only [Action.incident?, map_eq_some_iff, Option.some.injEq,
        reduceCtorEq] at isIncident
    · obtain ⟨_, -, rfl⟩ := isIncident
      rfl
    · obtain ⟨queue?, -, rfl⟩ := isIncident
      cases queue? <;> rfl
    · subst isIncident
      rfl
    all_goals
      obtain ⟨_, -, rfl⟩ := isIncident
      rfl
  · unfold returns? at isIncident
    split at isIncident <;> cases isIncident
    rfl

namespace Service

variable {service : Service} {number : Nat} {incident : Incident}

/-- What a shift can do to the thread under a number. -/
inductive Alters (service : Service) (shift : Shift) (number : Nat) : Option Task → Prop
  | same
      (others : ∀ incident, service.incident? shift = some incident → incident.number ≠ number) :
      Alters service shift number (service.tasks number)
  | moved {task : Task} {next : Thread task.request.Result} {after : Store}
      (isStep : shift = .make (.step number))
      (found : service.tasks number = some task)
      (stepped : task.thread.step number service.store = (.moved next, after)) :
      Alters service shift number (some { task with thread := next })
  | began {request : Request}
      (isStart : shift = .make (.start number request))
      (may : service.mayTend (.start number request) = true)
      (free : service.tasks number = none) :
      Alters service shift number (some { request, thread := .running request.code })
  | adopted (scheduler : Nat) (daemon : Daemon) :
      Alters service shift number
        (some { request := .serve scheduler daemon, thread := .running (daemon.code scheduler) })
  | gone : Alters service shift number none

/-- The thread under a number is changed, and nothing happens to others. -/
theorem Alters.of_setTask {shift : Shift} {task : Option Task} {changed : Nat} {store : Store}
    (own : service.Alters shift changed task)
    (told : ∀ incident, service.incident? shift = some incident → incident.number = changed)
    (number : Nat) :
    service.Alters shift number (({ service with store }.setTask changed task).tasks number) := by
  by_cases same : number = changed
  · subst same
    rw [tasks_setTask_self]
    exact own
  · rw [tasks_setTask_of_ne _ same]
    exact .same fun incident isIncident => told incident isIncident ▸ Ne.symm same

theorem alters_step (service : Service) (stepping number : Nat) :
    service.Alters (.make (.step stepping)) number
      ((service.move (.step stepping)).tasks number) := by
  rw [move]
  cases found : service.tasks stepping with
  | none =>
    refine .same fun incident isIncident => ?_
    rw [incident?, found] at isIncident
    cases isIncident
  | some task =>
    have told : ∀ incident, service.incident? (.make (.step stepping)) = some incident →
        incident.number = stepping := by
      intro incident isIncident
      rw [incident?, found, bind_some] at isIncident
      exact Task.number_of_incident? isIncident
    show service.Alters _ number ((service.afterStep stepping task _).tasks number)
    rcases stepped : task.thread.step stepping service.store with ⟨next | _ | outcome, after⟩
    · exact .of_setTask (.moved rfl found stepped) told number
    · refine .same fun incident isIncident => ?_
      rw [incident?, found, bind_some, Task.incident?_of_waiting stepped] at isIncident
      cases isIncident
    · exact .of_setTask .gone told number

theorem alters_start (service : Service) (starting number : Nat) (request : Request) :
    service.Alters (.make (.start starting request)) number
      ((service.tend (.make (.start starting request))).tasks number) := by
  have called : ∀ {incident}, service.incident? (.make (.start starting request)) = some incident →
      service.mayTend (.start starting request) = true ∧ service.tasks starting = none ∧
        request.thunks = [] ∧ incident.number = starting := by
    intro incident isIncident
    cases request with
    | startScheduler scheduler =>
      rw [incident?] at isIncident
      split at isIncident <;> cases isIncident
      rename_i may
      rw [Bool.and_eq_true, isNone_iff_eq_none] at may
      exact ⟨may.2, may.1, rfl, rfl⟩
    | _ => cases isIncident
  rw [tend, shiftIf]
  split
  · rename_i may
    rw [move]
    split
    · rename_i allowed
      rw [Bool.and_eq_true, isNone_iff_eq_none] at allowed
      exact .of_setTask (.began rfl may allowed.1) (fun _ isIncident => (called isIncident).2.2.2)
        number
    · rename_i refused
      refine .same fun incident isIncident => absurd ?_ refused
      obtain ⟨-, free, none_named, -⟩ := called isIncident
      rw [free, none_named]
      rfl
  · rename_i mayNot
    exact .same fun incident isIncident => absurd (called isIncident).1 mayNot

theorem alters (service : Service) (shift : Shift) (number : Nat) :
    service.Alters shift number ((service.tend shift).tasks number) := by
  cases shift with
  | make move =>
    cases move with
    | step stepping => exact service.alters_step stepping number
    | start starting request => exact service.alters_start starting number request
    | _ => exact .same fun incident isIncident => by cases isIncident
  | adopt place adopting =>
    rw [tend, shiftIf]
    rcases launched : service.store.launched[place]? with _ | ⟨scheduler, daemon⟩
    · exact .same fun incident isIncident => by simp [incident?, launched] at isIncident
    cases free : service.tasks adopting with
    | some task =>
      exact .same fun incident isIncident => by simp [incident?, launched, free] at isIncident
    | none =>
      refine .of_setTask (.adopted scheduler daemon) (fun incident isIncident => ?_) number
      rw [incident?, launched, free] at isIncident
      cases isIncident
      rfl

/-- Every thread that starts a scheduler was asked to, and has since followed the script. -/
def Starters (past : List Incident) (service : Service) : Prop :=
  ∀ number scheduler thread, service.tasks number = some ⟨.startScheduler scheduler, thread⟩ →
    (service.store.queue? scheduler).isSome ∧
      ∃ earlier since, past = earlier ++ .called number scheduler :: since ∧
        Starting number scheduler (since.filter (·.number = number)) thread

theorem Starters.tend {past : List Incident} (starters : Starters past service)
    (orderly : service.Orderly) (shift : Shift) :
    Starters (past ++ (service.incident? shift).toList) (service.tend shift) := by
  intro number scheduler thread found
  have stays : (service.store.queue? scheduler).isSome →
      ((service.tend shift).store.queue? scheduler).isSome :=
    Roster.Step.isSome_queue (orderly.tend shift).2
  have alters := service.alters shift number
  rw [found] at alters
  generalize task_eq : (some ⟨.startScheduler scheduler, thread⟩ : Option Task) = task? at alters
  cases alters with
  | same others =>
    obtain ⟨there, earlier, since, rfl, starting⟩ := starters _ _ _ task_eq.symm
    refine ⟨stays there, earlier, since ++ (service.incident? shift).toList, by simp, ?_⟩
    have none : (service.incident? shift).toList.filter (·.number = number) = [] := by
      simpa using others
    rw [filter_append, none, append_nil]
    exact starting
  | @moved task next after isStep before stepped =>
    obtain ⟨request, thread⟩ := task
    cases task_eq
    obtain ⟨there, earlier, since, rfl, starting⟩ := starters _ _ _ before
    obtain ⟨incident, -, isIncident, -, goesOn⟩ := starting.step there
    have number_eq := Task.number_of_incident? isIncident
    have incident_eq : service.incident? shift = some incident := by
      rw [isStep, incident?, before, bind_some, isIncident]
    refine ⟨stays there, earlier, since ++ [incident], by simp [incident_eq], ?_⟩
    rw [filter_append, filter_singleton]
    simpa [number_eq] using goesOn stepped
  | @began request isStart may free =>
    cases task_eq
    have there : (service.store.queue? scheduler).isSome := may
    have incident_eq : service.incident? shift = some (.called number scheduler) := by
      rw [isStart, incident?, free, there]
      rfl
    exact ⟨stays there, past, [], by rw [incident_eq, toList_some], .fresh⟩
  | _ => cases task_eq

theorem starters_tendAll (digest : List Piece → UInt64) (shifts : List Shift) :
    Starters ((initial digest).incidents shifts) ((initial digest).tendAll shifts) := by
  have keeps : ∀ {past : List Incident} {service : Service},
      Kept past service ∧ Starters past service → ∀ shift,
        Kept (past ++ (service.incident? shift).toList) (service.tend shift) ∧
          Starters (past ++ (service.incident? shift).toList) (service.tend shift) :=
    fun holds shift => ⟨holds.1.tend shift, holds.2.tend holds.1.orderly shift⟩
  exact (@tendAll_induction _ (fun past service => Kept past service ∧ Starters past service) keeps
    [] ⟨kept_initial digest, nofun⟩ shifts).2

/-- A step that performs an action changes the store as the action does. -/
theorem store_step_of_action? {thread : Thread ρ} (store : Store)
    (performs : thread.action? = some action) :
    (thread.step number store).2 = (action.perform store).2 := by
  cases thread using Thread.stepCases with
  | act context acts following =>
    have same : acts = action := by cases context <;> exact Option.some.inj performs
    subst same
    rw [Context.step_act]
    split <;> simp_all
  | ask asks =>
    cases asks with
    | follow thunk chain stack => cases performs
    | evaluate context thunk next => cases context <;> cases performs
  | call context routine following => cases context <;> cases performs
  | _ => cases performs

theorem store_tend_of_start {shift : Shift} {scheduler : Nat} {count : Option Nat}
    (isIncident : service.incident? shift = some incident)
    (isNote : incident ∈ [Incident.called number scheduler, .refused number scheduler,
      .returned number scheduler count]) : (service.tend shift).store = service.store := by
  cases shift with
  | adopt place number =>
    rw [incident?] at isIncident
    split at isIncident <;> cases isIncident
    simp at isNote
  | make move =>
    cases move with
    | start number request =>
      rw [tend, shiftIf]
      split
      · rw [Service.move]
        split <;> rfl
      · rfl
    | step number =>
      rw [incident?] at isIncident
      cases found : service.tasks number with
      | none => simp [found] at isIncident
      | some task =>
        rw [found, bind_some, Task.incident?] at isIncident
        have store_eq : (service.tend (.make (.step number))).store =
            (task.thread.step number service.store).2 := by
          show (service.move (.step number)).store = _
          rw [Service.move, found]
          show (service.afterStep number task _).store = _
          rcases task.thread.step number service.store with ⟨next | _ | outcome, after⟩ <;> rfl
        rw [store_eq]
        split at isIncident
        · rename_i action performs
          rw [store_step_of_action? service.store performs]
          cases action <;>
            simp only [Action.incident?, map_eq_some_iff, Option.some.injEq,
              reduceCtorEq] at isIncident
          · obtain ⟨_, -, rfl⟩ := isIncident
            simp at isNote
          · obtain ⟨queue?, isQueue, rfl⟩ := isIncident
            cases queue? with
            | none => exact Store.setScheduler_takeQueue (Store.queue_scheduler isQueue)
            | some queue => simp at isNote
          · subst isIncident
            simp at isNote
          all_goals
            obtain ⟨_, -, rfl⟩ := isIncident
            simp at isNote
        · unfold Task.returns? at isIncident
          split at isIncident
          · rfl
          · cases isIncident
    | _ => cases isIncident

end Service

open Roster

/-- Schedulers neither lose nor repeat daemons, whatever the order in which threads submit
daemons, start schedulers and run daemons.  After any shifts,

* every daemon that was submitted is queued, handed to a thread that will launch it, running or
  ended, and only one of these;
* no daemon has begun twice, and none begins that was not submitted or whose scheduler was not
  started;
* no scheduler has been started twice, and a start swaps out what was submitted, in order;
* the next step of a start is the next line of its script: it swaps the queue out, launches and
  counts the daemons in order and returns their number, or it is refused and returns none;
* a start that is called, refused or over changes nothing;
* a scheduler that was started has no queue. -/
theorem daemons_are_neither_lost_nor_repeated (digest : List Piece → UInt64)
    (shifts : List Shift) :
    let service := (Service.initial digest).tendAll shifts
    let past := (Service.initial digest).incidents shifts
    let chronicle := Chronicle.ofIncidents past
    (∀ entry ∈ chronicle.submitted, ∃! standing, service.roster.Stands chronicle entry standing) ∧
    chronicle.begun.Nodup ∧
    (∀ shift number scheduler daemon,
      service.incident? shift = some (.began number scheduler daemon) →
        (scheduler, daemon) ∈ chronicle.submitted ∧ scheduler ∈ chronicle.swapped) ∧
    chronicle.swapped.Nodup ∧
    (∀ shift number scheduler queue,
      service.incident? shift = some (.swapped number scheduler queue) →
        queue = chronicle.submittedTo scheduler) ∧
    (∀ number scheduler thread,
      service.tasks number = some ⟨.startScheduler scheduler, thread⟩ →
        ∃ earlier since incident queue?,
          past = earlier ++ .called number scheduler :: since ∧
          service.incident? (.make (.step number)) = some incident ∧
          since.filter (·.number = number) ++ [incident] <+:
            startScript number scheduler queue?) ∧
    (∀ shift number scheduler count incident,
      service.incident? shift = some incident →
      incident ∈ [Incident.called number scheduler, .refused number scheduler,
        .returned number scheduler count] →
      (service.tend shift).store = service.store) ∧
    ∀ scheduler ∈ chronicle.swapped, service.store.queue? scheduler = some none := by
  intro service past chronicle
  have kept := Service.kept_tendAll digest shifts
  have records := kept.records
  have exists_step : ∀ {shift incident}, service.incident? shift = some incident →
      ∃ next, service.roster.Step (some incident) next :=
    fun isIncident => ⟨_, isIncident ▸ (kept.orderly.tend _).2⟩
  refine ⟨fun entry isSubmitted => ?_, (List.nodup_append.mp
    records.launched_append_begun_nodup).2.1, ?_, records.swappedOnce, ?_, ?_, fun shift number
    scheduler count incident => Service.store_tend_of_start,
    fun scheduler => records.queue_eq_iff.mpr⟩
  · exact ⟨_, (records.stands_iff isSubmitted _).mpr rfl,
      fun standing stands => ((records.stands_iff isSubmitted standing).mp stands).symm⟩
  · intro shift number scheduler daemon isIncident
    obtain ⟨next, moves⟩ := exists_step isIncident
    cases moves with
    | begin launched free =>
      have isLaunched := records.mem_launched_iff.mpr (.inl (List.mem_of_getElem? launched))
      exact records.launched _ isLaunched
  · intro shift number scheduler queue isIncident
    obtain ⟨next, moves⟩ := exists_step isIncident
    cases moves with
    | swap waiting free =>
      have filed := records.filed scheduler
      rw [waiting] at filed
      exact filed.2
  · intro number scheduler thread found
    obtain ⟨there, earlier, since, past_eq, starting⟩ :=
      Service.starters_tendAll digest shifts _ _ _ found
    obtain ⟨incident, queue?, isIncident, follows, -⟩ := starting.step there
    refine ⟨earlier, since, incident, queue?, past_eq, ?_, follows⟩
    rw [Service.incident?, found, Option.bind_some, isIncident]

/-- A daemon is submitted, a start launches it, and it does its duty. -/
def talliedShifts : List Shift :=
  .make (.newScheduler 4 0) :: .make (.start 0 (.submit 0 (.tally false))) :: Shift.steps 0 2 ++
    .make (.start 1 (.startScheduler 0)) :: Shift.steps 1 4 ++ .adopt 0 2 :: Shift.steps 2 2

theorem tallied_daemon_stands_once :
    let past := (Service.initial fun _ => 0).incidents talliedShifts
    past = [.submitted 0 0 ⟨1, .tally false⟩, .called 1 0, .swapped 1 0 [⟨1, .tally false⟩],
        .launched 1 0 ⟨1, .tally false⟩, .counted 1 0, .returned 1 0 (some 1),
        .began 2 0 ⟨1, .tally false⟩, .ended 2 0 ⟨1, .tally false⟩] ∧
    ∃! standing, ((Service.initial fun _ => 0).tendAll talliedShifts).roster.Stands
      (.ofIncidents past) (0, ⟨1, .tally false⟩) standing :=
  ⟨rfl, (daemons_are_neither_lost_nor_repeated _ talliedShifts).1 _ List.mem_cons_self⟩

/-! ## Counters -/

/-- A daemon ends after it was launched, and it is counted as ended once.  So never more daemons
of a scheduler have ended than were launched.  The counters of a scheduler tell how often a daemon
was counted as started and how many have ended, so once every daemon that was launched is counted,
no more have finished or broken off than have started. -/
theorem ended_le_launched (digest : List Piece → UInt64) (shifts : List Shift) :
    let chronicle := Chronicle.ofIncidents ((Service.initial digest).incidents shifts)
    chronicle.ended.Nodup ∧
    chronicle.ended ⊆ chronicle.launched ∧
    ∀ scheduler,
      let state := ((Service.initial digest).tendAll shifts).store.scheduler scheduler
      let launched := (chronicle.launched.filter (·.1 = scheduler)).length
      let ended := (chronicle.ended.filter (·.1 = scheduler)).length
      ended ≤ launched ∧
      state.started = chronicle.counted.count scheduler ∧
      state.finished + state.brokenOff = ended ∧
      (launched ≤ chronicle.counted.count scheduler →
        state.finished + state.brokenOff ≤ state.started) := by
  intro chronicle
  have records := (Service.kept_tendAll digest shifts).records
  have subset : chronicle.ended ⊆ chronicle.launched := fun entry isEnded =>
    records.mem_launched_iff.mpr (.inr (records.ended entry isEnded))
  refine ⟨records.endedOnce, subset, ?_⟩
  intro scheduler state launched ended
  have ended_le : ended ≤ launched :=
    ((List.Nodup.subperm records.endedOnce subset).filter _).length_le
  obtain ⟨started_eq, ended_eq⟩ := Prod.mk.inj (records.tally_eq scheduler)
  refine ⟨ended_le, started_eq, ended_eq, fun allCounted => ?_⟩
  calc state.finished + state.brokenOff = ended := ended_eq
    _ ≤ launched := ended_le
    _ ≤ chronicle.counted.count scheduler := allCounted
    _ = state.started := started_eq.symm

/-- A daemon that does its duty after it was launched, and before it is counted as started. -/
def overtakingShifts : List Shift :=
  .make (.newScheduler 4 0) :: .make (.start 0 (.startScheduler 0)) :: Shift.steps 0 2 ++
    .make (.start 1 (.submit 0 (.tally false))) :: Shift.steps 1 2 ++ .adopt 0 2 :: Shift.steps 2 2

/-- Between the launch of a daemon and its being counted as started, the daemon may end. -/
theorem more_ended_than_started :
    let state := ((Service.initial fun _ => 0).tendAll overtakingShifts).store.scheduler 0
    state.finished = 1 ∧ state.brokenOff = 0 ∧ state.started = 0 :=
  ⟨rfl, rfl, rfl⟩

end ByNeed
