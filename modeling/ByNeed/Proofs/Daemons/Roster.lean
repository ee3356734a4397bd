import Mathlib.Data.List.Nodup
import Mathlib.Logic.Function.Basic
import ByNeed.Daemon.Scheduler

/-!
# The protocol of daemons and schedulers

A roster says where the daemons are: queued, handed to a thread that has yet to launch them,
launched, or at work.  `Roster.Step` is the protocol by which they move, and each step has its
incident.  `Records` ties a roster to the chronicle of what has happened, so where a daemon is can
be told from what happened to it, and it never goes back.
-/

namespace ByNeed

/-- Where daemons are. -/
structure Roster where
  /-- The queue of each scheduler there is; a scheduler that was started has none. -/
  queue : Nat → Option (Option (List Daemon))
  /-- The daemons that each thread has yet to launch, with their schedulers. -/
  handed : Nat → List (Nat × Daemon)
  /-- The daemons that are launched and have not begun. -/
  launched : List (Nat × Daemon)
  /-- The daemon that each thread is, if it is one. -/
  serving : Nat → List (Nat × Daemon)
  /-- The number of the next daemon. -/
  next : Nat
  /-- How many daemons each scheduler has counted as started, and as ended. -/
  tally : Nat → Nat × Nat

namespace Roster

variable {scheduler other : Nat} {α : Type}

/-- What happens to daemons and schedulers, and on which thread. -/
inductive Incident where
  /-- A daemon is submitted. -/
  | submitted (number scheduler : Nat) (daemon : Daemon)
  /-- A thread is asked to start a scheduler. -/
  | called (number scheduler : Nat)
  /-- A start swaps the queue out. -/
  | swapped (number scheduler : Nat) (queue : List Daemon)
  /-- A start finds that there is no queue any more. -/
  | refused (number scheduler : Nat)
  /-- A daemon is launched. -/
  | launched (number scheduler : Nat) (daemon : Daemon)
  /-- A daemon is counted as started. -/
  | counted (number scheduler : Nat)
  /-- A start is over, and tells how many daemons it found. -/
  | returned (number scheduler : Nat) (count : Option Nat)
  /-- The thread of a daemon begins. -/
  | began (number scheduler : Nat) (daemon : Daemon)
  /-- A daemon is counted as ended. -/
  | ended (number scheduler : Nat) (daemon : Daemon)
  deriving DecidableEq

/-- The thread of an incident. -/
def Incident.number : Incident → Nat
  | submitted number .. | called number _ | swapped number .. | refused number _
  | launched number .. | counted number _ | returned number .. | began number ..
  | ended number .. => number

/-- What has happened to daemons, in order. -/
structure Chronicle where
  submitted : List (Nat × Daemon) := []
  /-- The schedulers whose queues were swapped out. -/
  swapped : List Nat := []
  launched : List (Nat × Daemon) := []
  /-- The schedulers that counted a daemon as started. -/
  counted : List Nat := []
  begun : List (Nat × Daemon) := []
  ended : List (Nat × Daemon) := []

namespace Chronicle

def add (chronicle : Chronicle) : Incident → Chronicle
  | .submitted _ scheduler daemon =>
    { chronicle with submitted := chronicle.submitted ++ [(scheduler, daemon)] }
  | .swapped _ scheduler _ => { chronicle with swapped := chronicle.swapped ++ [scheduler] }
  | .launched _ scheduler daemon =>
    { chronicle with launched := chronicle.launched ++ [(scheduler, daemon)] }
  | .counted _ scheduler => { chronicle with counted := chronicle.counted ++ [scheduler] }
  | .began _ scheduler daemon =>
    { chronicle with begun := chronicle.begun ++ [(scheduler, daemon)] }
  | .ended _ scheduler daemon =>
    { chronicle with ended := chronicle.ended ++ [(scheduler, daemon)] }
  | _ => chronicle

/-- The chronicle of incidents. -/
def ofIncidents (past : List Incident) : Chronicle :=
  past.foldl add {}

theorem ofIncidents_append (past : List Incident) (incident : Option Incident) :
    ofIncidents (past ++ incident.toList) =
      incident.elim (ofIncidents past) (ofIncidents past).add := by
  cases incident <;> simp [ofIncidents]

/-- The daemons submitted to a scheduler, in order. -/
def submittedTo (chronicle : Chronicle) (scheduler : Nat) : List Daemon :=
  (chronicle.submitted.filter (·.1 = scheduler)).map Prod.snd

theorem mem_submittedTo {chronicle : Chronicle} :
    daemon ∈ chronicle.submittedTo scheduler ↔ (scheduler, daemon) ∈ chronicle.submitted := by
  simp [submittedTo]

theorem submittedTo_add (chronicle : Chronicle) (number scheduler other : Nat) (daemon : Daemon) :
    (chronicle.add (.submitted number scheduler daemon)).submittedTo other =
      chronicle.submittedTo other ++ if scheduler = other then [daemon] else [] := by
  by_cases same : scheduler = other <;> simp [submittedTo, add, same]

theorem map_submittedTo (chronicle : Chronicle) (scheduler : Nat) :
    (chronicle.submittedTo scheduler).map (scheduler, ·) =
      chronicle.submitted.filter (·.1 = scheduler) := by
  rw [submittedTo, List.map_map]
  conv_rhs => rw [← List.map_id (chronicle.submitted.filter _)]
  refine List.map_congr_left fun entry mem => ?_
  exact Prod.ext (of_decide_eq_true (List.mem_filter.mp mem).2).symm rfl

end Chronicle

/-- Change what a scheduler has counted, if it is there. -/
def recount (roster : Roster) (scheduler : Nat) (change : Nat × Nat → Nat × Nat) : Roster :=
  { roster with
    tally :=
      if (roster.queue scheduler).isSome then
        Function.update roster.tally scheduler (change (roster.tally scheduler))
      else
        roster.tally }

theorem recount_id (roster : Roster) (scheduler : Nat) : roster.recount scheduler id = roster := by
  rw [recount, id, Function.update_eq_self, ite_self]

/-- What can happen to daemons. -/
inductive Step (roster : Roster) : Option Incident → Roster → Prop
  | idle : Step roster none roster
  /-- A number is given to a daemon that nobody keeps. -/
  | skip : Step roster none { roster with next := roster.next + 1 }
  /-- A scheduler is made. -/
  | found {scheduler : Nat}
      (absent : roster.queue scheduler = none) :
      Step roster none
        { roster with queue := Function.update roster.queue scheduler (some (some [])) }
  /-- A daemon is submitted and joins the queue. -/
  | wait (number : Nat) {scheduler : Nat} {duty : Duty} {queue : List Daemon}
      (waiting : roster.queue scheduler = some (some queue)) :
      Step roster (some (.submitted number scheduler ⟨roster.next, duty⟩))
        { roster with
          queue := Function.update roster.queue scheduler
            (some (some (queue ++ [⟨roster.next, duty⟩])))
          next := roster.next + 1 }
  /-- A daemon is submitted and has to be launched at once. -/
  | hand {number scheduler : Nat} {duty : Duty}
      (taken : roster.queue scheduler = some none)
      (free : roster.handed number = []) :
      Step roster (some (.submitted number scheduler ⟨roster.next, duty⟩))
        { roster with
          handed := Function.update roster.handed number [(scheduler, ⟨roster.next, duty⟩)]
          next := roster.next + 1 }
  | call (number scheduler : Nat) : Step roster (some (.called number scheduler)) roster
  /-- A start swaps the queue out and has to launch what was in it. -/
  | swap {number scheduler : Nat} {queue : List Daemon}
      (waiting : roster.queue scheduler = some (some queue))
      (free : roster.handed number = []) :
      Step roster (some (.swapped number scheduler queue))
        { roster with
          queue := Function.update roster.queue scheduler (some none)
          handed := Function.update roster.handed number (queue.map (scheduler, ·)) }
  | refuse (number : Nat) {scheduler : Nat}
      (taken : roster.queue scheduler = some none) :
      Step roster (some (.refused number scheduler)) roster
  /-- A thread launches the first of the daemons it has to launch. -/
  | launch {number scheduler : Nat} {daemon : Daemon} {rest : List (Nat × Daemon)}
      (handed : roster.handed number = (scheduler, daemon) :: rest) :
      Step roster (some (.launched number scheduler daemon))
        { roster with
          handed := Function.update roster.handed number rest
          launched := roster.launched ++ [(scheduler, daemon)] }
  | count (number : Nat) {scheduler : Nat}
      (there : (roster.queue scheduler).isSome) :
      Step roster (some (.counted number scheduler))
        (roster.recount scheduler (.map (· + 1) id))
  | giveBack (number scheduler : Nat) (count : Option Nat) :
      Step roster (some (.returned number scheduler count)) roster
  /-- A daemon that was launched begins on a thread of its own. -/
  | begin {place number scheduler : Nat} {daemon : Daemon}
      (launched : roster.launched[place]? = some (scheduler, daemon))
      (free : roster.serving number = []) :
      Step roster (some (.began number scheduler daemon))
        { roster with
          launched := roster.launched.eraseIdx place
          serving := Function.update roster.serving number [(scheduler, daemon)] }
  /-- A daemon ends. -/
  | finish {number scheduler : Nat} {daemon : Daemon}
      (serving : roster.serving number = [(scheduler, daemon)]) :
      Step roster (some (.ended number scheduler daemon))
        ({ roster with serving := Function.update roster.serving number [] }.recount scheduler
          (.map id (· + 1)))

/-! ## Things in places -/

section Spread

variable {α : Type} {places : Nat → List α} {kind : α → Prop} {place : Nat} {thing : α}
  {given rest : List α}

/-- Just the things of a kind are spread over places, each at one place and there once. -/
structure Spread (places : Nat → List α) (kind : α → Prop) : Prop where
  mem_iff : ∀ thing, (∃ place, thing ∈ places place) ↔ kind thing
  nodup : ∀ place, (places place).Nodup
  unique : ∀ {thing place other}, thing ∈ places place → thing ∈ places other → place = other

theorem Spread.congr (spread : Spread places kind) (iff : ∀ thing, kind thing ↔ same thing) :
    Spread places same :=
  { spread with mem_iff := fun thing => (spread.mem_iff thing).trans (iff thing) }

theorem mem_update :
    thing ∈ Function.update places place given other ↔
      other = place ∧ thing ∈ given ∨ other ≠ place ∧ thing ∈ places other := by
  by_cases same : other = place
  · subst same
    simp
  · simp [same]

theorem update_of_free (free : places place = []) : Function.update places place [] = places := by
  rw [← free, Function.update_eq_self]

theorem nodup_update (nodup : ∀ place, (places place).Nodup) (givenOnce : given.Nodup)
    (other : Nat) : (Function.update places place given other).Nodup := by
  by_cases same : other = place
  · subst same
    simpa using givenOnce
  · simpa [same] using nodup other

theorem Spread.put (spread : Spread places kind) (free : places place = [])
    (givenOnce : given.Nodup) (new : ∀ thing ∈ given, ¬kind thing) :
    Spread (Function.update places place given) fun thing => thing ∈ given ∨ kind thing where
  mem_iff thing := by
    simp only [mem_update, ← spread.mem_iff]
    constructor
    · rintro ⟨other, ⟨-, mem⟩ | ⟨-, mem⟩⟩
      · exact .inl mem
      · exact .inr ⟨other, mem⟩
    · rintro (mem | ⟨other, mem⟩)
      · exact ⟨place, .inl ⟨rfl, mem⟩⟩
      · refine ⟨other, .inr ⟨?_, mem⟩⟩
        rintro rfl
        simp [free] at mem
  nodup := nodup_update spread.nodup givenOnce
  unique := by
    intro thing one other mem memberToo
    have elsewhere : ∀ {other}, thing ∈ given → thing ∉ places other := fun isGiven mem =>
      new thing isGiven ((spread.mem_iff thing).mp ⟨_, mem⟩)
    rcases mem_update.mp mem with ⟨rfl, isGiven⟩ | ⟨-, before⟩ <;>
      rcases mem_update.mp memberToo with ⟨rfl, isGivenToo⟩ | ⟨-, beforeToo⟩
    · rfl
    · exact absurd beforeToo (elsewhere isGiven)
    · exact absurd before (elsewhere isGivenToo)
    · exact spread.unique before beforeToo

theorem Spread.take (spread : Spread places kind) (first : places place = thing :: rest) :
    Spread (Function.update places place rest) fun other => kind other ∧ other ≠ thing := by
  have has : thing ∈ places place := first ▸ List.mem_cons_self
  have once := spread.nodup place
  rw [first, List.nodup_cons] at once
  have mem_iff : ∀ {found other}, found ∈ Function.update places place rest other ↔
      found ∈ places other ∧ found ≠ thing := by
    intro found other
    rw [mem_update]
    constructor
    · rintro (⟨rfl, mem⟩ | ⟨ne, mem⟩)
      · exact ⟨first ▸ List.mem_cons_of_mem _ mem, fun same => once.1 (same ▸ mem)⟩
      · exact ⟨mem, fun same => ne (spread.unique (same ▸ mem) has)⟩
    · rintro ⟨mem, isOther⟩
      by_cases same : other = place
      · subst same
        rw [first] at mem
        exact .inl ⟨rfl, (List.mem_cons.mp mem).resolve_left isOther⟩
      · exact .inr ⟨same, mem⟩
  refine ⟨fun found => ?_, nodup_update spread.nodup once.2, fun mem memberToo => ?_⟩
  · simp only [mem_iff, exists_and_right, spread.mem_iff]
  · exact spread.unique (mem_iff.mp mem).1 (mem_iff.mp memberToo).1

end Spread

/-! ## Records -/

/-- The queue of a scheduler holds what was submitted, up to the swap. -/
def Filed (chronicle : Chronicle) (scheduler : Nat) : Option (Option (List Daemon)) → Prop
  | none => scheduler ∉ chronicle.swapped ∧ chronicle.submittedTo scheduler = []
  | some (some queue) => scheduler ∉ chronicle.swapped ∧ queue = chronicle.submittedTo scheduler
  | some none => scheduler ∈ chronicle.swapped

/-- A roster is as what has happened has left it. -/
structure Records (chronicle : Chronicle) (roster : Roster) : Prop where
  fresh : ∀ entry ∈ chronicle.submitted, entry.2.number < roster.next
  submittedOnce : chronicle.submitted.Nodup
  swappedOnce : chronicle.swapped.Nodup
  launchedOnce : chronicle.launched.Nodup
  endedOnce : chronicle.ended.Nodup
  filed : ∀ scheduler, Filed chronicle scheduler (roster.queue scheduler)
  handed : Spread roster.handed fun entry =>
    (entry ∈ chronicle.submitted ∧ entry.1 ∈ chronicle.swapped) ∧ entry ∉ chronicle.launched
  serving : Spread roster.serving fun entry => entry ∈ chronicle.begun ∧ entry ∉ chronicle.ended
  launched : ∀ entry ∈ chronicle.launched, entry ∈ chronicle.submitted ∧ entry.1 ∈ chronicle.swapped
  begun : chronicle.launched.Perm (roster.launched ++ chronicle.begun)
  ended : ∀ entry ∈ chronicle.ended, entry ∈ chronicle.begun
  tally_eq : ∀ scheduler, roster.tally scheduler =
    (chronicle.counted.count scheduler, (chronicle.ended.filter (·.1 = scheduler)).length)

/-- Where nothing has happened there are no daemons. -/
theorem records_empty (noQueue : ∀ scheduler, roster.queue scheduler = none)
    (noneHanded : ∀ number, roster.handed number = []) (noneLaunched : roster.launched = [])
    (noneServing : ∀ number, roster.serving number = [])
    (noneCounted : ∀ scheduler, roster.tally scheduler = (0, 0)) : Records {} roster := by
  constructor <;> simp [noQueue, Filed, Chronicle.submittedTo, noneLaunched, noneCounted]
  · exact ⟨by simp [noneHanded], by simp [noneHanded], by simp [noneHanded]⟩
  · exact ⟨by simp [noneServing], by simp [noneServing], by simp [noneServing]⟩

namespace Records

variable {chronicle : Chronicle} {roster next : Roster} {entry : Nat × Daemon}
  {number scheduler : Nat} {duty : Duty} (records : Records chronicle roster)
variable {daemon : Daemon} {queue : List Daemon}

include records

theorem not_mem_submitted (scheduler : Nat) (duty : Duty) :
    (scheduler, (⟨roster.next, duty⟩ : Daemon)) ∉ chronicle.submitted :=
  fun mem => Nat.lt_irrefl _ (records.fresh _ mem)

theorem filed_submitted (number : Nat) (daemon : Daemon) (ne : other ≠ scheduler) :
    Filed (chronicle.add (.submitted number scheduler daemon)) other (roster.queue other) := by
  have filed := records.filed other
  have same : (chronicle.add (.submitted number scheduler daemon)).submittedTo other =
      chronicle.submittedTo other := by
    simp [Chronicle.submittedTo_add, ne.symm]
  generalize roster.queue other = state at filed
  rcases state with _ | _ | queue
  · exact ⟨filed.1, same.trans filed.2⟩
  · exact filed
  · exact ⟨filed.1, filed.2.trans same.symm⟩

/-- A daemon that is submitted is another one than those before. -/
theorem submit (number scheduler : Nat) (duty : Duty)
    (filed : ∀ other, Filed (chronicle.add (.submitted number scheduler ⟨roster.next, duty⟩)) other
        (after.queue other))
    (handed : Spread after.handed fun entry =>
      (entry ∈ chronicle.submitted ++ [(scheduler, ⟨roster.next, duty⟩)] ∧
        entry.1 ∈ chronicle.swapped) ∧ entry ∉ chronicle.launched)
    (launched_eq : after.launched = roster.launched) (serving_eq : after.serving = roster.serving)
    (next_eq : after.next = roster.next + 1) (tally_eq : after.tally = roster.tally) :
    Records (chronicle.add (.submitted number scheduler ⟨roster.next, duty⟩)) after where
  fresh := by
    rw [next_eq]
    exact List.forall_mem_append.mpr
      ⟨fun entry mem => Nat.lt_succ_of_lt (records.fresh entry mem), by simp⟩
  submittedOnce := records.submittedOnce.append (List.nodup_singleton _)
    (List.disjoint_singleton.mpr (records.not_mem_submitted scheduler duty))
  swappedOnce := records.swappedOnce
  launchedOnce := records.launchedOnce
  endedOnce := records.endedOnce
  filed := filed
  handed := handed
  serving := serving_eq ▸ records.serving
  launched entry mem := (records.launched entry mem).imp_left (List.mem_append_left _)
  begun := launched_eq ▸ records.begun
  ended := records.ended
  tally_eq := tally_eq ▸ records.tally_eq

theorem wait (number : Nat) (waiting : roster.queue scheduler = some (some queue)) :
    Records (chronicle.add (.submitted number scheduler ⟨roster.next, duty⟩))
      { roster with
        queue := Function.update roster.queue scheduler
          (some (some (queue ++ [⟨roster.next, duty⟩])))
        next := roster.next + 1 } := by
  have filed := records.filed scheduler
  rw [waiting] at filed
  refine records.submit number scheduler duty
    ((Function.forall_update_iff _ _).mpr ⟨?_, ?_⟩) ?_ rfl rfl rfl rfl
  · exact ⟨filed.1, by simp [Chronicle.submittedTo_add, filed.2]⟩
  · exact fun other ne => records.filed_submitted number _ ne
  · refine records.handed.congr fun entry => ?_
    have notSwapped : entry.1 ∈ chronicle.swapped → entry ≠ (scheduler, ⟨roster.next, duty⟩) := by
      rintro isSwapped rfl
      exact filed.1 isSwapped
    grind

theorem hand (taken : roster.queue scheduler = some none) (free : roster.handed number = []) :
    Records (chronicle.add (.submitted number scheduler ⟨roster.next, duty⟩))
      { roster with
        handed := Function.update roster.handed number [(scheduler, ⟨roster.next, duty⟩)]
        next := roster.next + 1 } := by
  have filed := records.filed scheduler
  rw [taken] at filed
  have new := records.not_mem_submitted scheduler duty
  refine records.submit number scheduler duty ?_ ?_ rfl rfl rfl rfl
  · intro other
    by_cases same : other = scheduler
    · subst same
      show Filed _ other (roster.queue other)
      rw [taken]
      exact filed
    · exact records.filed_submitted number _ same
  · refine (records.handed.put free (List.nodup_singleton _) ?_).congr fun entry => ?_
    · intro entry isNew isHanded
      exact new (List.mem_singleton.mp isNew ▸ isHanded.1.1)
    · have notLaunched : (scheduler, ⟨roster.next, duty⟩) ∉ chronicle.launched :=
        fun mem => new (records.launched _ mem).1
      have isSwapped : scheduler ∈ chronicle.swapped := filed
      grind

theorem swap (waiting : roster.queue scheduler = some (some queue))
    (free : roster.handed number = []) :
    Records (chronicle.add (.swapped number scheduler queue))
      { roster with
        queue := Function.update roster.queue scheduler (some none)
        handed := Function.update roster.handed number (queue.map (scheduler, ·)) } := by
  have filed := records.filed scheduler
  rw [waiting] at filed
  obtain ⟨notSwapped, rfl⟩ := filed
  have given_iff : ∀ entry, entry ∈ chronicle.submitted.filter (·.1 = scheduler) ↔
      entry ∈ chronicle.submitted ∧ entry.1 = scheduler := by
    simp
  refine
    { records with
      swappedOnce := records.swappedOnce.append (List.nodup_singleton _)
        (List.disjoint_singleton.mpr notSwapped)
      filed := (Function.forall_update_iff _ _).mpr ⟨?_, ?_⟩
      handed := ?_
      launched := fun entry mem =>
        (records.launched entry mem).imp_right (List.mem_append_left _) }
  · exact List.mem_append_right _ (List.mem_singleton_self _)
  · intro other ne
    have filed := records.filed other
    generalize roster.queue other = state at filed
    rcases state with _ | _ | queue <;>
      simpa [Filed, Chronicle.add, Chronicle.submittedTo, ne] using filed
  · rw [Chronicle.map_submittedTo]
    refine (records.handed.put free (records.submittedOnce.filter _) ?_).congr fun entry => ?_
    · intro entry isGiven isHanded
      exact notSwapped (((given_iff entry).mp isGiven).2 ▸ isHanded.1.2)
    · have notLaunched : entry.1 = scheduler → entry ∉ chronicle.launched := by
        rintro rfl mem
        exact notSwapped (records.launched entry mem).2
      rw [given_iff]
      simp only [Chronicle.add, List.mem_append, List.mem_singleton]
      grind

theorem launch (first : roster.handed number = (scheduler, daemon) :: rest) :
    Records (chronicle.add (.launched number scheduler daemon))
      { roster with
        handed := Function.update roster.handed number rest
        launched := roster.launched ++ [(scheduler, daemon)] } := by
  obtain ⟨given, notLaunched⟩ :=
    (records.handed.mem_iff _).mp ⟨number, first ▸ List.mem_cons_self⟩
  refine
    { records with
      launchedOnce := records.launchedOnce.append (List.nodup_singleton _)
        (List.disjoint_singleton.mpr notLaunched)
      handed := (records.handed.take first).congr fun entry => ?_
      launched :=
        List.forall_mem_append.mpr ⟨records.launched, List.forall_mem_singleton.mpr given⟩
      begun := ?_ }
  · simp only [Chronicle.add, List.mem_append, List.mem_singleton]
    grind
  · refine (records.begun.append_right _).trans ?_
    rw [List.append_assoc, List.append_assoc]
    exact List.perm_append_comm.append_left _

/-- No daemon begins twice. -/
theorem launched_append_begun_nodup : (roster.launched ++ chronicle.begun).Nodup :=
  records.begun.nodup_iff.mp records.launchedOnce

theorem begin (found : roster.launched[place]? = some (scheduler, daemon))
    (free : roster.serving number = []) :
    Records (chronicle.add (.began number scheduler daemon))
      { roster with
        launched := roster.launched.eraseIdx place
        serving := Function.update roster.serving number [(scheduler, daemon)] } := by
  obtain ⟨inside, isEntry⟩ := List.getElem?_eq_some_iff.mp found
  have notBegun : (scheduler, daemon) ∉ chronicle.begun := fun mem =>
    (List.nodup_append.mp records.launched_append_begun_nodup).2.2 _ (List.mem_of_getElem? found) _
      mem rfl
  refine
    { records with
      serving := (records.serving.put free (List.nodup_singleton _) ?_).congr fun entry => ?_
      begun := ?_
      ended := fun entry mem => List.mem_append_left _ (records.ended entry mem) }
  · intro entry isNew isServing
    exact notBegun (List.mem_singleton.mp isNew ▸ isServing.1)
  · have notEnded : (scheduler, daemon) ∉ chronicle.ended :=
      fun mem => notBegun (records.ended _ mem)
    simp only [Chronicle.add, List.mem_append, List.mem_singleton]
    grind
  · have moved :
        roster.launched.Perm (roster.launched.eraseIdx place ++ [(scheduler, daemon)]) := by
      rw [← isEntry]
      exact ((List.perm_cons_erase (List.getElem_mem inside)).trans
        ((List.erase_getElem inside).cons _)).trans (List.perm_append_singleton _ _).symm
    refine records.begun.trans ((moved.append_right chronicle.begun).trans ?_)
    rw [List.append_assoc]
    exact List.perm_append_comm.append_left _

theorem mem_launched_iff :
    entry ∈ chronicle.launched ↔ entry ∈ roster.launched ∨ entry ∈ chronicle.begun := by
  rw [records.begun.mem_iff, List.mem_append]

theorem queue_eq_iff : roster.queue scheduler = some none ↔ scheduler ∈ chronicle.swapped := by
  have filed := records.filed scheduler
  generalize roster.queue scheduler = state at filed
  rcases state with _ | _ | queue
  · simp [filed.1]
  · simpa [Filed] using filed
  · simp [filed.1]

theorem count (number : Nat) (there : (roster.queue scheduler).isSome) :
    Records (chronicle.add (.counted number scheduler))
      (roster.recount scheduler (.map (· + 1) id)) := by
  rw [recount, if_pos there]
  refine { records with tally_eq := fun other => ?_ }
  by_cases same : scheduler = other
  · simp [records.tally_eq, Chronicle.add, same]
  · simp [records.tally_eq, Chronicle.add, same, Ne.symm same]

theorem finish (isServing : roster.serving number = [(scheduler, daemon)]) :
    Records (chronicle.add (.ended number scheduler daemon))
      ({ roster with serving := Function.update roster.serving number [] }.recount scheduler
        (.map id (· + 1))) := by
  obtain ⟨begun, notEnded⟩ :=
    (records.serving.mem_iff _).mp ⟨number, isServing ▸ List.mem_cons_self⟩
  have taken := records.queue_eq_iff.mpr (records.launched _ (records.mem_launched_iff.mpr
    (.inr begun))).2
  rw [recount, if_pos (by rw [taken]; rfl)]
  refine
    { records with
      endedOnce := records.endedOnce.append (List.nodup_singleton _)
        (List.disjoint_singleton.mpr notEnded)
      serving := (records.serving.take isServing).congr fun entry => ?_
      ended := List.forall_mem_append.mpr ⟨records.ended, List.forall_mem_singleton.mpr begun⟩
      tally_eq := fun other => ?_ }
  · simp only [Chronicle.add, List.mem_append, List.mem_singleton]
    grind
  · by_cases same : scheduler = other
    · simp [records.tally_eq, Chronicle.add, same]
    · simp [records.tally_eq, Chronicle.add, same, Ne.symm same]

/-- Every step keeps the roster as what has happened has left it. -/
theorem step {incident : Option Incident} (moves : roster.Step incident next) :
    Records (incident.elim chronicle chronicle.add) next := by
  cases moves with
  | skip =>
    exact
      { records with
        fresh := fun entry mem => Nat.lt_succ_of_lt (records.fresh entry mem) }
  | @found scheduler absent =>
    have filed := records.filed scheduler
    rw [absent] at filed
    exact
      { records with
        filed := (Function.forall_update_iff _ _).mpr
          ⟨⟨filed.1, filed.2.symm⟩, fun other _ => records.filed other⟩ }
  | wait number waiting => exact records.wait number waiting
  | hand taken free => exact records.hand taken free
  | swap waiting free => exact records.swap waiting free
  | launch first => exact records.launch first
  | begin found free => exact records.begin found free
  | count number there => exact records.count number there
  | finish isServing => exact records.finish isServing
  | _ => exact records

end Records

/-! ## Where a daemon is -/

/-- The states of a daemon. -/
inductive Standing where
  | queued
  | handed
  | running
  | ended
  deriving DecidableEq

/-- A daemon is in a state. -/
def Stands (roster : Roster) (chronicle : Chronicle) (entry : Nat × Daemon) : Standing → Prop
  | .queued => ∃ queue, roster.queue entry.1 = some (some queue) ∧ entry.2 ∈ queue
  | .handed => ∃ number, entry ∈ roster.handed number
  | .running => entry ∈ roster.launched ∨ ∃ number, entry ∈ roster.serving number
  | .ended => entry ∈ chronicle.ended

/-- The state of a daemon that was submitted, by what has happened to it. -/
def Chronicle.standing (chronicle : Chronicle) (entry : Nat × Daemon) : Standing :=
  if entry.1 ∉ chronicle.swapped then .queued
  else if entry ∉ chronicle.launched then .handed
  else if entry ∉ chronicle.ended then .running
  else .ended

namespace Records

variable {chronicle : Chronicle} {roster : Roster} {entry : Nat × Daemon}
  (records : Records chronicle roster)

include records

theorem queued_iff (isSubmitted : entry ∈ chronicle.submitted) :
    roster.Stands chronicle entry .queued ↔ entry.1 ∉ chronicle.swapped := by
  have mem := Chronicle.mem_submittedTo.mpr (show (entry.1, entry.2) ∈ _ from isSubmitted)
  have filed := records.filed entry.1
  rw [Stands]
  generalize roster.queue entry.1 = state at filed
  rcases state with _ | _ | queue
  · simp [filed.2] at mem
  · simpa [Filed] using filed
  · simpa [filed.1, filed.2] using mem

/-- Where a daemon is can be told from what has happened to it. -/
theorem stands_iff (isSubmitted : entry ∈ chronicle.submitted) (standing : Standing) :
    roster.Stands chronicle entry standing ↔ chronicle.standing entry = standing := by
  have apart := (List.nodup_append.mp records.launched_append_begun_nodup).2.2
  have launched_iff := @mem_launched_iff _ _ entry records
  have swapped := records.launched entry
  have begun := records.ended entry
  have waits : entry ∈ roster.launched → entry ∉ chronicle.begun := fun isLaunched isBegun =>
    apart entry isLaunched entry isBegun rfl
  unfold Chronicle.standing
  cases standing with
  | queued =>
    rw [records.queued_iff isSubmitted]
    grind
  | handed =>
    rw [Stands, records.handed.mem_iff]
    grind
  | running =>
    rw [Stands, records.serving.mem_iff]
    grind
  | ended =>
    rw [Stands]
    grind

end Records

end Roster
end ByNeed
