import ByNeed.Proofs.Rally.Publishing

/-!
# A rally in company

Whatever happens in company, the ledger of a rally can be brought up to date: one lemma for
every outcome of a shift, and with them one for all shifts.
-/

namespace ByNeed

open Service List

/-! ## What a shift comes to -/

namespace Service

variable {service : Service} {channel place : Nat}

section

variable (launched : service.store.launched[place]? = some entry)

include launched

theorem launchedOn_withdraw (mine : entry.2.duty.channel? = some channel) :
    (service.store.launchedOn channel).Perm
      (entry :: (service.withdraw place).store.launchedOn channel) := by
  obtain ⟨inBounds, rfl⟩ := List.getElem?_eq_some_iff.mp launched
  refine ((getElem_cons_eraseIdx_perm inBounds).symm.filter _).trans (List.Perm.of_eq ?_)
  rw [filter_cons_of_pos (by simpa using mine)]
  rfl

theorem undisturbed_withdraw (other : entry.2.duty.channel? ≠ some channel) :
    service.store.Undisturbed channel (service.withdraw place).store :=
  { service.store.upholds_launched _ with
    channel_eq := rfl
    launched_eq := by
      obtain ⟨inBounds, rfl⟩ := List.getElem?_eq_some_iff.mp launched
      change (service.store.launched.eraseIdx place).filter _ = service.store.launched.filter _
      conv_rhs =>
        rw [← take_append_drop place service.store.launched, drop_eq_getElem_cons inBounds]
      rw [eraseIdx_eq_take_drop_succ, filter_append, filter_append,
        filter_cons_of_neg (by simpa using other)] }

end

/-- What a shift comes to for a channel: a thread takes a step, a daemon of the channel begins, or
the channel is left alone.  Then whoever runs its own code may end, and whoever leaves the channel
alone may begin. -/
inductive Turn (channel : Nat) (service : Service) (shift : Shift) (next : Service) : Prop
  | moved {number : Nat} {request : Request} {thread moving : Thread request.Result}
      (passes : service.Passes number next) (isStep : shift = .make (.step number))
      (present : service.tasks number = some ⟨request, thread⟩)
      (moved : thread.step number service.store = (.moved moving, next.store))
      (presentNext : next.tasks number = some ⟨request, moving⟩)
  | adopted {place number scheduler : Nat} {daemon : Daemon} (passes : service.Passes number next)
      (mine : daemon.duty.channel? = some channel)
      (launched : service.store.launched[place]? = some (scheduler, daemon))
      (free : service.tasks number = none)
      (next_eq : next = (service.withdraw place).begin number scheduler daemon)
  | quiet {number : Nat} (passes : service.Passes number next)
      (undisturbed : service.store.Undisturbed channel next.store)
      (former : (∀ task, service.tasks number = some task → ∃ code, task.thread = .running code) ∨
        next.tasks number = service.tasks number)
      (present : ∀ task, next.tasks number = some task → service.tasks number = some task ∨
        ∃ request code, task = ⟨request, .running code⟩ ∧ code.Avoids channel)

theorem SoundIn.turn (soundIn : service.SoundIn realm) (channel : Nat) (shift : Shift) :
    service.Turn channel shift (service.shift shift) := by
  have passes : ∀ number, (∀ other, other ≠ number →
      (service.shift shift).tasks other = service.tasks other) →
        service.Passes number (service.shift shift) := fun _ => soundIn.passes
  have outcome := service.outcome_shift shift
  generalize service.shift shift = next at passes outcome ⊢
  cases outcome with
  | idle => exact .quiet (passes 0 fun _ _ => rfl) (.refl _ _) (.inr rfl) fun _ => .inl
  | made slots_eq undisturbed =>
    exact .quiet (passes 0 fun _ _ => rfl) (undisturbed channel) (.inr rfl) fun _ => .inl
  | @moved number _ _ _ _ present moved =>
    exact .moved (passes number fun other ne => tasks_setTask_of_ne _ ne _) rfl
      present moved (tasks_setTask_self _ _ _)
  | @finished number request code present =>
    refine .quiet (passes number fun other ne => tasks_setTask_of_ne _ ne _)
      (.refl _ _) (.inl fun task found => ?_) fun task found => ?_
    · rw [present] at found
      cases found
      exact ⟨code, rfl⟩
    · rw [tasks_setTask_self] at found
      cases found
  | @started number request allowed free =>
    refine .quiet (passes number fun other ne => tasks_setTask_of_ne _ ne _)
      (.refl _ _) (.inl (by simp [free])) fun task found => ?_
    rw [tasks_setTask_self] at found
    cases found
    refine .inr ⟨_, _, rfl, Request.code_avoids ?_⟩
    intro duty isDuty
    rw [Move.isHonest, isDuty] at allowed
    cases allowed
  | @adopted place number scheduler daemon launched free =>
    have passes := passes number fun other ne => tasks_setTask_of_ne _ ne _
    by_cases mine : daemon.duty.channel? = some channel
    · exact .adopted passes mine launched free rfl
    refine .quiet passes (undisturbed_withdraw launched mine) (.inl (by simp [free]))
      fun task found => ?_
    rw [Service.begin, tasks_setTask_self] at found
    cases found
    exact .inr ⟨_, _, rfl, Daemon.code_keeps scheduler daemon.duty.fits_everything mine⟩

end Service

namespace Rally

open Handoff (Token Tape)

theorem Hand.exists_of_launched? {hand : Hand} (found : hand.launched? channel = some entry) :
    ∃ scheduler number backlog, hand = ⟨hand.source, .launched scheduler number backlog⟩ ∧
      entry = (scheduler, ⟨number, .source hand.source channel backlog⟩) := by
  obtain ⟨source, post⟩ := hand
  cases post with
  | launched scheduler number backlog =>
    cases found
    exact ⟨scheduler, number, backlog, rfl, rfl⟩
  | _ => cases found

namespace Ledger

variable {plan : Plan} {ledger : Ledger} {service next : Service} {realm : Realm}
  {place number : Nat}

theorem exists_of_launchedWalk? (found : ledger.launchedWalk? plan = some entry) :
    ∃ number, ledger.walk = .launched number ∧
      entry = (plan.scheduler, ⟨number, .walk ledger.cursor plan.channel⟩) := by
  unfold launchedWalk? at found
  split at found
  · rename_i number launched
    cases found
    exact ⟨number, launched, rfl⟩
  · cases found

/-! ## Daemons that begin -/

section Adoption

variable {scheduler : Nat} {daemon : Daemon}

theorem Valid.beginWalk (valid : ledger.Valid plan service) (passes : service.Passes number next)
    (free : service.tasks number = none) (walk_eq : ledger.walk = .launched daemonNumber)
    (present : next.tasks number = some ⟨.serve scheduler daemon,
      .running (Walker.begin plan.scheduler plan.channel ledger.cursor)⟩)
    (upholds : service.store.Upholds plan.channel next.store)
    (channel_eq : next.store.channel plan.channel = service.store.channel plan.channel)
    (launched : ((plan.scheduler, ⟨daemonNumber, .walk ledger.cursor plan.channel⟩) ::
      next.store.launchedOn plan.channel).Perm (ledger.waiting plan)) :
    ledger.Continues plan next := by
  have remaining : (next.store.launchedOn plan.channel).Perm
      (waiting plan { ledger with walk := .walking number }) := by
    have waiting_eq : ledger.waiting plan =
        (plan.scheduler, ⟨daemonNumber, .walk ledger.cursor plan.channel⟩) ::
          waiting plan { ledger with walk := .walking number } := by
      rw [waiting, launchedWalk?, walk_eq]
      rfl
    rw [waiting_eq] at launched
    exact launched.cons_inv
  have books : Books { ledger with walk := .walking number } (next.store.channel plan.channel) := by
    rw [channel_eq]
    exact valid.books.setWalk (by rw [walk_eq]; rfl)
  have facts : Facts plan { ledger with walk := .walking number } next.store :=
    (valid.facts.mono passes.keeps).setWalk (by simp [walk_eq, Walk.isOver])
      fun isOver => by cases isOver
  exact valid.advance _ _ _ _ ⟨passes, valid.lastCell.notHolder_of_free free, present⟩ upholds
    remaining
    books facts (.setWalk (by simp [walk_eq, Walk.task?]) fun _ _ found => found)
    (.stride (by simp [walk_eq])) (.walking rfl .begin)

theorem Valid.beginWork {position daemonNumber backlog : Nat} (valid : ledger.Valid plan service)
    (passes : service.Passes number next) (free : service.tasks number = none)
    (hired : ledger.hands[position]? = some ⟨source, .launched scheduler daemonNumber backlog⟩)
    (present : next.tasks number = some ⟨.serve scheduler daemon,
      .running (Worker.seek scheduler plan.channel backlog source)⟩)
    (upholds : service.store.Upholds plan.channel next.store)
    (channel_eq : next.store.channel plan.channel = service.store.channel plan.channel)
    (launched : ((scheduler, ⟨daemonNumber, .source source plan.channel backlog⟩) ::
      next.store.launchedOn plan.channel).Perm (ledger.waiting plan)) :
    ledger.Continues plan next := by
  have remaining : (next.store.launchedOn plan.channel).Perm
      (waiting plan (ledger.assign position ⟨source, .working number⟩)) :=
    (launched.trans (waiting_assign hired ⟨source, .working number⟩).symm).cons_inv
  have books : (ledger.assign position ⟨source, .working number⟩).Books
      (next.store.channel plan.channel) := by
    rw [channel_eq]
    exact valid.books.assign hired rfl rfl
  have facts := (valid.facts.mono passes.keeps).amend (sources_set hired (.working number)) id
    (fun _ mem => mem) (fun _ mem => .inl mem) fun isOver _ => .inl isOver
  exact valid.advance _ _ _ _ ⟨passes, valid.lastCell.notHolder_of_free free, present⟩ upholds
    remaining
    books facts (.assign hired (by simp [Post.task?]) (.inl (by simp)) _) .stay
    (.working (getElem?_set_self (List.getElem?_eq_some_iff.mp hired).1)
      (.seek scheduler backlog))

theorem Valid.adopt (valid : ledger.Valid plan service)
    (mine : daemon.duty.channel? = some plan.channel)
    (passes : service.Passes number ((service.withdraw place).begin number scheduler daemon))
    (launched : service.store.launched[place]? = some (scheduler, daemon))
    (free : service.tasks number = none) :
    ledger.Continues plan ((service.withdraw place).begin number scheduler daemon) := by
  have waits := (launchedOn_withdraw launched mine).symm.trans valid.launched
  have present : ((service.withdraw place).begin number scheduler daemon).tasks number =
      some ⟨.serve scheduler daemon, .running (daemon.code scheduler)⟩ :=
    tasks_setTask_self _ _ _
  have upholds : service.store.Upholds plan.channel
      ((service.withdraw place).begin number scheduler daemon).store :=
    service.store.upholds_launched _
  rcases mem_append.mp (waits.subset mem_cons_self) with walker | worker
  · obtain ⟨daemonNumber, walk_eq, entry_eq⟩ :=
      exists_of_launchedWalk? (Option.mem_toList.mp walker)
    cases entry_eq
    rw [Walker.code_eq] at present
    exact valid.beginWalk passes free walk_eq present upholds rfl waits
  · obtain ⟨hand, mem, entry⟩ := mem_filterMap.mp worker
    obtain ⟨position, found⟩ := mem_iff_getElem?.mp mem
    obtain ⟨_, daemonNumber, backlog, hand_eq, entry_eq⟩ := Hand.exists_of_launched? entry
    cases entry_eq
    rw [Worker.code_eq] at present
    rw [hand_eq] at found
    exact valid.beginWork passes free found present upholds rfl waits

end Adoption

/-! ## Threads that take steps -/

section Steps

variable {request : Request} {thread moving : Thread request.Result} {later : Tape}

/-- The ledger stays valid if it is brought up to date for a thread that reads the list on.  Unless
it is this thread that founds the rally, the rally is founded. -/
theorem Valid.renew {first : Thunk} (valid : ledger.Valid plan service)
    (readsOn : ledger.tape.ReadsOn later plan.channel ledger.publishers first service number thread
      next)
    (founder : ∀ other, other ≠ number → ledger.founder ≠ some other)
    (employs : ledger.Employs plan next.store number ⟨request, thread⟩) :
    (ledger.withTape none first later).Valid plan next where
  held := readsOn.kept.held
  started := readsOn.persists.started _ valid.started
  queues := readsOn.persists.queues valid.queues
  launched := readsOn.launched_eq ▸ valid.launched
  books := valid.books.renew readsOn.wasOpen readsOn.log_eq readsOn.dropped_eq readsOn.kept.books
  facts :=
    { valid.facts.mono readsOn.passes.keeps with
      exhausted := fun isOver _ => (valid.facts.mono readsOn.passes.keeps).exhausted isOver
        (Token.not_isFailed_of_isOpen readsOn.wasOpen) }
  roles other task found _ := by
    by_cases same : other = number
    · subst same
      rw [readsOn.present] at found
      cases found
      exact employs.keep fun _ _ evaluated => evaluated
    · rw [readsOn.passes.others other same] at found
      exact (valid.roles other task found (founder other same)).keep readsOn.passes.keeps
  apart other task found _ notHolder := by
    by_cases same : other = number
    · subst same
      rw [readsOn.present] at found
      cases found
      exact readsOn.apart notHolder
    · rw [readsOn.passes.others other same] at found
      exact valid.apart other task found (founder other same) fun holds =>
        same (readsOn.holder other holds)
  readers := readsOn.kept.readers
  founding founding := absurd rfl founding
  founded _ := readsOn.made
  trail := readsOn.kept.trail
  lastCell := readsOn.kept.lastCell

theorem Valid.handle (valid : ledger.Valid plan service)
    (readsOn : ledger.tape.ReadsOn later plan.channel ledger.publishers ledger.first service number
      thread next)
    (made : ledger.token ≠ .unmade)
    (employs : ledger.Employs plan next.store number ⟨request, thread⟩) :
    ledger.Continues plan next := by
  have founded : ledger.founder = none :=
    Decidable.of_not_not fun founding => made (valid.founding founding).1
  have renewed := valid.renew readsOn (by simp [founded]) employs
  rw [← founded] at renewed
  exact ⟨_, renewed, .stay⟩

theorem Valid.step (valid : ledger.Valid plan service) (soundIn : service.SoundIn realm)
    (passes : service.Passes number next) (notFounder : ledger.founder ≠ some number)
    (present : service.tasks number = some ⟨request, thread⟩)
    (moved : thread.step number service.store = (.moved moving, next.store))
    (presentNext : next.tasks number = some ⟨request, moving⟩) : ledger.Continues plan next := by
  obtain ⟨code, stands, role⟩ := valid.roles number _ present notFounder
  by_cases holds : ledger.token.holder? = some number
  · obtain ⟨later, readsOn⟩ := valid.kept.stepHolder passes presentNext holds present moved
    refine valid.handle readsOn (by rintro unmade; simp [unmade, Token.holder?] at holds) ?_
    have stands := valid.lastCell.stands holds present stands (soundIn.owns present) moved
    exact ⟨code, stands, role.keep passes.keeps⟩
  have apart := valid.apart number _ present notFounder holds
  have stride := apart.stride stands (soundIn.owns present) (.inl valid.held) valid.queues moved
  cases stride with
  | own rest next_eq advances =>
    subst next_eq
    refine valid.act ⟨passes, holds, presentNext⟩ role (fun pure thunk following code_eq => ?_)
      advances
    subst code_eq
    exact soundIn.held_of_stands present pure stands
  | spare stands apart undisturbed =>
    refine ⟨ledger, valid.quiet passes undisturbed (fun own => absurd own holds) ?_, .stay⟩
    intro task found _
    rw [presentNext] at found
    cases found
    exact ⟨⟨code, stands, role.keep passes.keeps⟩, fun _ => apart⟩
  | claim thunk stands suspended store_eq claims =>
    have isIdle := (valid.readers thunk suspended).1
    exact valid.handle (valid.kept.claim passes presentNext suspended store_eq claims)
      (by simp [isIdle]) ⟨code, stands, role.keep passes.keeps⟩

end Steps

/-! ## All shifts -/

section

variable (valid : ledger.Valid plan service) (soundIn : service.SoundIn realm)

include valid soundIn

/-- The ledger is kept through every shift but those of the thread that founds the rally. -/
theorem Valid.shift {shift : Shift}
    (others : ∀ number, ledger.founder = some number → shift ≠ .make (.step number)) :
    ledger.Continues plan (service.shift shift) := by
  have turn := soundIn.turn plan.channel shift
  generalize service.shift shift = next at turn ⊢
  cases turn with
  | moved passes isStep present moved presentNext =>
    exact valid.step soundIn passes (fun founding => others _ founding isStep) present moved
      presentNext
  | adopted passes mine launched free next_eq =>
    subst next_eq
    exact valid.adopt mine passes launched free
  | quiet passes undisturbed former present =>
    refine ⟨ledger, valid.quiet passes undisturbed (valid.lastCell.tasks_eq former) ?_, .stay⟩
    intro task found notFounder
    rcases present task found with unchanged | ⟨request, code, rfl, avoids⟩
    · exact ⟨(valid.roles _ task unchanged notFounder).keep passes.keeps,
        valid.apart _ task unchanged notFounder⟩
    · exact ⟨⟨_, .own _, .bystander avoids⟩, fun _ => trivial⟩

/-- Once the rally is founded, the ledger is kept through all shifts. -/
theorem Valid.shifts (founded : ledger.founder = none) (shifts : List Shift) :
    ∃ later : Ledger, later.first = ledger.first ∧ later.founder = none ∧
      later.Valid plan (service.shifts shifts) := by
  induction shifts generalizing ledger service realm with
  | nil => exact ⟨ledger, rfl, founded, valid⟩
  | cons first rest ih =>
    obtain ⟨between, validThen, follows⟩ := valid.shift soundIn (by simp [founded])
    obtain ⟨later, -, soundThen⟩ := soundIn.shift first
    obtain ⟨last, first_eq, foundedNow, validNow⟩ :=
      ih validThen soundThen (follows.founder_eq.trans founded)
    exact ⟨last, first_eq.trans follows.first_eq, foundedNow, validNow⟩

end

end Ledger
end Rally
end ByNeed
