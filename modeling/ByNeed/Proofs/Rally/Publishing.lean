import ByNeed.Proofs.Rally.Entries

/-!
# What the crew of a rally does

Every step of the own code of a walker or of a worker is entered in the ledger, and the
ledger is valid after it.
-/

namespace ByNeed

open Store List
namespace Rally

open Handoff (Token Tape)
namespace Ledger

variable {plan : Plan} {ledger : Ledger} {service next : Service}

/-! ## Turns -/

/-- The own code of a thread that reads no cell has taken a step. -/
structure Acts (ledger : Ledger) (service : Service) (number : Nat) (request : Request)
    (rest : Code request.Result) (next : Service) : Prop where
  passes : service.Passes number next
  notHolder : ledger.token.holder? ≠ some number
  present : next.tasks number = some ⟨request, .running rest⟩

variable {number : Nat} {request : Request} {rest : Code request.Result}

theorem Valid.undisturbed {action : Action} {reply : action.Reply}
    (valid : ledger.Valid plan service)
    (performed : action.perform service.store = (some reply, next.store))
    (avoids : action.Avoids plan.channel) : service.store.Undisturbed plan.channel next.store :=
  Action.undisturbed avoids (.inl valid.held) performed

/-- While the walker is a publisher, the list is closed only by a failure. -/
theorem Valid.isOpen_of_walk (valid : ledger.Valid plan service) (staying : 0 < ledger.walk.stake)
    (notFailed : ledger.token.isFailed = false) : ledger.token.isOpen = true := by
  by_contra closed
  have unended := valid.books.tape.not_ended (Nat.add_pos_left staying _)
  rw [Token.isFailed_of_not_isOpen (Bool.eq_false_iff.mpr closed) unended] at notFailed
  cases notFailed

theorem Valid.advance (valid : ledger.Valid plan service) (walk : Walk) (cursor : Thunk)
    (hands : List Hand) (log : List Entry) (acts : ledger.Acts service number request rest next)
    (upholds : service.store.Upholds plan.channel next.store)
    (launched : (next.store.launchedOn plan.channel).Perm
      (waiting plan { ledger with walk, cursor, hands, log }))
    (books : Books { ledger with walk, cursor, hands, log } (next.store.channel plan.channel))
    (facts : Facts plan { ledger with walk, cursor, hands, log } next.store)
    (spares : Spares number ledger { ledger with walk, cursor, hands, log })
    (follows : ledger.Follows { ledger with walk, cursor, hands, log })
    (role : Role plan { ledger with walk, cursor, hands, log } next.store number request rest) :
    ledger.Continues plan next := by
  refine ⟨_, valid.update walk cursor hands log acts.passes upholds launched books facts spares
    (fun holds => absurd holds acts.notHolder) ?_, follows⟩
  intro task present _
  rw [acts.present] at present
  cases present
  exact ⟨⟨rest, .own rest, role⟩, fun _ => trivial⟩

theorem Valid.advanceQuiet (valid : ledger.Valid plan service)
    (acts : ledger.Acts service number request rest next)
    (undisturbed : service.store.Undisturbed plan.channel next.store)
    (role : ledger.Role plan next.store number request rest) : ledger.Continues plan next :=
  valid.advance ledger.walk ledger.cursor ledger.hands ledger.log acts undisturbed.toUpholds
    (by rw [undisturbed.launched_eq]; exact valid.launched)
    (by rw [undisturbed.channel_eq]; exact valid.books)
    (valid.facts.mono acts.passes.keeps) .same .stay role

/-! ## Workers -/

/-- What a worker sends says what is so. -/
theorem exists_entry (met : ledger.sources[position]? = some source)
    (evaluated : store.slot? source = some (.evaluated value)) :
    ∃ entry : Entry, entry.message = Worker.message source value.purely ∧
      entry.position? = some position ∧ ledger.Backed store entry := by
  cases purely : value.purely with
  | error failure =>
    exact ⟨.failed position failure, rfl, rfl, source, value, met, evaluated, purely⟩
  | _ =>
    refine ⟨.listed position source, rfl, rfl, met, value, evaluated, ?_⟩
    rw [purely]
    rintro _ ⟨⟩

theorem sources_getElem? {position : Nat} (found : ledger.hands[position]? = some hand) :
    ledger.sources[position]? = some hand.source := by
  rw [sources, getElem?_map, found]
  rfl

theorem mem_log_record (ledger : Ledger) (entry : Entry) :
    (∀ formerly ∈ ledger.log, formerly ∈ (ledger.record entry).log) ∧
      ∀ recorded ∈ (ledger.record entry).log, recorded ∈ ledger.log ∨ recorded = entry := by
  cases isOpen : ledger.token.isOpen with
  | true =>
    rw [record_of_isOpen entry isOpen]
    refine ⟨fun _ mem => mem_append_left _ mem, fun recorded mem => ?_⟩
    exact (mem_append.mp mem).imp_right mem_singleton.mp
  | false =>
    rw [record_of_not_isOpen entry isOpen]
    exact ⟨fun _ mem => mem, fun _ mem => .inl mem⟩

section Worker

variable {scheduler position : Nat} {daemon : Daemon} {source : Thunk} {code rest : Code Unit}

section

variable (valid : ledger.Valid plan service)
  (acts : ledger.Acts service number (.serve scheduler daemon) rest next)

include valid acts

theorem Valid.speak {value : Value}
    (hired : ledger.hands[position]? = some ⟨source, .working number⟩)
    (evaluated : service.store.slot? source = some (.evaluated value))
    (performed : (Action.send plan.channel (Worker.message source value.purely)).perform
      service.store = (some reply, next.store))
    (spoken : Worker.Spoken plan.channel rest) :
    ledger.Continues plan next := by
  obtain ⟨entry, message_eq, position_eq, backed⟩ :=
    exists_entry (sources_getElem? hired) (acts.passes.keeps _ _ evaluated)
  obtain ⟨kept, recorded⟩ := ledger.mem_log_record entry
  have after_eq := Action.eq_of_send performed
  have inBounds := (List.getElem?_eq_some_iff.mp hired).1
  rw [← message_eq] at after_eq
  have launched : (next.store.launchedOn plan.channel).Perm
      (waiting plan ((ledger.record entry).assign position ⟨source, .spoken number⟩)) := by
    rw [after_eq]
    exact valid.launched.trans (waiting_assign hired ⟨source, .spoken number⟩).symm
  have books := valid.books.speak hired position_eq
  rw [← channel_setChannel_self valid.held (Channel.send _ entry.message).2, ← after_eq]
    at books
  have facts := (valid.facts.mono acts.passes.keeps).amend
    (sources_set hired (.spoken number)) id kept
    (fun other mem => (recorded other mem).imp_right fun same => by rwa [same])
    fun isOver _ => .inl isOver
  exact valid.advance _ _ _ _ acts (after_eq ▸ service.store.upholds_setChannel _ _) launched books
    facts (.assign hired (fun _ own => (Option.some.inj own).symm) (.inl (by simp)) _) .stay
    (.spoken (getElem?_set_self inBounds) spoken)

/-- A worker that has not sent takes a step. -/
theorem Valid.work (hired : ledger.hands[position]? = some ⟨source, .working number⟩)
    (silent : Worker.Silent plan.channel source service.store code)
    (held : ∀ thunk following, code = .evaluate thunk following →
      ∃ slot, service.store.slot? thunk = some slot)
    (advances : code.Advances service.store rest next.store) : ledger.Continues plan next := by
  cases silent with
  | seek other backlog =>
    obtain ⟨value, evaluated, rfl, same⟩ := advances.exists_answer (held _ _ rfl)
    refine valid.advanceQuiet acts (same ▸ .refl _ _) (.working hired ?_)
    exact .enter other backlog (acts.passes.keeps _ _ evaluated)
  | enter other backlog evaluated =>
    obtain ⟨reply, performed, rfl⟩ := advances.exists_reply
    refine valid.advanceQuiet acts (valid.undisturbed performed nofun)
      (.working hired ?_)
    exact .send other backlog (acts.passes.keeps _ _ evaluated)
  | send other backlog evaluated =>
    obtain ⟨reply, performed, rfl⟩ := advances.exists_reply
    exact valid.speak acts hired evaluated performed (.leave other backlog)

/-- A worker that has sent takes a step. -/
theorem Valid.depart (hired : ledger.hands[position]? = some ⟨source, .spoken number⟩)
    (spoken : Worker.Spoken plan.channel code)
    (advances : code.Advances service.store rest next.store) : ledger.Continues plan next := by
  cases spoken with
  | leave other backlog =>
    obtain ⟨reply, performed, rfl⟩ := advances.exists_reply
    exact valid.advanceQuiet acts (valid.undisturbed performed nofun)
      (.spoken hired (.release other))
  | release other =>
    obtain ⟨reply, performed, rfl⟩ := advances.exists_reply
    have after_eq : service.store.modifyChannel plan.channel Channel.release = next.store :=
      congrArg Prod.snd performed
    have launched : (next.store.launchedOn plan.channel).Perm
        (waiting plan (ledger.assign position ⟨source, .free⟩)) := by
      rw [← after_eq]
      exact valid.launched.trans (waiting_assign hired ⟨source, .free⟩).symm
    have books := valid.books.free hired
    rw [← channel_setChannel_self valid.held (Channel.release _)] at books
    have facts := (valid.facts.mono acts.passes.keeps).amend
      (sources_set hired .free) id (fun _ mem => mem) (fun _ mem => .inl mem)
      fun isOver _ => .inl isOver
    exact valid.advance _ _ _ _ acts (after_eq ▸ service.store.upholds_setChannel _ _) launched
      (after_eq ▸ books) facts
      (.assign hired (fun _ own => (Option.some.inj own).symm) (.inl (by simp)) _) .stay
      (.bystander (farewell_avoids other plan.channel))

end

end Worker

/-! ## The walker -/

/-- The walker goes somewhere else, and no worker does. -/
theorem Valid.moveWalk (valid : ledger.Valid plan service) (walk : Walk) (log : List Entry)
    (acts : ledger.Acts service number request rest next) (own : ledger.walk.task? = some number)
    (begun : ∀ daemon, walk ≠ .launched daemon)
    (upholds : service.store.Upholds plan.channel next.store)
    (launched_eq : next.store.launchedOn plan.channel = service.store.launchedOn plan.channel)
    (books : Books { ledger with walk, log } (next.store.channel plan.channel))
    (facts : Facts plan { ledger with walk, log } next.store)
    (role : Role plan { ledger with walk, log } next.store number request rest) :
    ledger.Continues plan next := by
  have launched : (next.store.launchedOn plan.channel).Perm
      (waiting plan { ledger with walk, log }) := by
    rw [waiting_setWalk (fun daemon launched => by rw [launched] at own; cases own) begun,
      launched_eq]
    exact valid.launched
  have alone : ∀ task, ledger.walk.task? = some task → task = number := by
    intro task walks
    rw [own] at walks
    exact (Option.some.inj walks).symm
  exact valid.advance _ _ _ _ acts upholds launched books facts
    (.setWalk alone fun _ _ found => found)
    (.stride fun unborn => by rw [unborn] at own; cases own) role

section Walker

variable {scheduler backlog bound : Nat} {daemon : Daemon} {source tail : Thunk}
  {code rest : Code Unit}

section

variable (valid : ledger.Valid plan service)

include valid

section

variable
  (acts : ledger.Acts service number (.serve scheduler daemon)
    (release plan.scheduler plan.channel) next)
  (walk_eq : ledger.walk = .walking number)

include acts walk_eq

/-- The walker will walk no further. -/
theorem Valid.stop (undisturbed : service.store.Undisturbed plan.channel next.store)
    (exhausted : ledger.token.isFailed = false →
      next.store.slot? ledger.cursor = some (.evaluated (.list .empty))) :
    ledger.Continues plan next := by
  have books : Books { ledger with walk := .leaving number }
      (next.store.channel plan.channel) := by
    rw [undisturbed.channel_eq]
    exact valid.books.setWalk (by rw [walk_eq]; rfl)
  have facts : Facts plan { ledger with walk := .leaving number } next.store :=
    (valid.facts.mono acts.passes.keeps).setWalk (fun _ => rfl) fun _ notFailed =>
      .inr (exhausted notFailed)
  exact valid.moveWalk _ _ acts (congrArg Walk.task? walk_eq) (by simp) undisturbed.toUpholds
    undisturbed.launched_eq books facts (.leaving rfl)

/-- The walker says that the list of sources failed. -/
theorem Valid.fail (evaluated : service.store.slot? ledger.cursor = some (.evaluated value))
    (isError : value.purely.toList = .error error)
    (performed : (Action.send plan.channel (.failure error)).perform service.store =
      (some reply, next.store)) : ledger.Continues plan next := by
  have after_eq := Action.eq_of_send performed
  have staying : 0 < ledger.walk.stake := by simp [walk_eq, Walk.stake]
  have books : Books { ledger.record (.broken error) with walk := .leaving number }
      (next.store.channel plan.channel) := by
    rw [after_eq, channel_setChannel_self valid.held]
    refine (valid.books.fail error staying).setWalk ?_
    simp [record, walk_eq, Walk.stake]
  have facts : Facts plan { ledger.record (.broken error) with walk := .leaving number }
      next.store := by
    obtain ⟨kept, recorded⟩ := ledger.mem_log_record (.broken error)
    refine (valid.facts.mono acts.passes.keeps).amend rfl (fun _ => rfl) kept ?_ ?_
    · intro entry mem
      refine (recorded entry mem).imp_right ?_
      rintro rfl
      exact ⟨rfl, value, acts.passes.keeps _ _ evaluated, isError⟩
    · intro _ notFailed
      refine .inr (.inr ⟨error, ?_⟩)
      have isOpen := valid.isOpen_of_walk staying notFailed
      rw [record_of_isOpen _ isOpen]
      exact mem_append_right _ mem_cons_self
  exact valid.moveWalk _ _ acts (congrArg Walk.task? walk_eq) (by simp)
    (after_eq ▸ service.store.upholds_setChannel _ _) (by rw [after_eq]; rfl) books facts
    (.leaving rfl)

end

/-- The walker becomes a publisher for the worker of a source. -/
theorem Valid.retain
    (acts : ledger.Acts service number (.serve scheduler daemon)
      (Walker.submit plan.scheduler plan.channel backlog bound source tail) next)
    (walk_eq : ledger.walk = .walking number)
    (evaluated : service.store.slot? ledger.cursor =
      some (.evaluated (.list (.cons source tail))))
    (after_eq : next.store = service.store.modifyChannel plan.channel Channel.retain) :
    ledger.Continues plan next := by
  have books : Books { ledger with walk := .meeting number source tail }
      (next.store.channel plan.channel) := by
    rw [after_eq, Store.modifyChannel, channel_setChannel_self valid.held]
    exact valid.books.retain (by simp [walk_eq, Walk.stake]) (by simp [walk_eq, Walk.stake])
  have facts : Facts plan { ledger with walk := .meeting number source tail } next.store :=
    (valid.facts.mono acts.passes.keeps).setWalk (by simp [walk_eq, Walk.isOver])
      fun isOver => by cases isOver
  exact valid.moveWalk _ _ acts (congrArg Walk.task? walk_eq) (by simp)
    (after_eq ▸ service.store.upholds_setChannel _ _) (by rw [after_eq]; rfl) books facts
    (.meeting backlog bound rfl (acts.passes.keeps _ _ evaluated))

/-- The walker is no longer a publisher. -/
theorem Valid.quit
    (acts : ledger.Acts service number (.serve scheduler daemon)
      (farewell plan.scheduler) next)
    (walk_eq : ledger.walk = .leaving number)
    (after_eq : next.store = service.store.modifyChannel plan.channel Channel.release) :
    ledger.Continues plan next := by
  have books : Books { ledger with walk := .free } (next.store.channel plan.channel) := by
    rw [after_eq, Store.modifyChannel, channel_setChannel_self valid.held]
    exact valid.books.releaseWalk (by simp [walk_eq, Walk.stake])
  have facts : Facts plan { ledger with walk := .free } next.store :=
    (valid.facts.mono acts.passes.keeps).setWalk (fun _ => rfl) fun _ _ =>
      .inl (by rw [walk_eq]; rfl)
  exact valid.moveWalk _ _ acts (congrArg Walk.task? walk_eq) (by simp)
    (after_eq ▸ service.store.upholds_setChannel _ _) (by rw [after_eq]; rfl) books facts
    (.bystander (farewell_avoids _ _))

section

variable (acts : ledger.Acts service number (.serve scheduler daemon) rest next)

include acts

/-- The worker for a source is submitted, and the walk goes on behind the source. -/
theorem Valid.hire (walk_eq : ledger.walk = .meeting number source tail)
    (evaluated : service.store.slot? ledger.cursor =
      some (.evaluated (.list (.cons source tail))))
    (undisturbed : service.store.Undisturbed plan.channel next.store)
    (ahead : Walker.Ahead plan.scheduler plan.channel next.store
      (ledger.hands ++ [⟨source, .unborn⟩]) tail rest) : ledger.Continues plan next := by
  have noWalk : ledger.launchedWalk? plan = none := by rw [launchedWalk?, walk_eq]
  have launched : (next.store.launchedOn plan.channel).Perm
      (waiting plan
        { ledger with
          walk := .walking number, cursor := tail
          hands := ledger.hands ++ [⟨source, .unborn⟩] }) := by
    rw [undisturbed.launched_eq]
    refine valid.launched.trans (List.Perm.of_eq ?_)
    rw [waiting, waiting, noWalk, filterMap_append]
    exact (append_nil _).symm
  have books : Books
      { ledger with
        walk := .walking number, cursor := tail
        hands := ledger.hands ++ [⟨source, .unborn⟩] }
      (next.store.channel plan.channel) := by
    rw [undisturbed.channel_eq]
    exact valid.books.hire (by rw [walk_eq]; rfl)
  have facts : Facts plan
      { ledger with
        walk := .walking number, cursor := tail
        hands := ledger.hands ++ [⟨source, .unborn⟩] } next.store :=
    (valid.facts.mono acts.passes.keeps).hire (acts.passes.keeps _ _ evaluated)
      (by rw [walk_eq]; rfl) rfl
  exact valid.advance _ _ _ _ acts undisturbed.toUpholds launched books facts
    (.setWalk (by simp [walk_eq, Walk.task?]) fun _ _ found =>
      (getElem?_append_left (List.getElem?_eq_some_iff.mp found).1).trans found)
    (.stride (by simp [walk_eq])) (.walking rfl ahead)

theorem Valid.launch {position worker : Nat} (walk_eq : ledger.walk = .walking number)
    (hired : ledger.hands[position]? = some ⟨source, .unborn⟩)
    (after_eq : next.store = { service.store with
      launched := service.store.launched ++
        [(plan.scheduler, ⟨worker, .source source plan.channel backlog⟩)] })
    (ahead : ∀ hands, Walker.Ahead plan.scheduler plan.channel next.store hands ledger.cursor
      rest) : ledger.Continues plan next := by
  have launched : (next.store.launchedOn plan.channel).Perm
      (waiting plan
        (ledger.assign position ⟨source, .launched plan.scheduler worker backlog⟩)) := by
    have appended : next.store.launchedOn plan.channel =
        service.store.launchedOn plan.channel ++
          [(plan.scheduler, ⟨worker, .source source plan.channel backlog⟩)] := by
      simp [after_eq, Store.launchedOn, Duty.channel?]
    rw [appended]
    refine (perm_append_singleton _ _).trans ((valid.launched.cons _).trans ?_)
    exact (waiting_assign hired ⟨source, .launched plan.scheduler worker backlog⟩).symm
  have books : (ledger.assign position ⟨source, .launched plan.scheduler worker backlog⟩).Books
      (next.store.channel plan.channel) := by
    rw [after_eq]
    exact valid.books.assign hired rfl rfl
  have facts := (valid.facts.mono acts.passes.keeps).amend
    (sources_set hired (.launched plan.scheduler worker backlog)) id (fun _ mem => mem)
    (fun _ mem => .inl mem) fun isOver _ => .inl isOver
  exact valid.advance _ _ _ _ acts (after_eq ▸ service.store.upholds_launched _) launched books
    facts (.assign hired (by simp [Post.task?]) (.inr (by simp [walk_eq, Walk.task?])) _)
    .stay (.walking walk_eq (ahead _))

/-- The walker on its way takes a step. -/
theorem Valid.walk (walk_eq : ledger.walk = .walking number)
    (ahead : Walker.Ahead plan.scheduler plan.channel service.store ledger.hands ledger.cursor
      code)
    (held : ∀ thunk following, code = .evaluate thunk following →
      ∃ slot, service.store.slot? thunk = some slot)
    (advances : code.Advances service.store rest next.store) : ledger.Continues plan next := by
  cases ahead with
  | begin =>
    obtain ⟨bound, performed, rfl⟩ := advances.exists_reply
    exact valid.advanceQuiet acts (valid.undisturbed performed nofun)
      (.walking walk_eq (.makeBacklog bound))
  | makeBacklog bound =>
    obtain ⟨backlog, performed, rfl⟩ := advances.exists_reply
    exact valid.advanceQuiet acts (valid.undisturbed performed nofun)
      (.walking walk_eq (.loop backlog (max 1 bound)))
  | loop backlog bound =>
    obtain ⟨rfl, same⟩ := advances.eq_of_call
    refine valid.advanceQuiet acts (same ▸ .refl _ _) (.walking walk_eq ?_)
    rw [Walker.walkStep_eq]
    exact .await backlog bound
  | await backlog bound =>
    obtain ⟨reply, performed, rfl⟩ := advances.exists_reply
    exact valid.advanceQuiet acts (valid.undisturbed performed nofun)
      (.walking walk_eq (.ask backlog bound))
  | ask backlog bound =>
    obtain ⟨closed, performed, rfl⟩ := advances.exists_reply
    obtain ⟨closed_eq, same⟩ := Prod.mk.inj performed
    cases closed with
    | false => exact valid.advanceQuiet acts (same ▸ .refl _ _) (.walking walk_eq (.seek _ _))
    | true =>
      refine valid.stop acts walk_eq (same ▸ .refl _ _) fun notFailed => ?_
      have gone := valid.books.tape.gone (Option.some.inj closed_eq)
      have isOpen := valid.isOpen_of_walk (by simp [walk_eq, Walk.stake]) notFailed
      rw [valid.books.tape.listening_eq, Tape.listens, tape, isOpen] at gone
      cases gone
  | seek backlog bound =>
    obtain ⟨value, evaluated, rest_eq, same⟩ := advances.exists_answer (held _ _ rfl)
    have undisturbed : service.store.Undisturbed plan.channel next.store := same ▸ .refl _ _
    have evaluated := acts.passes.keeps _ _ evaluated
    simp only [Walker.meet] at rest_eq
    split at rest_eq
    · rename_i failure isError
      subst rest_eq
      exact valid.advanceQuiet acts undisturbed (.walking walk_eq (.fail evaluated isError))
    · rename_i isList
      subst rest_eq
      obtain rfl := Value.eq_of_purely_toList isList
      exact valid.stop acts walk_eq undisturbed fun _ => evaluated
    · rename_i source tail isList
      subst rest_eq
      obtain rfl := Value.eq_of_purely_toList isList
      exact valid.advanceQuiet acts undisturbed
        (.walking walk_eq (.retain backlog bound evaluated))
  | retain backlog bound evaluated =>
    obtain ⟨reply, performed, rfl⟩ := advances.exists_reply
    exact valid.retain acts walk_eq evaluated (congrArg Prod.snd performed).symm
  | fail evaluated isError =>
    obtain ⟨reply, performed, rfl⟩ := advances.exists_reply
    exact valid.fail acts walk_eq evaluated isError performed
  | launch backlog bound hired =>
    obtain ⟨reply, performed, rfl⟩ := advances.exists_reply
    exact valid.launch acts walk_eq hired (congrArg Prod.snd performed).symm
      fun _ => .count backlog bound
  | count backlog bound =>
    obtain ⟨reply, performed, rfl⟩ := advances.exists_reply
    exact valid.advanceQuiet acts (valid.undisturbed performed nofun)
      (.walking walk_eq (.loop backlog bound))

theorem Valid.submit (walk_eq : ledger.walk = .meeting number source tail)
    (evaluated : service.store.slot? ledger.cursor =
      some (.evaluated (.list (.cons source tail))))
    (advances : (Walker.submit plan.scheduler plan.channel backlog bound source tail).Advances
      service.store rest next.store) : ledger.Continues plan next := by
  obtain ⟨urgent, performed, rfl⟩ := advances.exists_reply
  obtain ⟨urgent_eq, after_eq⟩ := Prod.mk.inj performed
  obtain ⟨submitted, undisturbed⟩ :=
    service.store.submit_of_isStarted valid.started (.source source plan.channel backlog)
  obtain rfl := (Option.some.inj urgent_eq).symm.trans submitted
  refine valid.hire acts walk_eq evaluated (after_eq ▸ undisturbed) ?_
  exact .launch backlog bound (getElem?_concat_length ..)

end

end

end Walker

/-! ## Everybody -/

/-- Whatever the role of a thread, its own code takes a step. -/
theorem Valid.act (valid : ledger.Valid plan service)
    (acts : ledger.Acts service number request rest next)
    (role : ledger.Role plan service.store number request code)
    (held : request.runs = none → ∀ thunk following, code = .evaluate thunk following →
      ∃ slot, service.store.slot? thunk = some slot)
    (advances : code.Advances service.store rest next.store) : ledger.Continues plan next := by
  cases role with
  | bystander avoids =>
    obtain ⟨avoids, undisturbed⟩ := advances.avoids avoids (.inl valid.held) valid.queues
    exact valid.advanceQuiet acts undisturbed (.bystander avoids)
  | walking walk_eq ahead => exact valid.walk acts walk_eq ahead (held rfl) advances
  | meeting backlog bound walk_eq evaluated =>
    exact valid.submit acts walk_eq evaluated advances
  | leaving walk_eq =>
    obtain ⟨reply, performed, rfl⟩ := advances.exists_reply
    exact valid.quit acts walk_eq (congrArg Prod.snd performed).symm
  | working hired silent => exact valid.work acts hired silent (held rfl) advances
  | spoken hired spoken => exact valid.depart acts hired spoken advances

end Ledger
end Rally
end ByNeed
