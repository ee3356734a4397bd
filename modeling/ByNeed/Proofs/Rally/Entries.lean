import ByNeed.Proofs.Rally.Accounts

/-!
# Entries in the ledger of a rally

An entry leaves as they were the daemons that wait, the roles of all other threads, and what is
known of the sources.
-/

namespace ByNeed

variable {ρ : Type} {store after : Store} {channel : Nat}
variable {thunk : Thunk} {number : Nat}

/-! ## Steps of own code -/

namespace Code.Advances

variable {rest : Code ρ}

theorem exists_reply (advances : (Code.act action following).Advances store rest after) :
    ∃ reply, action.perform store = (some reply, after) ∧ rest = following reply := by
  cases advances with
  | act performed => exact ⟨_, performed, rfl⟩

theorem eq_of_call (advances : (Code.call routine following).Advances store rest after) :
    rest = routine.body.bind following ∧ after = store := by
  cases advances with
  | call => exact ⟨rfl, rfl⟩

theorem exists_answer (advances : (Code.evaluate thunk following).Advances store rest after)
    (held : ∃ slot, store.slot? thunk = some slot) :
    ∃ value, store.slot? thunk = some (.evaluated value) ∧ rest = following value ∧
      after = store := by
  cases advances with
  | answer evaluated =>
    obtain ⟨slot, found⟩ := held
    rw [Store.slot_eq_of_slot? found] at evaluated
    exact ⟨_, evaluated ▸ found, rfl, rfl⟩

end Code.Advances

theorem Stack.mem_claims_of_bottom {stack : Stack ρ} {chain bottom : List Link}
    (bottom_eq : stack.bottom chain = (bottom, following)) (mem : thunk ∈ chainThunks bottom) :
    thunk ∈ chainThunks chain ++ stack.claims := by
  induction stack generalizing chain with
  | base next =>
    cases bottom_eq
    exact List.mem_append_left _ mem
  | nested next outer rest ih =>
    exact List.mem_append_right _ (ih bottom_eq)

/-- What the own code of a daemon asks for was made before. -/
theorem Service.SoundIn.held_of_stands {service : Service} {request : Request}
    {thread : Thread request.Result} {following : Value → Code request.Result}
    (soundIn : service.SoundIn realm) (present : service.tasks number = some ⟨request, thread⟩)
    (pure : request.runs = none)
    (stands : thread.Stands service.store (.evaluate thunk following)) :
    ∃ slot, service.store.slot? thunk = some slot := by
  cases stands with
  | own =>
    rw [← soundIn.store_eq]
    have may := Thread.Safe.mayEvaluate (soundIn.safe _ _ present) soundIn.sound
      (soundIn.bears present) rfl
    rcases may with ⟨slot, found, -⟩ | ⟨source, identity, runs, -⟩
    · exact ⟨slot, found⟩
    · change request.runs = some source at runs
      rw [pure] at runs
      cases runs
  | seeking bottom_eq first =>
    have claimed : thunk ∈ thread.claims := by
      have mem := List.mem_of_getLast? first
      cases thread with
      | running code => cases bottom_eq
      | _ => exact Stack.mem_claims_of_bottom (Option.some.inj bottom_eq) mem
    exact ⟨_, ((soundIn.owns present).mem_iff thunk).mp claimed⟩
  | found evaluated => exact ⟨_, evaluated⟩

/-! ## Stores -/

namespace Store

/-- Submitting to a scheduler that is started takes a number and changes nothing else. -/
theorem submit_of_isStarted {scheduler : Nat}
    (started : (store.scheduler scheduler).isStarted = true) (duty : Duty) :
    (store.submit scheduler duty).1 = some ⟨store.nextDaemon, duty⟩ ∧
      store.Undisturbed channel (store.submit scheduler duty).2 := by
  have same := (store.scheduler scheduler).submit_of_isStarted ⟨store.nextDaemon, duty⟩ started
  simp only [Store.submit, same, setScheduler_scheduler]
  exact ⟨trivial, { Undisturbed.refl channel store with channel_eq := rfl }⟩

end Store

theorem Action.eq_of_send
    (performed : (Action.send channel message).perform store = (some reply, after)) :
    after = store.setChannel channel ((store.channel channel).send message).2 := by
  simp only [perform] at performed
  split at performed
  · cases performed
  · cases performed
    rfl

theorem Value.eq_of_purely_toList {value : Value} (isList : value.purely.toList = .ok cells) :
    value = .list cells := by
  cases value <;> cases isList
  rfl

namespace Rally
namespace Ledger

variable {plan : Plan} {ledger : Ledger} {service next : Service}
variable {walk : Walk} {log : List Entry} {position : Nat} {former : Hand} {store : Store}

/-! ## Entries -/

theorem waiting_assign (found : ledger.hands[position]? = some former) (hand : Hand) :
    ((former.launched? plan.channel).toList ++ (ledger.assign position hand).waiting plan).Perm
      ((hand.launched? plan.channel).toList ++ ledger.waiting plan) := by
  obtain ⟨inBounds, rfl⟩ := List.getElem?_eq_some_iff.mp found
  have cons : ∀ (hand : Hand) (hands : List Hand),
      (hand :: hands).filterMap (Hand.launched? plan.channel) =
        (hand.launched? plan.channel).toList ++ hands.filterMap (Hand.launched? plan.channel) := by
    intro hand hands
    cases entry : hand.launched? plan.channel <;> simp [entry]
  have set := (List.set_perm_cons_eraseIdx inBounds hand).filterMap (Hand.launched? plan.channel)
  have former := (List.getElem_cons_eraseIdx_perm inBounds).filterMap (Hand.launched? plan.channel)
  rw [cons, List.perm_iff_count] at set former
  rw [List.perm_iff_count]
  intro entry
  have set := set entry
  have former := former entry
  simp only [waiting, launchedWalk?, assign, List.count_append] at set former ⊢
  omega

/-- Only the hand of the thread itself, or of a daemon that is yet to begin, changes. -/
theorem Spares.assign (found : ledger.hands[position]? = some former)
    (own : ∀ task, former.post.task? = some task → task = number)
    (born : former.post ≠ .unborn ∨ ledger.walk.task? = some number) (hand : Hand) :
    Spares number ledger { ledger with hands := ledger.hands.set position hand, log } where
  walk task ne walks := by
    refine ⟨rfl, rfl, fun other source unborn => ?_⟩
    have elsewhere : position ≠ other := by
      rintro rfl
      rw [found] at unborn
      cases unborn
      rcases born with born | walksOn
      · exact born rfl
      · rw [walks] at walksOn
        exact ne (Option.some.inj walksOn)
    exact (List.getElem?_set_ne elsewhere).trans unborn
  hands other task otherHand ne present works := by
    have elsewhere : position ≠ other := by
      rintro rfl
      rw [found] at present
      cases present
      exact ne (own task works)
    exact (List.getElem?_set_ne elsewhere).trans present

/-- The walker may go wherever it wants. -/
theorem Spares.setWalk {cursor : Thunk} {hands : List Hand}
    (own : ∀ task, ledger.walk.task? = some task → task = number)
    (kept : ∀ (position : Nat) (hand : Hand), ledger.hands[position]? = some hand →
      hands[position]? = some hand) :
    Spares number ledger { ledger with walk, cursor, hands, log } where
  walk task ne walks := absurd (own task walks) ne
  hands position _ hand _ found _ := kept position hand found

theorem waiting_setWalk {cursor : Thunk} (begun : ∀ daemon, ledger.walk ≠ .launched daemon)
    (still : ∀ daemon, walk ≠ .launched daemon) :
    waiting plan { ledger with walk, cursor, log } = ledger.waiting plan := by
  have former : ledger.launchedWalk? plan = none := by
    unfold launchedWalk?
    split
    · rename_i daemon launched
      exact absurd launched (begun daemon)
    · rfl
  have now : launchedWalk? plan { ledger with walk, cursor, log } = none := by
    unfold launchedWalk?
    split
    · rename_i daemon launched
      exact absurd launched (still daemon)
    · rfl
  rw [waiting, waiting, former, now]

theorem sources_set (found : ledger.hands[position]? = some former) (post : Post) :
    (ledger.hands.set position ⟨former.source, post⟩).map Hand.source = ledger.sources := by
  obtain ⟨inBounds, rfl⟩ := List.getElem?_eq_some_iff.mp found
  have inSources : position < (ledger.hands.map Hand.source).length := by simpa using inBounds
  rw [List.map_set, sources]
  simpa using List.set_getElem_self inSources

theorem Facts.amend {hands : List Hand} (facts : ledger.Facts plan store)
    (sources_eq : hands.map Hand.source = ledger.sources)
    (stays : ledger.walk.isOver = true → walk.isOver = true)
    (kept : ∀ entry ∈ ledger.log, entry ∈ log)
    (backed : ∀ entry ∈ log, entry ∈ ledger.log ∨ Backed { ledger with walk } store entry)
    (exhausted : walk.isOver = true → ledger.token.isFailed = false → ledger.walk.isOver = true ∨
        store.slot? ledger.cursor = some (.evaluated (.list .empty)) ∨
          ∃ error, .broken error ∈ log) : Facts plan { ledger with walk, hands, log } store where
  cells := by
    have cells := facts.cells
    rw [← sources_eq] at cells
    exact cells
  backed entry mem := by
    have so : Backed { ledger with walk } store entry := by
      rcases backed entry mem with formerly | so
      · cases entry with
        | broken error => exact (facts.backed _ formerly).imp_left stays
        | _ => exact facts.backed _ formerly
      · exact so
    cases entry <;> simpa only [Backed, sources, sources_eq] using so
  exhausted isOver notFailed := by
    rcases exhausted isOver notFailed with wasOver | reason
    · exact (facts.exhausted wasOver notFailed).imp_right fun ⟨error, mem⟩ => ⟨error, kept _ mem⟩
    · exact reason

/-- Nothing is recorded, and the walk is over only if the list of sources has ended. -/
theorem Facts.setWalk (facts : ledger.Facts plan store)
    (stays : ledger.walk.isOver = true → walk.isOver = true)
    (exhausted : walk.isOver = true → ledger.token.isFailed = false → ledger.walk.isOver = true ∨
        store.slot? ledger.cursor = some (.evaluated (.list .empty))) :
    Facts plan { ledger with walk } store :=
  facts.amend rfl stays (fun _ mem => mem) (fun _ mem => .inl mem)
    fun isOver notFailed => (exhausted isOver notFailed).imp_right .inl

/-- A source is met. -/
theorem Facts.hire (facts : ledger.Facts plan store)
    (evaluated : store.slot? ledger.cursor = some (.evaluated (.list (.cons source tail))))
    (wasAhead : ledger.walk.isOver = false) (ahead : walk.isOver = false) :
    Facts plan { ledger with walk, cursor := tail, hands := ledger.hands ++ [⟨source, .unborn⟩] }
      store where
  cells := by
    rw [sources, List.map_append]
    exact facts.cells.snoc evaluated
  backed entry mem := by
    have backed := facts.backed entry mem
    have kept : ∀ {position : Nat} {found : Thunk}, ledger.sources[position]? = some found →
        ((ledger.hands ++ [Hand.mk source .unborn]).map Hand.source)[position]? = some found := by
      intro position found met
      rw [List.map_append]
      exact (List.getElem?_append_left (List.getElem?_eq_some_iff.mp met).1).trans met
    cases entry with
    | listed position source => exact backed.imp_left kept
    | failed position error =>
      obtain ⟨source, value, met, evaluated, isError⟩ := backed
      exact ⟨source, value, kept met, evaluated, isError⟩
    | broken error =>
      rw [backed.1] at wasAhead
      cases wasAhead
  exhausted isOver := by
    rw [show walk.isOver = true from isOver] at ahead
    cases ahead

end Ledger
end Rally
end ByNeed
