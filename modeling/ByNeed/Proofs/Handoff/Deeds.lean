import ByNeed.Proofs.Handoff.Exchange

/-!
# Every deed keeps the tape

The tape of a handoff is valid if nobody in the company uses the channel but for reading the list,
and the cells are there or on their way.  Whatever happens in company and whatever publishers do,
the tape can be brought up to date.
-/

namespace ByNeed

open Service List
namespace Handoff
namespace Tape

variable {tape later : Tape} {exchange : Exchange} {next : Service} {realm : Realm} {number : Nat}
  {request : Request} {thread : Thread request.Result}

/-- Everything is as the tape says. -/
structure Valid (tape : Tape) (exchange : Exchange) : Prop where
  kept : tape.Kept exchange.channel exchange.publishers.card exchange.list exchange.service
  made : tape.token ≠ .unmade
  queues : exchange.service.store.QueuesAvoid exchange.channel
  launched : exchange.service.store.launchedOn exchange.channel = []
  own : ∀ number task, exchange.service.tasks number = some task →
    ∃ code, task.thread.Stands exchange.service.store code ∧ code.Avoids exchange.channel
  apart : ∀ number task, exchange.service.tasks number = some task →
    tape.token.holder? ≠ some number → task.thread.Apart exchange.channel

/-- A later tape of the same handoff, with the same messages. -/
structure Follows (tape later : Tape) : Prop where
  log_eq : later.log = tape.log
  isOpen : later.token.isOpen = true → tape.token.isOpen = true
  dropped_eq : later.dropped = tape.dropped

theorem Follows.refl (tape : Tape) : tape.Follows tape :=
  ⟨rfl, id, rfl⟩

/-- The tape can be brought up to date with the company. -/
def Continues (tape : Tape) (exchange : Exchange) (next : Service) : Prop :=
  ∃ later : Tape, later.Valid { exchange with service := next } ∧ tape.Follows later

/-! ## Readers -/

section Readers

variable (valid : tape.Valid exchange)

include valid

/-- The tape stays valid if it is brought up to date for the thread that took a step. -/
theorem Valid.update (passes : exchange.service.Passes number next)
    (persists : exchange.service.store.Persists exchange.channel next.store)
    (launched_eq : next.store.launchedOn exchange.channel =
      exchange.service.store.launchedOn exchange.channel)
    (kept : later.Kept exchange.channel exchange.publishers.card exchange.list next)
    (made : later.token ≠ .unmade)
    (holders : ∀ other, other ≠ number → tape.token.holder? = some other →
      later.token.holder? = some other)
    (own : ∀ task, next.tasks number = some task →
      (∃ code, task.thread.Stands next.store code ∧ code.Avoids exchange.channel) ∧
        (later.token.holder? ≠ some number → task.thread.Apart exchange.channel)) :
    later.Valid { exchange with service := next } where
  kept := kept
  made := made
  queues := persists.queues valid.queues
  launched := launched_eq.trans valid.launched
  own other task present := by
    by_cases same : other = number
    · subst same
      exact (own task present).1
    · rw [passes.others other same] at present
      obtain ⟨code, stands, avoids⟩ := valid.own other task present
      exact ⟨code, stands.mono passes.keeps, avoids⟩
  apart other task present notHolder := by
    by_cases same : other = number
    · subst same
      exact (own task present).2 notHolder
    · rw [passes.others other same] at present
      exact valid.apart other task present fun holds => notHolder (holders other same holds)

/-- Nothing is done to the channel. -/
theorem Valid.quiet (passes : exchange.service.Passes number next)
    (undisturbed : exchange.service.store.Undisturbed exchange.channel next.store)
    (holder : tape.token.holder? = some number →
      next.tasks number = exchange.service.tasks number)
    (own : ∀ task, next.tasks number = some task →
      (∃ code, task.thread.Stands next.store code ∧ code.Avoids exchange.channel) ∧
        (tape.token.holder? ≠ some number → task.thread.Apart exchange.channel)) :
    tape.Continues exchange next :=
  ⟨tape, valid.update passes undisturbed.toPersists undisturbed.launched_eq
    (valid.kept.keep passes undisturbed.toUpholds holder
      (undisturbed.channel_eq ▸ valid.kept.books)) valid.made (fun _ _ holds => holds) own, .refl _⟩

/-- The list is read on. -/
theorem Valid.handle
    (readsOn : tape.ReadsOn later exchange.channel exchange.publishers.card exchange.list
      exchange.service number thread next)
    (own : ∃ code, thread.Stands next.store code ∧ code.Avoids exchange.channel) :
    tape.Continues exchange next := by
  refine ⟨later, valid.update readsOn.passes readsOn.persists readsOn.launched_eq readsOn.kept
    readsOn.made (fun other ne holds => absurd (readsOn.holder other holds) ne) ?_,
    readsOn.log_eq, fun _ => readsOn.wasOpen, readsOn.dropped_eq⟩
  intro task found
  rw [readsOn.present] at found
  cases found
  exact ⟨own, readsOn.apart⟩

/-- Something is done to the channel from outside. -/
theorem Valid.deal {publishers : Finset Nat} (log : List Message) (dropped : Bool)
    (books : Books { tape with log, dropped } publishers.card state) :
    Valid { tape with log, dropped }
      { exchange.withStore (exchange.service.store.setChannel exchange.channel state) with
        publishers } := by
  have upholds : exchange.service.store.Upholds exchange.channel
      (exchange.service.store.setChannel exchange.channel state) :=
    exchange.service.store.upholds_setChannel _ _
  have passes : exchange.service.Passes 0
      { exchange.service with
        store := exchange.service.store.setChannel exchange.channel state } :=
    { keeps := fun _ _ evaluated => evaluated
      delivers := fun _ _ delivers => by
        refine delivers.imp_right ?_
        rintro ⟨number, task, present, delivering⟩
        exact ⟨number, task, present, delivering.mono fun _ _ evaluated => evaluated⟩
      others := fun _ _ => rfl }
  exact
    { kept := by
        refine valid.kept.keep passes upholds (fun _ => rfl) ?_
        exact (Store.channel_setChannel_self valid.kept.held state).symm ▸ books
      made := valid.made
      queues := upholds.queues valid.queues
      launched := valid.launched
      own := fun number task present => by
        obtain ⟨code, stands, avoids⟩ := valid.own number task present
        exact ⟨code, stands.mono passes.keeps, avoids⟩
      apart := valid.apart }

end Readers

/-! ## Company -/

section Company

variable (valid : tape.Valid exchange)

include valid

theorem Valid.step (soundIn : exchange.service.SoundIn realm)
    (passes : exchange.service.Passes number next)
    (present : exchange.service.tasks number = some ⟨request, thread⟩)
    (moved : thread.step number exchange.service.store = (.moved moving, next.store))
    (presentNext : next.tasks number = some ⟨request, moving⟩) :
    tape.Continues exchange next := by
  have owns := soundIn.owns present
  obtain ⟨code, stands, avoids⟩ := valid.own number _ present
  by_cases holds : tape.token.holder? = some number
  · obtain ⟨later, readsOn⟩ := valid.kept.stepHolder passes presentNext holds present moved
    exact valid.handle readsOn
      ⟨code, valid.kept.lastCell.stands holds present stands owns moved, avoids⟩
  · have apart := valid.apart number _ present holds
    cases apart.stride stands owns (.inl valid.kept.held) valid.queues moved with
    | own rest next_eq advances =>
      subst next_eq
      obtain ⟨restAvoids, undisturbed⟩ := advances.avoids avoids (.inl valid.kept.held) valid.queues
      refine valid.quiet passes undisturbed (fun own => absurd own holds) fun task found => ?_
      rw [presentNext] at found
      cases found
      exact ⟨⟨rest, .own rest, restAvoids⟩, fun _ => trivial⟩
    | spare stands apart undisturbed =>
      refine valid.quiet passes undisturbed (fun own => absurd own holds) fun task found => ?_
      rw [presentNext] at found
      cases found
      exact ⟨⟨code, stands, avoids⟩, fun _ => apart⟩
    | claim thunk stands suspended store_eq claims =>
      exact valid.handle (valid.kept.claim passes presentNext suspended store_eq claims)
        ⟨code, stands, avoids⟩

/-- The tape is kept whatever happens in company. -/
theorem Valid.shift (soundIn : exchange.service.SoundIn realm) (shift : Shift) :
    tape.Continues exchange (exchange.service.shift shift) := by
  have turn := soundIn.turn exchange.channel shift
  generalize exchange.service.shift shift = next at turn ⊢
  cases turn with
  | moved passes _ present moved presentNext =>
    exact valid.step soundIn passes present moved presentNext
  | adopted _ mine launched =>
    exact absurd (launchedOn_withdraw launched mine) (by simp [valid.launched])
  | quiet passes undisturbed former present =>
    refine valid.quiet passes undisturbed (valid.kept.lastCell.tasks_eq former)
      fun task found => ?_
    rcases present task found with unchanged | ⟨request, code, rfl, avoids⟩
    · obtain ⟨code, stands, avoids⟩ := valid.own _ task unchanged
      exact ⟨⟨code, stands.mono passes.keeps, avoids⟩, valid.apart _ task unchanged⟩
    · exact ⟨⟨_, .own _, avoids⟩, fun _ => trivial⟩

end Company

/-! ## Deeds -/

/-- The tape that is brought up to date for a deed. -/
structure Leads (tape later : Tape) (exchange : Exchange) (deed : Deed) : Prop where
  log_eq : later.log = tape.log ++ (exchange.accepts? deed).toList
  listens : later.listens = true → tape.listens = true
  dropped : later.dropped = true → tape.dropped = true ∨ deed = .dropList

theorem Follows.leads (follows : tape.Follows later)
    (none_accepted : exchange.accepts? deed = none) : tape.Leads later exchange deed where
  log_eq := by rw [none_accepted, follows.log_eq, Option.toList_none, append_nil]
  listens isListening := by
    simp only [Tape.listens, Bool.and_eq_true, follows.dropped_eq] at isListening ⊢
    exact ⟨follows.isOpen isListening.1, isListening.2⟩
  dropped isDropped := .inl (follows.dropped_eq ▸ isDropped)

section

variable (valid : tape.Valid exchange)

include valid

/-- A publisher that has to wait is told nothing; else its message is accepted as long as the
list can be read. -/
theorem Valid.reply?_send (may : exchange.maySend publisher message = true) :
    exchange.reply? (.send publisher message) =
      if exchange.state.mustWait then none else some tape.listens := by
  rw [Exchange.reply?, if_pos may, Action.perform]
  change (if exchange.state.mustWait then _ else _ : Option Bool × Store).1 = _
  split
  · rfl
  · rw [← valid.kept.books.listening_eq]
    change some (exchange.state.send message).1 = some exchange.state.listening
    cases listening : exchange.state.listening with
    | true => rw [Channel.send_of_listening _ _ listening]
    | false => rw [Channel.send_of_gone _ _ listening]

theorem Valid.send (publisher : Nat) (message : Message) :
    ∃ later : Tape, later.Valid (exchange.act (.send publisher message)) ∧
      tape.Leads later exchange (.send publisher message) := by
  simp only [Exchange.act]
  split
  · rename_i may
    have present := Finset.card_pos.mpr ⟨publisher, Exchange.mem_publishers_of_maySend may⟩
    have replies := valid.reply?_send may
    simp only [Exchange.perform, Action.perform]
    split
    · rename_i full
      rw [show exchange.state.mustWait = true from full, if_pos rfl] at replies
      exact ⟨tape, valid, (Follows.refl tape).leads (by rw [Exchange.accepts?, replies]; rfl)⟩
    · rename_i room
      rw [show exchange.state.mustWait = false from Bool.not_eq_true _ ▸ room] at replies
      refine ⟨tape.record message, valid.deal _ _ (valid.kept.books.record present message), ?_,
        id, .inl⟩
      rw [Exchange.accepts?, replies, record]
      cases tape.listens with
      | true => rfl
      | false => exact (append_nil _).symm
  · rename_i mayNot
    refine ⟨tape, valid, (Follows.refl tape).leads ?_⟩
    rw [Exchange.accepts?, Exchange.reply?, if_neg mayNot]
    rfl

/-- The tape is kept through every deed. -/
theorem Valid.act (soundIn : exchange.service.SoundIn realm) (deed : Deed) :
    ∃ later : Tape, later.Valid (exchange.act deed) ∧ tape.Leads later exchange deed := by
  cases deed with
  | company shift =>
    obtain ⟨later, validLater, follows⟩ := valid.shift soundIn shift
    exact ⟨later, validLater, follows.leads rfl⟩
  | send publisher message => exact valid.send publisher message
  | clone publisher copy =>
    refine ⟨tape, ?_, (Follows.refl tape).leads rfl⟩
    simp only [Exchange.act]
    split
    · rename_i known
      refine valid.deal _ _ ?_
      rw [Finset.card_insert_of_notMem known.2]
      exact valid.kept.books.retain (Finset.card_pos.mpr ⟨publisher, known.1⟩)
    · exact valid
  | drop publisher =>
    refine ⟨tape, ?_, (Follows.refl tape).leads rfl⟩
    simp only [Exchange.act]
    split
    · rename_i known
      refine valid.deal _ _ ?_
      rw [Finset.card_erase_of_mem known]
      exact valid.kept.books.release (Finset.card_pos.mpr ⟨publisher, known⟩)
    · exact valid
  | ask publisher => exact ⟨tape, valid, (Follows.refl tape).leads rfl⟩
  | dropList =>
    refine ⟨_, valid.deal _ _ valid.kept.books.drop, ?_⟩
    exact
      { log_eq := (append_nil _).symm
        listens := fun isListening => by simp [listens] at isListening
        dropped := fun _ => .inr rfl }

theorem Valid.acts (soundIn : exchange.service.SoundIn realm) (deeds : List Deed) :
    ∃ later : Tape,
      later.Valid (exchange.acts deeds) ∧
      later.log = tape.log ++ exchange.accepted deeds ∧
      (later.listens = true → tape.listens = true) ∧
      (later.dropped = true → tape.dropped = true ∨ .dropList ∈ deeds) := by
  induction deeds generalizing tape exchange realm with
  | nil => exact ⟨tape, valid, (append_nil _).symm, id, .inl⟩
  | cons first rest ih =>
    obtain ⟨between, validThen, leads⟩ := valid.act soundIn first
    obtain ⟨later, -, soundThen⟩ := exchange.soundIn_act soundIn first
    obtain ⟨last, validNow, log_eq, listens, dropped⟩ := ih validThen soundThen
    refine ⟨last, validNow, ?_, fun isListening => leads.listens (listens isListening), ?_⟩
    · rw [log_eq, leads.log_eq, Exchange.accepted, append_assoc]
    · intro isDropped
      rcases dropped isDropped with before | later
      · rcases leads.dropped before with earlier | rfl
        · exact .inl earlier
        · exact .inr mem_cons_self
      · exact .inr (mem_cons_of_mem _ later)

end

end Tape

/-! ## Opening -/

/-- The tape of a handoff that was just opened. -/
def opening (list : Thunk) : Tape where
  log := []
  taken := 0
  items := []
  last := list
  token := .idle
  dropped := false

variable {digest : List Piece → UInt64} {service : Service}

theorem exists_soundIn_opening (arises : service.Arises digest) (capacity publisher : Nat) :
    ∃ realm, (service.openHandoff capacity publisher).service.SoundIn realm := by
  obtain ⟨realm, soundIn⟩ := arises.exists_soundIn
  have newChannelAllowed : (Action.newChannel capacity).Allowed realm := realm.seesAll_nil
  obtain ⟨between, -, soundThen⟩ := soundIn.perform newChannelAllowed
  have suspendAllowed : (Action.suspend (.receive service.store.channels.size)).Allowed between :=
    between.seesAll_nil
  obtain ⟨later, -, soundNow⟩ := soundThen.perform suspendAllowed
  exact ⟨later, soundNow⟩

/-- The channel of a handoff is new, so the tape is valid when it is opened. -/
theorem valid_opening (arises : service.Arises digest) (capacity publisher : Nat) :
    (opening (service.openHandoff capacity publisher).list).Valid
      (service.openHandoff capacity publisher) := by
  have pristine := arises.keepsSecrets service.store.channels.size (Nat.le_refl _)
  have grows := (service.store.newChannel capacity).2.grows_allocate
    (.suspended (.receive service.store.channels.size)) (by simp)
  have state_eq : (service.openHandoff capacity publisher).state = { capacity } := by
    simp [Exchange.state, Service.openHandoff, Store.channel, Store.newChannel, Store.allocate]
  exact
    { kept :=
        { held := Array.size_push _ ▸ Nat.lt_succ_self _
          books := by
            change Tape.Books _ 1 (service.openHandoff capacity publisher).state
            rw [state_eq]
            exact .opening _ rfl rfl rfl capacity
          readers := fun thunk found => by
            rcases Store.eq_or_of_slot?_allocate _ found with isNew | formerly
            · exact ⟨rfl, isNew⟩
            · exact absurd formerly (pristine.unread thunk)
          trail := fun _ => .here _
          lastCell := Store.slot?_allocated _ _ }
      made := by simp [opening]
      queues := pristine.queues
      launched := pristine.launched
      own := fun number task present => by
        obtain ⟨⟨code, stands, avoids⟩, -⟩ := pristine.bystands number task present
        exact ⟨code, stands.mono fun thunk value => grows.keeps thunk (.evaluated value), avoids⟩
      apart := fun number task present _ => (pristine.bystands number task present).2 }

end Handoff
end ByNeed
