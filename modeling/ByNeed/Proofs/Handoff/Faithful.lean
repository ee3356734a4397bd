import ByNeed.Proofs.Handoff.Deeds
import ByNeed.Proofs.Handoff.Arrival

/-!
# The list of a handoff is what was published

The cells hold the messages that were accepted, in order, and the first failure ends the list as an
error.  The list ends empty only when no publisher is left and everything is listed.
-/

namespace ByNeed

open List Message

variable {value : Value}

/-! ## Faithful lists -/

namespace Exchange

/-- The list has turned into an error, or a reader is about to make it so. -/
def EndsIn (exchange : Exchange) (error : Error) : Prop :=
  ∃ items last, exchange.service.Trail exchange.list items last ∧
    exchange.service.Delivers last (.error error)

/-- What a cell holds, by the message that was accepted for it. -/
def CellFor (exchange : Exchange) : Option Message → Value → Prop
  | some (.item element), value => ∃ rest, value = .list (.cons element rest)
  | some (.failure error), value => value = .error error
  | none, value => value = .list .empty ∧ exchange.publishers = ∅

/-- The list of an exchange is made of the messages that were accepted. -/
structure Faithful (exchange : Exchange) (sent : List Message) : Prop where
  /-- The cells hold the first elements. -/
  listed : ∀ items last, exchange.service.store.Cells exchange.list items last →
    items.map item <+: sent
  /-- A cell goes on, fails or ends as it was told. -/
  formed : ∀ items last value, exchange.service.store.Cells exchange.list items last →
    exchange.service.store.slot? last = some (.evaluated value) →
      exchange.CellFor sent[items.length]? value
  /-- The list turns into an error when its first failure is read. -/
  failed : ∃ taken ≤ sent.length, exchange.state.unread = sent.drop taken ∧
    ∀ error, exchange.EndsIn error ↔
      ∃ items : List Thunk, sent.take taken = items.map item ++ [.failure error]
  /-- A cell is finished in a few shifts once it is known what it holds. -/
  finished : ∀ items last reader, exchange.service.store.Cells exchange.list items last →
    exchange.service.tasks reader = none →
      items.length < sent.length ∨ exchange.publishers = ∅ → exchange.service.Finishes last 7

end Exchange

/-! ## Reading the tape -/

/-- A list that was read ends in a failure exactly if the token says so. -/
theorem Handoff.Token.pending_eq_iff {token : Token} (listed : List Thunk) :
    token.pending = [.failure error] ↔ ∃ items : List Thunk,
      listed.map item ++ token.pending = items.map item ++ [.failure error] := by
  constructor
  · intro pending_eq
    exact ⟨listed, by rw [pending_eq]⟩
  · rintro ⟨items, read_eq⟩
    have failure_mem : failure error ∈ listed.map item ++ token.pending :=
      read_eq ▸ mem_append_right _ mem_cons_self
    have pending : failure error ∈ token.pending := by
      simpa using failure_mem
    unfold Token.pending at pending ⊢
    split at pending <;> simp_all

namespace Handoff.Tape

variable {tape : Tape} {exchange : Exchange} {realm : Realm}

section Reading

variable (valid : tape.Valid exchange) (soundIn : exchange.service.SoundIn realm)
variable {items : List Thunk} {last : Thunk}

include valid soundIn

/-- The list ends in an error once a failure was read. -/
theorem Valid.endsIn_iff (error : Error) :
    exchange.EndsIn error ↔ tape.token.pending = [.failure error] := by
  have trail := valid.kept.trail valid.made
  constructor
  · rintro ⟨items, last, trailToo, delivers⟩
    cases trail.unique_error soundIn trailToo delivers (valid.kept.unfinished valid.made soundIn)
    rcases valid.kept.token_of_delivers valid.made soundIn delivers with
      ⟨found, failed, isError⟩ | ⟨-, isEnd⟩
    · cases isError
      exact failed
    · cases isEnd
  · intro failed
    exact ⟨tape.items, tape.last, trail, valid.kept.lastCell.delivers_of_pending failed⟩

section

variable (cells : exchange.service.store.Cells exchange.list items last)

include cells

/-- The elements of the list were accepted first. -/
theorem Valid.listed : items.map item <+: tape.log := by
  obtain ⟨rest, items_eq, -⟩ := valid.kept.exists_rest valid.made soundIn cells
  have before : items.map item <+: tape.items.map item := by
    rw [items_eq, map_append]
    exact prefix_append _ _
  exact before.trans ((prefix_append _ _).trans valid.kept.books.read_prefix)

/-- What a cell of the list holds was accepted for it. -/
theorem Valid.formed (evaluated : exchange.service.store.slot? last = some (.evaluated value)) :
    exchange.CellFor tape.log[items.length]? value := by
  obtain ⟨rest, items_eq, trail⟩ := valid.kept.exists_rest valid.made soundIn cells
  obtain ⟨unread, log_eq⟩ := valid.kept.books.read_prefix
  cases trail with
  | @cons _ head tail _ elements delivers trail =>
    have found : tape.log[items.length]? = some (.item head) := by
      simp [← log_eq, items_eq]
    rw [found]
    exact ⟨tail, delivers.eq_of_evaluated soundIn evaluated⟩
  | here =>
    rw [append_nil] at items_eq
    rcases valid.kept.token_of_delivers valid.made soundIn (.inl evaluated) with
      ⟨error, failed, rfl⟩ | ⟨ended, rfl⟩
    · have found : tape.log[items.length]? = some (.failure error) := by
        simp [← log_eq, items_eq, failed]
      rw [found]
      rfl
    · obtain ⟨none_left, allTaken⟩ := valid.kept.books.ended ended
      have none_pending := Token.pending_of_isEnded ended
      have all_eq := valid.kept.books.read_eq
      rw [allTaken, take_length, items_eq, none_pending, append_nil] at all_eq
      rw [all_eq, getElem?_eq_none (length_map _).le]
      exact ⟨rfl, Finset.card_eq_zero.mp none_left⟩

/-- A cell is finished once it is known what it holds. -/
theorem Valid.finished (free : exchange.service.tasks reader = none)
    (due : items.length < tape.log.length ∨ exchange.publishers = ∅) :
    exchange.service.Finishes last 7 := by
  obtain ⟨rest, items_eq, trail⟩ := valid.kept.exists_rest valid.made soundIn cells
  cases trail with
  | cons delivers trail => exact (delivers.finishes soundIn).le (by decide)
  | here =>
    rw [append_nil] at items_eq
    exact valid.finishes soundIn (items_eq ▸ due) free

end

/-- The list is made of what was accepted. -/
theorem Valid.faithful : exchange.Faithful tape.log where
  listed _ _ cells := valid.listed soundIn cells
  formed _ _ _ cells evaluated := valid.formed soundIn cells evaluated
  failed := by
    refine ⟨tape.taken, valid.kept.books.taken_le, valid.kept.books.unread_eq, fun error => ?_⟩
    rw [valid.endsIn_iff soundIn, valid.kept.books.read_eq]
    exact Token.pending_eq_iff tape.items
  finished _ _ _ cells free due := valid.finished soundIn cells free due

theorem Valid.refused (refused : exchange.reply? (.send publisher message) = some false) :
    tape.dropped = true ∨ ∃ error, exchange.EndsIn error := by
  have may : exchange.maySend publisher message = true := by
    by_contra mayNot
    rw [Exchange.reply?, if_neg mayNot] at refused
    cases refused
  have present := Finset.card_pos.mpr ⟨publisher, Exchange.mem_publishers_of_maySend may⟩
  have gone : tape.listens = false := by
    rw [valid.reply?_send may] at refused
    split at refused
    · cases refused
    · exact Option.some.inj refused
  rcases Bool.and_eq_false_imp.mp gone with gone
  cases isOpen : tape.token.isOpen with
  | true => exact .inl (by simpa using gone isOpen)
  | false =>
    have failed := Token.isFailed_of_not_isOpen isOpen (valid.kept.books.not_ended present)
    obtain ⟨error, pending_eq⟩ := Token.exists_pending_of_isFailed failed
    exact .inr ⟨error, (valid.endsIn_iff soundIn error).mpr pending_eq⟩

end Reading

section

variable (valid : tape.Valid exchange)

include valid

theorem Valid.accepts?_eq_none (gone : tape.listens = false)
    (deed : Deed) : exchange.accepts? deed = none := by
  cases deed with
  | send publisher message =>
    rw [Exchange.accepts?, if_neg]
    intro accepted
    by_cases may : exchange.maySend publisher message = true
    · rw [valid.reply?_send may, gone] at accepted
      split at accepted <;> cases accepted
    · rw [Exchange.reply?, if_neg may] at accepted
      cases accepted
  | _ => rfl

theorem Valid.accepted_eq_nil (soundIn : exchange.service.SoundIn realm)
    (gone : tape.listens = false) (deeds : List Deed) : exchange.accepted deeds = [] := by
  induction deeds generalizing tape exchange realm with
  | nil => rfl
  | cons first rest ih =>
    obtain ⟨between, validThen, leads⟩ := valid.act soundIn first
    obtain ⟨later, -, soundThen⟩ := exchange.soundIn_act soundIn first
    have goneThen : between.listens = false :=
      Bool.eq_false_iff.mpr fun listens => Bool.eq_false_iff.mp gone (leads.listens listens)
    rw [Exchange.accepted, valid.accepts?_eq_none gone, ih validThen soundThen goneThen]
    rfl

theorem Valid.gone_of_asked (told : exchange.reply? (.ask publisher) = some true) :
    tape.listens = false := by
  rw [Exchange.reply?] at told
  split at told
  · rw [← valid.kept.books.listening_eq]
    exact valid.kept.books.gone (Option.some.inj told)
  · cases told

end

end Handoff.Tape

section

variable {exchange : Exchange} (soundIn : exchange.service.SoundIn realm)

include soundIn

/-- What is evaluated stays so, whatever is done. -/
theorem Exchange.slot?_acts
    (evaluated : exchange.service.store.slot? thunk = some (.evaluated value)) (deeds : List Deed) :
    (exchange.acts deeds).service.store.slot? thunk = some (.evaluated value) := by
  induction deeds generalizing exchange realm with
  | nil => exact evaluated
  | cons first rest ih =>
    obtain ⟨later, le, soundThen⟩ := exchange.soundIn_act soundIn first
    refine ih soundThen ?_
    rw [← soundIn.store_eq] at evaluated
    rw [← soundThen.store_eq]
    exact Realm.slot?_of_le le evaluated

theorem Exchange.exists_soundIn_acts (deeds : List Deed) :
    ∃ later, (exchange.acts deeds).service.SoundIn later := by
  induction deeds generalizing exchange realm with
  | nil => exact ⟨realm, soundIn⟩
  | cons first rest ih =>
    obtain ⟨later, -, soundThen⟩ := exchange.soundIn_act soundIn first
    exact ih soundThen

end

/-- A handoff is opened in company, and anything is done by any publishers and readers.  The
list is made of what was accepted, and its cells stay as they are for every reader.  Messages
are refused only if the list was dropped or ends in an error, and never accepted again once a
publisher was told that the list is gone. -/
theorem handoff_is_faithful (digest : List Piece → UInt64) (past : List Shift)
    (capacity first : Nat) (deeds : List Deed) :
    let opened := ((Service.initial digest).shifts past).openHandoff capacity first
    let exchange := opened.acts deeds
    exchange.Faithful (opened.accepted deeds) ∧
    (∀ later,
      (exchange.acts later).list = opened.list ∧
      ∀ thunk value reader,
        exchange.service.store.slot? thunk = some (.evaluated value) →
          ((exchange.acts later).service.store.claim reader thunk).1 = .ready value) ∧
    (∀ publisher message,
      exchange.reply? (.send publisher message) = some false →
        .dropList ∈ deeds ∨ ∃ error, exchange.EndsIn error) ∧
    ∀ publisher later,
      exchange.reply? (.ask publisher) = some true →
        exchange.accepted later = [] := by
  intro opened exchange
  have arises : ((Service.initial digest).shifts past).Arises digest := ⟨past, rfl⟩
  obtain ⟨realm, soundOpened⟩ := Handoff.exists_soundIn_opening arises capacity first
  obtain ⟨tape, valid, log_eq, -, dropped⟩ :=
    (Handoff.valid_opening arises capacity first).acts soundOpened deeds
  obtain ⟨later, soundIn⟩ := Exchange.exists_soundIn_acts soundOpened deeds
  have faithful : exchange.Faithful tape.log := valid.faithful soundIn
  rw [log_eq] at faithful
  refine ⟨faithful, ?_, ?_, ?_⟩
  · intro later
    refine ⟨by rw [Exchange.list_acts, Exchange.list_acts], ?_⟩
    intro thunk value reader evaluated
    have still := Exchange.slot?_acts soundIn evaluated later
    rw [Store.claim_of_evaluated (Store.slot_eq_of_slot? still)]
  · intro publisher message refused
    rcases valid.refused soundIn refused with isDropped | endsIn
    · exact .inl ((dropped isDropped).resolve_left Bool.false_ne_true)
    · exact .inr endsIn
  · intro publisher later told
    exact valid.accepted_eq_nil soundIn (valid.gone_of_asked told) later

/-- The channel holds one message.  A copy of the publisher has to wait until the first element
is read, fails the list after the first publisher is gone, and is refused when the failure is
read. -/
def Handoff.relayed : List Deed :=
  [.send 0 (.item ⟨0⟩), .clone 0 1, .send 1 (.failure (.ofKind .value "")),
    .company (.make (.start 0 (.force ⟨0⟩)))] ++
    (Shift.steps 0 6).map Deed.company ++
    [.drop 0, .send 1 (.failure (.ofKind .value "")),
      .company (.make (.start 1 (.force ⟨1⟩)))] ++
    (Shift.steps 1 5).map Deed.company ++
    [.send 1 (.item ⟨0⟩)]

theorem relayed_handoff_is_faithful :
    let opened := (Service.initial fun _ => 0).openHandoff 1 0
    let exchange := opened.acts Handoff.relayed
    opened.accepted Handoff.relayed = [.item ⟨0⟩, .failure (.ofKind .value "")] ∧
      exchange.Faithful [.item ⟨0⟩, .failure (.ofKind .value "")] ∧
      exchange.reply? (.send 1 (.item ⟨0⟩)) = some false ∧
      (∃ error, exchange.EndsIn error) ∧
      exchange.reply? (.ask 1) = some true ∧
      ∀ later, exchange.accepted later = [] := by
  intro opened exchange
  obtain ⟨faithful, -, refused, closed⟩ :=
    handoff_is_faithful (fun _ => 0) [] 1 0 Handoff.relayed
  have accepted_eq : opened.accepted Handoff.relayed =
      [.item ⟨0⟩, .failure (.ofKind .value "")] := by decide +kernel
  have refuses : exchange.reply? (.send 1 (.item ⟨0⟩)) = some false := by decide +kernel
  have told : exchange.reply? (.ask 1) = some true := by decide +kernel
  have kept : Deed.dropList ∉ Handoff.relayed := by simp [Handoff.relayed, Shift.steps]
  exact ⟨accepted_eq, accepted_eq ▸ faithful, refuses, (refused _ _ refuses).resolve_left kept,
    told, fun later => closed _ later told⟩

end ByNeed
