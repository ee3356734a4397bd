import ByNeed.Proofs.Rally.Founding

/-!
# The merged list

A rally loses nothing, lists nothing twice and invents nothing.  As far as it is evaluated, the
merged list lists sources of different positions, all without errors.  It ends properly only if
every source was listed, and in an error only if the error comes from the sources.
-/

namespace ByNeed
namespace Store

/-- A list, as far as it is evaluated, has a source at a position. -/
def SourceAt (store : Store) (sources : Thunk) (position : Nat) (source : Thunk) : Prop :=
  ∃ walked last, store.Cells sources walked last ∧ walked[position]? = some source

/-- A thunk was evaluated, purely and without an error. -/
def Succeeds (store : Store) (thunk : Thunk) : Prop :=
  ∃ value, store.slot? thunk = some (.evaluated value) ∧ ∀ error, value.purely ≠ .error error

/-- A thunk was evaluated, purely, to an error. -/
def Fails (store : Store) (thunk : Thunk) (error : Error) : Prop :=
  ∃ value, store.slot? thunk = some (.evaluated value) ∧ value.purely = .error error

/-- A list has no proper end: there is an error where a cell should be. -/
def Breaks (store : Store) (list : Thunk) (error : Error) : Prop :=
  ∃ walked last value, store.Cells list walked last ∧
    store.slot? last = some (.evaluated value) ∧ value.purely.toList = .error error

/-- A list has ended properly, with these elements. -/
def Ends (store : Store) (list : Thunk) (elements : List Thunk) : Prop :=
  ∃ last, store.Cells list elements last ∧ store.slot? last = some (.evaluated (.list .empty))

/-- What a merged list has to do with its sources. -/
structure Merges (store : Store) (sources merged : Thunk) : Prop where
  /-- The elements come from different positions, and none is an error. -/
  elements : ∀ items last, store.Cells merged items last →
    (∃ positions : List Nat, positions.Nodup ∧
      List.Forall₂ (store.SourceAt sources) positions items) ∧
      ∀ item ∈ items, store.Succeeds item
  /-- If the list ends, the list of sources has ended, no source is an error, and the source of
  every position was listed once. -/
  ended : ∀ items, store.Ends merged items →
    ∃ walked, store.Ends sources walked ∧ (∀ source ∈ walked, store.Succeeds source) ∧
      ∃ positions, positions.Perm (List.range walked.length) ∧
        List.Forall₂ (fun position item => walked[position]? = some item) positions items
  /-- If the list fails, a source or the list of sources has failed with the same error. -/
  failed : ∀ items last error, store.Cells merged items last →
    store.slot? last = some (.evaluated (.error error)) →
      (∃ position source, store.SourceAt sources position source ∧ store.Fails source error) ∨
        store.Breaks sources error
  /-- There is nothing else in the list. -/
  formed : ∀ items last value, store.Cells merged items last →
    store.slot? last = some (.evaluated value) →
      value = .list .empty ∨ (∃ error, value = .error error) ∨
        ∃ head tail, value = .list (.cons head tail)

end Store

namespace Rally

variable {log : List Entry} {items : List Thunk}

section

variable (same : log.map Entry.message = items.map Message.item)

include same

/-- Messages that are elements come from sources that were listed. -/
theorem forall₂_listed : List.Forall₂ (fun position item => Entry.listed position item ∈ log)
      (log.filterMap Entry.position?) items := by
  induction log generalizing items with
  | nil =>
    cases items with
    | nil => exact .nil
    | cons item items => cases same
  | cons entry log ih =>
    cases items with
    | nil => cases same
    | cons item items =>
      obtain ⟨message_eq, rest⟩ := List.cons.inj same
      cases entry with
      | listed position source =>
        cases message_eq
        exact .cons List.mem_cons_self ((ih rest).imp fun _ _ => List.mem_cons_of_mem _)
      | _ => cases message_eq

theorem exists_listed_of_mem (mem : item ∈ items) :
    ∃ position, Entry.listed position item ∈ log := by
  have sent : Message.item item ∈ log.map Entry.message := by
    rw [same]
    exact List.mem_map_of_mem mem
  obtain ⟨entry, recorded, message_eq⟩ := List.mem_map.mp sent
  cases entry with
  | listed position source =>
    cases message_eq
    exact ⟨position, recorded⟩
  | _ => cases message_eq

theorem exists_eq_listed (recorded : entry ∈ log) :
    ∃ position item, entry = .listed position item := by
  have sent := List.mem_map_of_mem (f := Entry.message) recorded
  rw [same, List.mem_map] at sent
  obtain ⟨item, -, message_eq⟩ := sent
  cases entry with
  | listed position source => exact ⟨position, source, rfl⟩
  | _ => cases message_eq

end

namespace Ledger

variable {plan : Plan} {ledger : Ledger} {service : Service} {realm : Realm}
variable {last : Thunk} {found : List Thunk}

section

variable (valid : ledger.Valid plan service) (soundIn : service.SoundIn realm)
  (founded : ledger.founder = none)

include valid soundIn founded

/-- The evaluated part of the merged list is a part of what was read, and ends where the list
ends for the time being, or goes on. -/
theorem Valid.exists_rest (cells : service.store.Cells ledger.first found last) :
    ∃ rest, ledger.items = found ++ rest ∧ service.Trail last rest ledger.last :=
  valid.kept.exists_rest (valid.founded founded) soundIn cells

theorem Valid.last_cases (cells : service.store.Cells ledger.first found last)
    (evaluated : service.store.slot? last = some (.evaluated value)) :
    (∃ head tail, value = .list (.cons head tail)) ∨
      (ledger.items = found ∧ ledger.token.isEnded = true ∧ value = .list .empty) ∨
        ∃ error, ledger.items = found ∧ ledger.token.pending = [.failure error] ∧
          value = .error error := by
  obtain ⟨rest, items_eq, trail⟩ := valid.exists_rest soundIn founded cells
  cases trail with
  | cons delivers trail => exact .inl ⟨_, _, delivers.eq_of_evaluated soundIn evaluated⟩
  | here =>
    rw [List.append_nil] at items_eq
    rcases valid.kept.token_of_delivers (valid.founded founded) soundIn (.inl evaluated) with
      ⟨error, failed, isError⟩ | ⟨ended, isEnd⟩
    · exact .inr (.inr ⟨error, items_eq, failed, isError⟩)
    · exact .inr (.inl ⟨items_eq, ended, isEnd⟩)

end

/-- The first elements of the merged list are the first messages. -/
theorem Books.message_take (books : ledger.Books channel)
    (items_eq : ledger.items = found ++ rest) :
    (ledger.log.take found.length).map Entry.message = found.map Message.item := by
  have listed : found.map Message.item <+: ledger.log.map Entry.message := by
    refine List.IsPrefix.trans ?_ books.tape.read_prefix
    rw [show ledger.tape.items = found ++ rest from items_eq, List.map_append, List.append_assoc]
    exact List.prefix_append _ _
  rw [List.map_take, List.prefix_iff_eq_take.mp listed, List.length_map]

/-- At the end every message is an element of the merged list. -/
theorem Books.message_log (books : ledger.Books channel) (ended : ledger.token.isEnded = true) :
    ledger.log.map Entry.message = ledger.items.map Message.item := by
  have read_eq := books.tape.read_eq
  rw [(books.tape.ended ended).2, List.take_length,
    show ledger.tape.token.pending = [] from Handoff.Token.pending_of_isEnded ended,
    List.append_nil] at read_eq
  exact read_eq

/-- At the end the list of sources has ended. -/
theorem Valid.exhausted (valid : ledger.Valid plan service)
    (ended : ledger.token.isEnded = true) :
    service.store.slot? ledger.cursor = some (.evaluated (.list .empty)) := by
  have isOver : ledger.walk.isOver = true := by
    rw [(valid.books.complete ended).1]
    rfl
  have notFailed := Handoff.Token.not_isFailed_of_isEnded ended
  refine (valid.facts.exhausted isOver notFailed).resolve_right ?_
  rintro ⟨error, mem⟩
  obtain ⟨_, _, isListed⟩ := exists_eq_listed (valid.books.message_log ended) mem
  cases isListed

theorem Facts.of_listed (facts : ledger.Facts plan store)
    (listed : .listed position item ∈ ledger.log) :
    ledger.sources[position]? = some item ∧ store.Succeeds item :=
  facts.backed _ listed

section Merges

variable (valid : ledger.Valid plan service) (soundIn : service.SoundIn realm)
  (founded : ledger.founder = none)
variable {items : List Thunk}

include valid soundIn founded

theorem Valid.elements (cells : service.store.Cells ledger.first items last) :
    (∃ positions : List Nat,
      positions.Nodup ∧
      List.Forall₂ (service.store.SourceAt plan.sources) positions items) ∧
    ∀ item ∈ items, service.store.Succeeds item := by
  obtain ⟨rest, items_eq, -⟩ := valid.exists_rest soundIn founded cells
  have same := valid.books.message_take items_eq
  have isSource : ∀ {position item}, .listed position item ∈ ledger.log.take items.length →
      ledger.sources[position]? = some item ∧ service.store.Succeeds item :=
    fun mem => valid.facts.of_listed (List.mem_of_mem_take mem)
  refine ⟨⟨_, ?_, (forall₂_listed same).imp fun position item listed => ?_⟩, fun item mem => ?_⟩
  · exact valid.books.nodup.sublist ((List.take_sublist ..).filterMap _)
  · exact ⟨ledger.sources, ledger.cursor, valid.facts.cells, (isSource listed).1⟩
  · obtain ⟨position, listed⟩ := exists_listed_of_mem same mem
    exact (isSource listed).2

theorem Valid.ended (ends : service.store.Ends ledger.first items) :
    ∃ walked, service.store.Ends plan.sources walked ∧
      (∀ source ∈ walked, service.store.Succeeds source) ∧
        ∃ positions, positions.Perm (List.range walked.length) ∧
          List.Forall₂ (fun position item => walked[position]? = some item) positions items := by
  obtain ⟨last, cells, evaluated⟩ := ends
  rcases valid.last_cases soundIn founded cells evaluated with ⟨head, tail, isCons⟩ |
    ⟨rfl, ended, -⟩ | ⟨error, -, -, isError⟩
  · cases isCons
  · obtain ⟨-, -, everybody⟩ := valid.books.complete ended
    have same := valid.books.message_log ended
    refine ⟨ledger.sources, ⟨ledger.cursor, valid.facts.cells, valid.exhausted ended⟩, ?_,
      ledger.positions, ?_, ?_⟩
    · intro source mem
      obtain ⟨position, met⟩ := List.mem_iff_getElem?.mp mem
      have heard : position ∈ ledger.positions := by
        refine everybody.symm.subset (List.mem_range.mpr ?_)
        simpa [sources] using (List.getElem?_eq_some_iff.mp met).1
      obtain ⟨entry, recorded, position_eq⟩ := List.mem_filterMap.mp heard
      obtain ⟨_, item, rfl⟩ := exists_eq_listed same recorded
      cases position_eq
      obtain ⟨found, succeeds⟩ := valid.facts.of_listed recorded
      rw [met] at found
      cases found
      exact succeeds
    · rw [sources, List.length_map]
      exact everybody
    · exact (forall₂_listed same).imp fun _ _ listed => (valid.facts.of_listed listed).1
  · cases isError

theorem Valid.failed (cells : service.store.Cells ledger.first items last)
    (evaluated : service.store.slot? last = some (.evaluated (.error error))) :
    (∃ position source, service.store.SourceAt plan.sources position source ∧
      service.store.Fails source error) ∨ service.store.Breaks plan.sources error := by
  rcases valid.last_cases soundIn founded cells evaluated with ⟨head, tail, isCons⟩ |
    ⟨-, -, isEnd⟩ | ⟨_, -, failed, isError⟩
  · cases isCons
  · cases isEnd
  · cases isError
    have sent : Message.failure error ∈ ledger.log.map Entry.message := by
      refine valid.books.tape.read_prefix.subset ?_
      rw [show ledger.tape.token.pending = _ from failed]
      exact List.mem_append_right _ List.mem_cons_self
    obtain ⟨entry, recorded, message_eq⟩ := List.mem_map.mp sent
    have backed := valid.facts.backed entry recorded
    cases entry with
    | listed position source => cases message_eq
    | failed position failure =>
      cases message_eq
      obtain ⟨source, value, met, evaluated, isError⟩ := backed
      exact .inl ⟨position, source, ⟨_, _, valid.facts.cells, met⟩, value, evaluated, isError⟩
    | broken failure =>
      cases message_eq
      obtain ⟨-, value, evaluated, isError⟩ := backed
      exact .inr ⟨_, _, value, valid.facts.cells, evaluated, isError⟩

theorem Valid.merges : service.store.Merges plan.sources ledger.first where
  elements _ _ cells := valid.elements soundIn founded cells
  ended _ ends := valid.ended soundIn founded ends
  failed _ _ _ cells evaluated := valid.failed soundIn founded cells evaluated
  formed _ _ _ cells evaluated := by
    rcases valid.last_cases soundIn founded cells evaluated with isCons | ⟨-, -, isEnd⟩ |
      ⟨error, -, -, isError⟩
    · exact .inr (.inr isCons)
    · exact .inl isEnd
    · exact .inr (.inl ⟨error, isError⟩)

end Merges

end Ledger
end Rally

/-- A thread founds a rally, wherever it is and whatever follows, while others take turns.
From then on, whatever happens, the merged list is as it should be. -/
theorem rally_merges_sources {α : Type} {request : Request} (digest : List Piece → UInt64)
    (before shifts : List Shift) (number scheduler : Nat) (sources merged : Thunk)
    (context : Context request.Result α) (following : Except Error Thunk → Code α)
    (present : ((Service.initial digest).shifts before).tasks number =
      some ⟨request, context.thread ((rally scheduler sources).run.bind following)⟩)
    (carried : ((Service.initial digest).shifts before).carryOut number
      (rally scheduler sources).run shifts = some (.ok merged)) :
    ((Service.initial digest).shifts (before ++ shifts)).store.Merges sources merged := by
  have arises : ((Service.initial digest).shifts before).Arises digest := ⟨before, rfl⟩
  obtain ⟨channel, ledger, rfl, founded, valid⟩ :=
    Rally.exists_founded ⟨arises, present⟩ carried
  obtain ⟨realm, soundIn⟩ := (arises.shifts shifts).exists_soundIn
  rw [Service.shifts_append]
  exact valid.merges soundIn founded

/-- A scheduler is started, and a call that merges two sources is built.  The thread that
evaluates the call is about to found the rally. -/
def Rally.pairCalled : List Shift :=
  [.make (.newScheduler 1 0), .make (.installRally 0), .make (.start 0 (.startScheduler 0))] ++
    Shift.steps 0 2 ++ [.make (.start 0 (.build (.call (.name "rally")
      [(.single, .literal (.boolean true)), (.single, .literal (.boolean false))] [] none) {}))] ++
    Shift.steps 0 6 ++ [.make (.start 0 (.force ⟨3⟩))] ++ Shift.steps 0 5

/-- The walker meets both sources before the founder is done.  The worker for the second
source publishes first, and two threads read the list to its end. -/
def Rally.pairMerged : List Shift :=
  Shift.steps 0 5 ++ [.adopt 0 1] ++ Shift.steps 1 20 ++ [.adopt 0 2, .adopt 0 3] ++ Shift.steps 3 7
    ++ Shift.steps 0 10 ++ Shift.steps 2 7 ++ Shift.steps 1 5 ++ [.make (.start 4 (.force ⟨8⟩))] ++
    Shift.steps 4 8 ++ [.make (.start 4 (.force ⟨10⟩))] ++ Shift.steps 4 6

set_option maxRecDepth 4000 in
theorem rally_merges_pair :
    ∃ following : Except Error Thunk → Code Thunk,
      ((Service.initial fun _ => 0).shifts Rally.pairCalled).tasks 0 =
          some ⟨.force ⟨3⟩,
            (Context.link [⟨⟨3⟩, none⟩] (.base fun value => .done value.purely)).thread
              ((rally 0 ⟨6⟩).run.bind following)⟩ ∧
        ((Service.initial fun _ => 0).shifts Rally.pairCalled).carryOut 0 (rally 0 ⟨6⟩).run
          Rally.pairMerged = some (.ok ⟨7⟩) ∧
        ((Service.initial fun _ => 0).shifts
          (Rally.pairCalled ++ Rally.pairMerged)).store.Ends ⟨7⟩ [⟨2⟩, ⟨1⟩] ∧
        ((Service.initial fun _ => 0).shifts
          (Rally.pairCalled ++ Rally.pairMerged)).store.Merges ⟨6⟩ ⟨7⟩ := by
  obtain ⟨following, present⟩ : ∃ following : Except Error Thunk → Code Thunk,
      ((Service.initial fun _ => 0).shifts Rally.pairCalled).tasks 0 =
        some ⟨.force ⟨3⟩,
          (Context.link [⟨⟨3⟩, none⟩] (.base fun value => .done value.purely)).thread
            ((rally 0 ⟨6⟩).run.bind following)⟩ := ⟨_, rfl⟩
  have carried : ((Service.initial fun _ => 0).shifts Rally.pairCalled).carryOut 0
      (rally 0 ⟨6⟩).run Rally.pairMerged = some (.ok ⟨7⟩) := rfl
  let final := ((Service.initial fun _ => 0).shifts (Rally.pairCalled ++ Rally.pairMerged)).store
  have first : final.slot? ⟨7⟩ = some (.evaluated (.list (.cons ⟨2⟩ ⟨8⟩))) := rfl
  have second : final.slot? ⟨8⟩ = some (.evaluated (.list (.cons ⟨1⟩ ⟨10⟩))) := rfl
  have last : final.slot? ⟨10⟩ = some (.evaluated (.list .empty)) := rfl
  exact ⟨_, present, carried, ⟨⟨10⟩, .cons first (.cons second (.here _)), last⟩,
    rally_merges_sources _ _ _ 0 0 ⟨6⟩ ⟨7⟩ _ _ present carried⟩

end ByNeed
