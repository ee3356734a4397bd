import ByNeed.Proofs.Safety.Building

/-!
# Primitives are safe

Primitives look into their parameters, and daemons into what they publish.
-/

namespace ByNeed

open Attempt Dictionary Realm LazyList List Stage

variable {frame : Frame} {stage : Stage frame}
variable {list : LazyList} {elements : List Thunk} {spine : Thunk}
variable {value : Value} {α : Type} {post : Stage frame → α → Prop} {branches : Thunk}
variable {daemon : Daemon} {duty : Duty}

/-! ## Arithmetic and order -/

namespace Arithmetic

section

variable (operation : Arithmetic) (total : Float)

/-- The routine that folds numbers answers with a number, which mentions nothing. -/
theorem fold_safe (sees : stage.SeesAll numbers.thunks) :
    (operation.fold total numbers).Safe Any stage :=
  ⟨sees, fun _ _ _ _ _ _ => trivial⟩

theorem foldStep_safe (sees : stage.SeesAll numbers.thunks) :
    (operation.foldStep total numbers).Safe Any stage := by
  cases numbers with
  | empty => exact safe_pure trivial
  | cons head tail =>
    obtain ⟨headSees, tailSees⟩ := seesAll_cell.mp sees
    refine (forceNumber_safe headSees).bind fun first leFirst number _ => ?_
    refine (forceList_sees (tailSees.mono leFirst)).bind fun _ _ rest restSees => ?_
    exact fold_safe operation _ restSees

/-- The result of arithmetic is a new number. -/
theorem accumulate_safe (sees : stage.store.Sees numbers) :
    (operation.accumulate total numbers).Safe Seen stage := by
  refine (forceList_sees sees).bind fun _ _ list listSees => ?_
  refine (fold_safe operation total listSees).bind fun _ _ _ _ => ?_
  exact safe_lift (newValue_sees trivial)

end

end Arithmetic

theorem allEqual_safe (admits : stage.Admits value) (sees : stage.SeesAll list.thunks) :
    (allEqual value list).Safe Any stage :=
  ⟨⟨admits, sees⟩, fun _ _ _ _ _ _ => trivial⟩

/-- The first value stays in sight while the others are compared with it. -/
theorem allEqualStep_safe (admits : stage.Admits value) (sees : stage.SeesAll list.thunks) :
    (allEqualStep value list).Safe Any stage := by
  cases list with
  | empty => exact safe_pure trivial
  | cons head tail =>
    obtain ⟨headSees, tailSees⟩ := seesAll_cell.mp sees
    refine safe_lift_bind (force_safe headSees) fun first leFirst found gives => ?_
    refine (equalValues_safe (admits.mono leFirst) gives.admits).bind
      fun second leSecond equal _ => ?_
    have le := leFirst.trans leSecond
    cases equal with
    | true =>
      refine (forceList_sees (tailSees.mono le)).bind fun third leThird rest restSees => ?_
      exact allEqual_safe (admits.mono (le.trans leThird)) restSees
    | false => exact safe_pure trivial

/-- An empty list and a single element are equal throughout. -/
theorem equalAll_safe (sees : stage.SeesAll list.thunks) : (equalAll list).Safe Any stage := by
  cases list with
  | empty => exact safe_pure trivial
  | cons head tail =>
    obtain ⟨headSees, tailSees⟩ := seesAll_cell.mp sees
    refine safe_lift_bind (force_safe headSees) fun first leFirst found gives => ?_
    refine (forceList_sees (tailSees.mono leFirst)).bind fun second leSecond rest restSees => ?_
    exact allEqual_safe (gives.admits.mono leSecond) restSees

namespace Monotone

variable {list : LazyList}
variable {previous : Value}

section

variable (order : Monotone) (admits : stage.Admits previous) (sees : stage.SeesAll list.thunks)

include order admits sees

theorem holdsFrom_safe : (order.holdsFrom previous list).Safe Any stage :=
  ⟨⟨admits, sees⟩, fun _ _ _ _ _ _ => trivial⟩

/-- Each element is compared with the one before it, which was evaluated then. -/
theorem holdsFromStep_safe : (order.holdsFromStep previous list).Safe Any stage := by
  cases list with
  | empty => exact safe_pure trivial
  | cons head tail =>
    obtain ⟨headSees, tailSees⟩ := seesAll_cell.mp sees
    refine safe_lift_bind (force_safe headSees) fun first leFirst current gives => ?_
    refine (compareValues_safe (admits.mono leFirst) gives.admits).bind
      fun second leSecond outcome _ => ?_
    split
    · refine (forceList_sees (tailSees.mono (leFirst.trans leSecond))).bind
        fun third leThird rest restSees => ?_
      exact holdsFrom_safe order ((gives.admits.mono leSecond).mono leThird) restSees
    · exact safe_pure trivial

end

/-- An order holds of a list if it holds from the first element on. -/
theorem holds_safe (order : Monotone) (sees : stage.SeesAll list.thunks) :
    (order.holds list).Safe Any stage := by
  cases list with
  | empty => exact safe_pure trivial
  | cons head tail =>
    obtain ⟨headSees, tailSees⟩ := seesAll_cell.mp sees
    refine safe_lift_bind (force_safe headSees) fun first leFirst found gives => ?_
    refine (forceList_sees (tailSees.mono leFirst)).bind fun second leSecond rest restSees => ?_
    exact holdsFrom_safe order (gives.admits.mono leSecond) restSees

end Monotone

/-! ## Collections -/

section Collection

variable {collection key : Value} (admits : stage.Admits collection)

/-- A value that is no collection gives its own error or a fault, whatever is wanted of it. -/
theorem notACollection_safe (value : Value) : (notACollection value).Safe post stage := by
  cases value with
  | error failure => exact safe_throw failure
  | _ => exact safe_fault _

theorem toPosition_safe (value : Value) : value.toPosition.Safe Any stage :=
  (safe_check value.toNumber).bind fun _ _ _ _ => safe_check _

include admits

/-- Only a list has to be walked to tell its size. -/
theorem Collection.size_safe : (Collection.size collection).Safe Seen stage := by
  have counted : ∀ count : Attempt Nat, count.Safe Any stage →
      Attempt.Safe Seen
        (do newValue (.number (Float.ofNat (← count)))) stage := fun count safe =>
    safe.bind fun _ _ _ _ => safe_lift (newValue_sees trivial)
  cases collection with
  | list cells => exact counted _ (size_safe admits)
  | dictionary | string => exact counted _ (safe_pure trivial)
  | _ => exact counted _ (notACollection_safe _)

/-- Lists and strings are indexed by position, dictionaries by key. -/
theorem Collection.index_safe (keyAdmits : stage.Admits key) :
    (Collection.index collection key).Safe Seen stage := by
  cases collection with
  | list cells =>
    exact (toPosition_safe key).bind fun _ le position _ =>
      index_safe (admits.mono le) position
  | dictionary entries => exact index_safe admits keyAdmits
  | string text =>
    refine (toPosition_safe key).bind fun _ _ position _ => ?_
    split
    · exact safe_lift (newValue_sees trivial)
    · exact safe_fault _
  | _ =>
    unfold Collection.index
    exact notACollection_safe _

/-- A string includes another one as a part of it. -/
theorem Collection.includes_safe (keyAdmits : stage.Admits key) :
    (Collection.includes collection key).Safe Seen stage := by
  have answered : ∀ answer : Attempt Bool, answer.Safe Any stage →
      Attempt.Safe Seen
        (do newValue (.boolean (← answer))) stage := fun answer safe =>
    safe.bind fun _ _ _ _ => safe_lift (newValue_sees trivial)
  cases collection with
  | list | dictionary => exact answered _ (contains_safe admits keyAdmits)
  | string text =>
    exact (safe_check key.toText).bind fun _ _ _ _ => safe_lift (newValue_sees trivial)
  | _ => exact answered _ (notACollection_safe _)

/-- Deleting makes a new collection without the element or the key. -/
theorem Collection.delete_safe (keyAdmits : stage.Admits key) :
    (Collection.delete collection key).Safe Seen stage := by
  cases collection with
  | list cells =>
    refine (toPosition_safe key).bind fun _ le position _ => ?_
    refine (delete_safe (admits.mono le) position).bind fun _ _ _ listSees => ?_
    exact safe_lift (newList_sees listSees)
  | dictionary entries =>
    refine (remove_safe admits keyAdmits).bind fun _ _ _ restAdmits => ?_
    exact safe_lift (newDictionary_sees restAdmits)
  | _ =>
    unfold Collection.delete
    exact notACollection_safe _

/-- A dictionary becomes the list of its pairs, a string that of its characters. -/
theorem Collection.toList_safe : (Collection.toList collection).Safe Seen stage := by
  cases collection with
  | list cells => exact safe_lift (newList_sees admits)
  | dictionary entries =>
    refine safe_lift_bind (pairs_safe admits) fun _ _ _ pairsSee => ?_
    exact safe_lift (newList_sees pairsSee)
  | string text =>
    have characters : ∀ value ∈ text.toList.map fun character => Value.string character.toString,
        stage.Admits value := by
      intro value mem
      obtain ⟨character, -, rfl⟩ := List.mem_map.mp mem
      trivial
    refine safe_lift_bind (ofValues_safe characters) fun _ _ _ listSees => ?_
    exact safe_lift (newList_sees listSees)
  | _ =>
    unfold Collection.toList
    exact notACollection_safe _

end Collection

namespace Dictionary

section Routines

variable {dict : Dict} {list : LazyList} (admits : stage.AdmitsDictionary dict)
  (sees : stage.SeesAll list.thunks)

include admits sees

theorem assign_safe : (dict.assign list).Safe Admitted stage :=
  ⟨⟨admits, sees⟩, fun _ _ _ answers => answers⟩

/-- A key is evaluated and has to be no error; its value is not evaluated. -/
theorem assignStep_safe : (dict.assignStep list).Safe Admitted stage := by
  cases list with
  | empty => exact safe_pure admits
  | cons head tail =>
    obtain ⟨headSees, tailSees⟩ := seesAll_cell.mp sees
    refine safe_lift_bind (force_safe headSees) fun first leFirst value gives => ?_
    have checked : (Attempt.ofExcept value.check).Safe
        (fun later key => later.Admits key) first := by
      refine safe_ofExcept fun key isOk => ?_
      cases value <;> cases isOk <;> exact gives.admits
    refine checked.bind fun second leSecond key keyAdmits => ?_
    have le := leFirst.trans leSecond
    refine (forceList_sees (tailSees.mono le)).bind fun third leThird cells cellsSee => ?_
    have leMore := le.trans leThird
    cases cells with
    | empty => exact safe_fault _
    | cons value rest =>
      obtain ⟨valueSees, restSees⟩ := seesAll_cell.mp cellsSee
      refine (insert_safe (admits.mono leMore) (keyAdmits.mono leThird) valueSees).bind
        fun fourth leFourth assigned assignedAdmits => ?_
      refine (forceList_sees (restSees.mono leFourth)).bind fun fifth leFifth list listSees => ?_
      exact ⟨⟨assignedAdmits.mono leFifth, listSees⟩, fun _ _ _ answers => answers⟩

theorem mergeAll_safe : (dict.mergeAll list).Safe Admitted stage :=
  ⟨⟨admits, sees⟩, fun _ _ _ answers => answers⟩

/-- Each dictionary is merged before the next one is evaluated. -/
theorem mergeAllStep_safe : (dict.mergeAllStep list).Safe Admitted stage := by
  cases list with
  | empty => exact safe_pure admits
  | cons head tail =>
    obtain ⟨headSees, tailSees⟩ := seesAll_cell.mp sees
    refine (forceDictionary_safe headSees).bind fun first leFirst other otherAdmits => ?_
    refine (merge_safe (admits.mono leFirst) otherAdmits).bind
      fun second leSecond merged mergedAdmits => ?_
    refine (forceList_sees (tailSees.mono (leFirst.trans leSecond))).bind
      fun third leThird list listSees => ?_
    exact ⟨⟨mergedAdmits.mono leThird, listSees⟩, fun _ _ _ answers => answers⟩

end Routines
end Dictionary

theorem Collection.assign_safe (admits : stage.AdmitsDictionary dict)
    (sees : stage.store.Sees keysAndValues) : (Collection.assign dict keysAndValues).Safe
      Seen stage := by
  refine (forceList_sees sees).bind fun first leFirst list listSees => ?_
  refine (Dictionary.assign_safe (admits.mono leFirst) listSees).bind fun _ _ _ assignedAdmits => ?_
  exact safe_lift (newDictionary_sees assignedAdmits)

/-- Dictionaries are merged at once; lists are put together only when they are read. -/
theorem Collection.merge_safe (sees : stage.store.Sees collection)
    (othersSee : stage.store.Sees others) : (Collection.merge collection others).Safe Seen
      stage := by
  refine safe_lift_bind (force_safe sees) fun first leFirst value gives => ?_
  have othersSee := othersSee.mono leFirst
  cases value with
  | dictionary entries =>
    refine (forceList_sees othersSee).bind fun second leSecond list listSees => ?_
    have entriesAdmit : second.AdmitsDictionary entries := gives.admits.mono leSecond
    refine (mergeAll_safe entriesAdmit listSees).bind fun _ _ _ mergedAdmits => ?_
    exact safe_lift (newDictionary_sees mergedAdmits)
  | list cells =>
    refine safe_lift_bind (suspend_sees (by simp [Suspension.thunks, othersSee]) rfl)
      fun second leSecond rest restSees => ?_
    exact safe_lift (append_safe (sees.mono (leFirst.trans leSecond)) restSees)
  | _ => exact notACollection_safe _

/-- The last parameter is the list, and the others are put before it. -/
theorem Collection.prepend_safe (sees : stage.store.Sees elementsAndList) :
    (Collection.prepend elementsAndList).Safe Seen stage := by
  refine (forceList_sees sees).bind fun _ _ list listSees => ?_
  refine (elements_safe listSees).bind fun later _ elements elementsSee => ?_
  split
  · rename_i last isLast
    exact safe_lift (LazyList.prepend_safe (elementsSee.subset (dropLast_subset
      elements)) (elementsSee last (mem_of_getLast? isLast)))
  · exact safe_fault _

/-! ## Control -/

theorem choose_safe (sees : stage.store.Sees branches) : (choose branches).Safe Seen stage :=
  ⟨sees, fun _ _ _ answers => answers⟩

/-- A condition is evaluated, a branch is not.  The last parameter alone is the default. -/
theorem chooseStep_safe (sees : stage.store.Sees branches) :
    (chooseStep branches).Safe Seen stage := by
  refine (forceList_sees sees).bind fun first _ list listSees => ?_
  cases list with
  | empty => exact safe_fault _
  | cons condition rest =>
    obtain ⟨conditionSees, restSees⟩ := seesAll_cell.mp listSees
    refine (forceList_sees restSees).bind fun second leSecond list listSees => ?_
    have conditionSees := conditionSees.mono leSecond
    cases list with
    | empty => exact safe_pure conditionSees
    | cons value next =>
      obtain ⟨valueSees, nextSees⟩ := seesAll_cell.mp listSees
      refine safe_lift_bind (force_safe conditionSees) fun third leThird found _ => ?_
      refine (safe_check found.toBoolean).bind fun fourth leFourth holds _ => ?_
      have le := leThird.trans leFourth
      cases holds with
      | true => exact safe_pure (valueSees.mono le)
      | false => exact choose_safe (nextSees.mono le)

/-- The fixed function mentions the original and the arguments, all of them in sight. -/
theorem fixArguments_safe (functionSees : stage.store.Sees function)
    (argumentsSee : stage.store.Sees arguments) (keywordsSee : stage.store.Sees keywords) :
    (fixArguments function arguments keywords).Safe Seen stage := by
  refine safe_lift_bind (force_safe functionSees) fun first leFirst value gives => ?_
  have callee : (Attempt.ofExcept value.toFunction).Safe
      (fun later callee => later.SeesAll callee.thunks) first := by
    refine safe_ofExcept fun callee isOk => ?_
    cases value <;> cases isOk
    exact gives.admits
  refine callee.bind fun second leSecond callee calleeSees => ?_
  have fixed : (callee.fix
      { positionals := [.spread arguments], keywords := [.spread keywords] }).Safe
        (fun later function => later.SeesAll function.thunks) second := by
    refine Code.Safe.andThen (perform_safe seesAll_nil) fun third leThird identity _ => ?_
    have le := (leFirst.trans leSecond).trans leThird
    refine Code.safe_pure (seesAll_append.mpr ⟨calleeSees.mono leThird, ?_⟩)
    simp [Arguments.thunks, Positional.thunk, Keyword.thunk, argumentsSee.mono le,
      keywordsSee.mono le]
  exact safe_lift_bind fixed fun _ _ _ functionSees =>
    safe_lift (newFunctionValue_sees functionSees)

/-- An error is described by a dictionary of two new texts. -/
theorem Error.describe_safe (error : Error) : error.describe.Safe Admitted stage := by
  refine safe_lift_bind (newValue_sees trivial) fun first _ nameThunk nameSees => ?_
  refine safe_lift_bind (newValue_sees trivial) fun second leSecond messageThunk messageSees => ?_
  refine ofEntries_safe fun entry mem => ?_
  rcases mem_cons.mp mem with rfl | mem
  · exact ⟨trivial, nameSees.mono leSecond⟩
  · rw [mem_singleton.mp mem]
    exact ⟨trivial, messageSees⟩

/-- What is caught is the description of an error, or the thunk itself. -/
theorem catchError_safe (sees : stage.store.Sees thunk) : (catchError thunk).Safe Seen stage := by
  refine safe_lift_bind (force_safe sees) fun first leFirst value _ => ?_
  cases value with
  | error failure =>
    exact (Error.describe_safe failure).bind fun _ _ _ admits =>
      safe_lift (newDictionary_sees admits)
  | _ => exact safe_pure (sees.mono leFirst)

theorem raise_safe (name message : Value) : (raise name message).Safe Seen stage := by
  refine (safe_check name.toText).bind fun _ _ _ _ => ?_
  refine (safe_check message.toText).bind fun _ _ _ _ => ?_
  exact safe_lift (newValue_sees trivial)

/-! ## Daemons -/

theorem launch_safe (scheduler : Nat) (sees : stage.SeesAll daemon.duty.thunks) :
    (launch scheduler daemon).Safe Any stage :=
  ⟨sees, fun _ _ _ _ => ⟨seesAll_nil, fun _ _ _ _ => trivial⟩⟩

/-- Daemons are launched with all that their duties mention in sight. -/
theorem launchAll_safe (scheduler : Nat)
    (sees : ∀ daemon ∈ daemons, stage.SeesAll daemon.duty.thunks) :
    (launchAll scheduler daemons).Safe Any stage := by
  induction daemons generalizing stage with
  | nil => exact Code.safe_pure trivial
  | cons daemon rest ih =>
    refine (launch_safe scheduler (sees daemon mem_cons_self)).andThen fun later le _ _ => ?_
    exact ih fun other mem =>
      (sees other (mem_cons_of_mem _ mem)).mono le

/-- The queue of a scheduler holds only duties whose thunks are in sight. -/
theorem startScheduler_safe (scheduler : Nat) : (startScheduler scheduler).Safe Any stage := by
  refine ⟨seesAll_nil, fun later _ reply answers => ?_⟩
  cases reply with
  | none => exact Code.safe_pure trivial
  | some queue =>
    exact (launchAll_safe scheduler (answers queue rfl)).andThen fun _ _ _ _ =>
      Code.safe_pure trivial

theorem spawn_safe (scheduler : Nat) (sees : stage.SeesAll duty.thunks) :
    (spawn scheduler duty).Safe Any stage := by
  refine ⟨sees, fun later _ reply answers => ?_⟩
  cases reply with
  | none => exact Code.safe_pure trivial
  | some daemon => exact launch_safe scheduler (answers daemon rfl)

/-- An element that arrives is in sight, since its publisher saw it. -/
theorem receiveStep_safe (channel : Nat) :
    (receiveStep channel).Safe (fun (later : Stage frame) thunk => later.store.Sees thunk)
      stage := by
  refine ⟨seesAll_nil, fun later _ reply answers => ?_⟩
  cases reply with
  | item element =>
    refine (suspend_sees seesAll_nil rfl).andThen fun final leFinal rest restSees => ?_
    exact newList_sees (seesAll_cell.mpr ⟨(answers element rfl).mono leFinal, restSees⟩)
  | failure error => exact ⟨seesAll_nil, fun final _ _ _ => newValue_sees trivial⟩
  | ended => exact ⟨seesAll_nil, fun final _ _ _ => newList_sees seesAll_empty⟩

theorem publishAll_safe (channel : Nat) (sees : stage.SeesAll elements) :
    (publishAll channel elements).Safe Any stage := by
  induction elements generalizing stage with
  | nil => exact Code.safe_pure trivial
  | cons element rest ih =>
    obtain ⟨elementSees, restSee⟩ := seesAll_cons.mp sees
    refine ⟨seesAll_cons.mpr ⟨elementSees, seesAll_nil⟩, fun later le _ _ => ?_⟩
    exact ih (restSee.mono le)

/-- A daemon publishes what it was given, then the failure if there is one. -/
theorem feedDuty_safe (sees : stage.SeesAll elements) (failure : Option Error) (channel : Nat) :
    (feedDuty elements failure channel).Safe Any stage := by
  refine (publishAll_safe channel sees).andThen fun later _ _ _ => ?_
  cases failure with
  | none => exact perform_safe seesAll_nil
  | some error => exact ⟨seesAll_nil, fun final _ _ _ => perform_safe seesAll_nil⟩

theorem feed_safe (scheduler : Nat) (sees : stage.SeesAll elements) (failure : Option Error) :
    (feed scheduler elements failure).Safe Seen stage := by
  refine ⟨seesAll_nil, fun first leFirst bound _ => ?_⟩
  refine ⟨seesAll_nil, fun second leSecond channel _ => ?_⟩
  have dutySees : second.SeesAll (Duty.feed elements failure channel).thunks :=
    sees.mono (leFirst.trans leSecond)
  exact (spawn_safe scheduler dutySees).andThen fun _ _ _ _ => suspend_sees seesAll_nil rfl

/-- A source is evaluated and then published, or its error is. -/
theorem sourceDuty_safe (sees : stage.store.Sees source) (channel backlog : Nat) :
    (sourceDuty source channel backlog).Safe Any stage := by
  refine (force_safe sees).andThen fun first leFirst value _ => ?_
  refine ⟨seesAll_nil, fun second leSecond _ _ => ?_⟩
  have sourceSees := sees.mono (leFirst.trans leSecond)
  refine ⟨?_, fun third _ _ _ => ?_⟩
  · cases value with
    | error failure => exact seesAll_nil
    | _ => exact seesAll_cons.mpr ⟨sourceSees, seesAll_nil⟩
  · exact ⟨seesAll_nil, fun fourth _ _ _ => perform_safe seesAll_nil⟩

section

variable (scheduler : Nat) (sees : stage.store.Sees spine)

include scheduler sees

theorem walk_safe (channel backlog capacity : Nat) :
    (walk scheduler spine channel backlog capacity).Safe Any stage :=
  ⟨sees, fun _ _ _ _ => trivial⟩

/-- One step along the spine of the sources: a daemon is spawned for the one that is found. -/
theorem walkStep_safe (channel backlog capacity : Nat) :
    (walkStep scheduler spine channel backlog capacity).Safe Any stage := by
  refine ⟨seesAll_nil, fun first leFirst _ _ => ?_⟩
  refine ⟨seesAll_nil, fun second leSecond closed _ => ?_⟩
  cases closed with
  | true => exact perform_safe seesAll_nil
  | false =>
    refine (force_safe (sees.mono (leFirst.trans leSecond))).andThen fun third _ value gives => ?_
    cases value with
    | list cells =>
      cases cells with
      | empty => exact perform_safe seesAll_nil
      | cons source rest =>
        obtain ⟨sourceSees, restSees⟩ := seesAll_cell.mp gives.admits
        refine ⟨seesAll_nil, fun fourth leFourth _ _ => ?_⟩
        have dutySees : fourth.SeesAll (Duty.source source channel backlog).thunks :=
          seesAll_cons.mpr ⟨sourceSees.mono leFourth, seesAll_nil⟩
        refine (spawn_safe scheduler dutySees).andThen fun fifth leFifth _ _ => ?_
        exact walk_safe scheduler (restSees.mono (leFourth.trans leFifth)) channel backlog capacity
    | _ => exact ⟨seesAll_nil, fun fourth _ _ _ => perform_safe seesAll_nil⟩

theorem walkDuty_safe (channel : Nat) : (walkDuty scheduler spine channel).Safe Any stage := by
  refine ⟨seesAll_nil, fun first leFirst bound _ => ?_⟩
  refine ⟨seesAll_nil, fun second leSecond backlog _ => ?_⟩
  exact walk_safe scheduler (sees.mono (leFirst.trans leSecond)) channel backlog _

end

/-- A rally needs a scheduler that is started.  Its list can be read at once. -/
theorem rally_safe (scheduler : Nat) (sees : stage.store.Sees sources) :
    (rally scheduler sources).Safe Seen stage := by
  refine safe_lift_bind (perform_safe seesAll_nil) fun first leFirst started _ => ?_
  cases started with
  | false => exact safe_fault _
  | true =>
    refine safe_lift_bind (perform_safe seesAll_nil) fun second leSecond bound _ => ?_
    refine safe_lift_bind (perform_safe seesAll_nil) fun third leThird channel _ => ?_
    have dutySees : third.SeesAll (Duty.walk sources channel).thunks :=
      seesAll_cons.mpr ⟨sees.mono ((leFirst.trans leSecond).trans leThird), seesAll_nil⟩
    refine safe_lift_bind (spawn_safe scheduler dutySees) fun fourth _ _ _ => ?_
    exact safe_lift (suspend_sees seesAll_nil rfl)

theorem Duty.code_safe (scheduler : Nat) (sees : stage.SeesAll duty.thunks) :
    (duty.code scheduler).Safe Any stage := by
  cases duty with
  | feed elements failure channel => exact feedDuty_safe sees failure channel
  | walk spine channel =>
    exact walkDuty_safe scheduler (seesAll_cons.mp sees).1 channel
  | source element channel backlog =>
    exact sourceDuty_safe (seesAll_cons.mp sees).1 channel backlog
  | tally breaksOff =>
    refine ⟨seesAll_nil, fun _ _ _ _ => ?_⟩
    cases breaksOff <;> trivial

/-- The whole life of a daemon is safe. -/
theorem Daemon.code_safe (scheduler : Nat) (sees : stage.SeesAll daemon.duty.thunks) :
    (daemon.code scheduler).Safe Any stage :=
  (Duty.code_safe scheduler sees).attempt.andThen fun _ _ _ _ => perform_safe seesAll_nil

/-! ## Running primitives -/

theorem unfitParameters_safe : (unfitParameters : Attempt α).Safe post stage :=
  trivial

/-- A primitive on unevaluated parameters is safe. -/
theorem LazyPrimitive.run_safe (operation : LazyPrimitive) (sees : stage.SeesAll bound) :
    (operation.run bound).Safe Seen stage := by
  unfold LazyPrimitive.run
  split <;> try simp only [seesAll_cons, seesAll_nil, and_true] at sees
  · exact safe_pure sees
  · exact Collection.prepend_safe sees
  · exact Collection.assign_safe admitsDictionary_empty sees
  · refine (forceDictionary_safe sees.1).bind fun _ le _ admits => ?_
    exact Collection.assign_safe admits (sees.2.mono le)
  · exact Collection.merge_safe sees.1 sees.2
  · refine (forceList_sees sees).bind fun _ _ _ listSees => ?_
    exact (equalAll_safe listSees).bind fun _ _ _ _ => safe_lift (newValue_sees trivial)
  · refine (forceList_sees sees).bind fun _ _ _ listSees => ?_
    exact (Monotone.holds_safe _ listSees).bind fun _ _ _ _ =>
      safe_lift (newValue_sees trivial)
  · exact Arithmetic.accumulate_safe _ _ sees
  · exact (forceNumber_safe sees.1).bind fun _ le _ _ =>
      Arithmetic.accumulate_safe _ _ (sees.2.mono le)
  · exact choose_safe sees
  · exact safe_pure sees
  · exact fixArguments_safe sees.1 sees.2.1 sees.2.2
  · exact catchError_safe sees
  · exact safe_lift (newEffect_safe sees.holds)
  · exact rally_safe _ sees
  · exact unfitParameters_safe

/-- A primitive on evaluated parameters is safe. -/
theorem StrictPrimitive.run_safe (operation : StrictPrimitive)
    (admits : ∀ value ∈ values, stage.Admits value) : (operation.run values).Safe Seen stage := by
  have list : ∀ value ∈ values, (Attempt.ofExcept value.toList).Safe
      (fun later cells => later.SeesAll cells.thunks) stage := by
    intro value mem
    refine safe_ofExcept fun cells isOk => ?_
    have valueAdmits := admits value mem
    cases value <;> cases isOk
    exact valueAdmits
  unfold StrictPrimitive.run
  split <;> try simp only [mem_cons, not_mem_nil, or_false, forall_eq_or_imp,
    forall_eq] at admits list
  · exact list.bind fun _ _ _ listSees => first_safe listSees
  · exact list.bind fun _ _ _ listSees => rest_safe listSees
  · exact Collection.size_safe admits
  · exact Collection.index_safe admits.1 admits.2
  · exact Collection.includes_safe admits.1 admits.2
  · exact Collection.delete_safe admits.1 admits.2
  · exact Collection.toList_safe admits
  · exact (compareValues_safe admits.1 admits.2).bind fun _ _ _ _ =>
      safe_lift (newValue_sees trivial)
  · exact (safe_check _).bind fun _ _ _ _ => (safe_check _).bind fun _ _ _ _ =>
      safe_lift (newValue_sees trivial)
  · exact (safe_check _).bind fun _ _ _ _ => (safe_check _).bind fun _ _ _ _ =>
      safe_lift (newValue_sees trivial)
  · exact (Value.display_safe admits).bind fun _ _ _ _ =>
      safe_lift (newValue_sees trivial)
  · exact (render_safe admits).bind fun _ _ _ _ => safe_lift (newValue_sees trivial)
  · exact raise_safe _ _
  · exact unfitParameters_safe

end ByNeed
