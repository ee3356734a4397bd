import ByNeed.Proofs.Safety.Dictionaries

/-!
# Operations on collections are safe

Routines that walk are called by name, so each of their steps is shown to be safe on its own, given
that the routines it calls are.
-/

namespace ByNeed

open Attempt Dictionary Realm LazyList Stage

variable {frame : Frame} {stage : Stage frame}
variable {value : Value} {dict : Dict}

/-- A list whose cell is in sight can be seen as a thunk. -/
theorem newList_sees (sees : stage.SeesAll cells.thunks) :
    (newValue (.list cells)).Safe Seen stage :=
  newValue_sees (show stage.Admits (.list cells) from sees)

theorem newDictionary_sees (admits : stage.AdmitsDictionary dict) :
    (newValue (.dictionary dict)).Safe Seen stage :=
  newValue_sees (show stage.Admits (.dictionary dict) from admits)

namespace LazyList

variable {elements : List Thunk}

section List

variable {list : LazyList} (sees : stage.SeesAll list.thunks)

include sees

/-- The first element is in sight; an empty list has none, which is a fault. -/
theorem first_safe : list.first.Safe Seen stage := by
  cases list with
  | empty => exact safe_fault _
  | cons head tail => exact safe_pure (seesAll_cell.mp sees).1

theorem rest_safe : list.rest.Safe Seen stage := by
  cases list with
  | empty => exact safe_fault _
  | cons head tail => exact safe_pure (seesAll_cell.mp sees).2

/-- The routine that gathers the elements of a list answers with thunks in sight. -/
theorem elements_safe : list.elements.Safe SeenAll stage :=
  ⟨sees, fun _ _ _ answers => answers⟩

/-- One step of gathering: the head is in sight, and the tail is gathered by the routine. -/
theorem elementsStep_safe : list.elementsStep.Safe SeenAll stage := by
  cases list with
  | empty => exact safe_pure seesAll_nil
  | cons head tail =>
    obtain ⟨headSees, tailSees⟩ := seesAll_cell.mp sees
    refine (forceList_sees tailSees).bind fun second leSecond rest restSees => ?_
    refine (elements_safe restSees).bind fun third leThird thunks thunksSee => ?_
    exact safe_pure
      (seesAll_cons.mpr ⟨headSees.mono (leSecond.trans leThird), thunksSee⟩)

theorem size_safe : list.size.Safe Any stage :=
  (elements_safe sees).bind fun _ _ _ _ => safe_pure trivial

theorem contains_safe (admits : stage.Admits value) : (list.contains value).Safe Any stage :=
  ⟨⟨sees, admits⟩, fun _ _ _ _ _ _ => trivial⟩

/-- Looking for a value opens one head after the other until one of them is equal. -/
theorem containsStep_safe (admits : stage.Admits value) :
    (list.containsStep value).Safe Any stage := by
  cases list with
  | empty => exact safe_pure trivial
  | cons head tail =>
    obtain ⟨headSees, tailSees⟩ := seesAll_cell.mp sees
    refine safe_lift_bind (force_safe headSees) fun second leSecond found gives => ?_
    refine (equalValues_safe gives.admits (admits.mono leSecond)).bind
      fun third leThird equal _ => ?_
    have le := leSecond.trans leThird
    cases equal with
    | true => exact safe_pure trivial
    | false =>
      refine (forceList_sees (tailSees.mono le)).bind fun final leFinal rest restSees => ?_
      exact contains_safe restSees (admits.mono (le.trans leFinal))

/-- An element that is found behind so many others is in sight. -/
theorem nth_safe (skipped : Nat) : (list.nth skipped).Safe
      (fun later found => ∀ thunk, found = some thunk → later.store.Sees thunk) stage := by
  refine ⟨sees, fun later _ reply answers result isOk thunk found => ?_⟩
  cases isOk
  exact answers thunk (congrArg Except.ok found)

/-- Skipping opens tails only.  A tail that is no list ends the search. -/
theorem nthStep_safe (skipped : Nat) : (list.nthStep skipped).Safe
      (fun later found => ∀ thunk, found = some thunk → later.store.Sees thunk) stage := by
  cases list with
  | empty => exact safe_pure fun _ found => by cases found
  | cons head tail =>
    obtain ⟨headSees, tailSees⟩ := seesAll_cell.mp sees
    cases skipped with
    | zero =>
      refine safe_pure fun thunk found => ?_
      cases found
      exact headSees
    | succ skipped =>
      refine safe_lift_bind (force_safe tailSees) fun later _ value gives => ?_
      cases value with
      | list rest => exact nth_safe gives.admits skipped
      | _ =>
        dsimp only [Value.toList]
        split
        · exact safe_throw _
        · exact safe_pure fun _ found => by cases found

/-- The element at a position is in sight; a position out of range is a fault. -/
theorem index_safe (position : Nat) : (list.index position).Safe Seen stage := by
  dsimp only [index]
  split
  · exact safe_fault_bind _ _
  · refine (nth_safe sees _).bind fun later _ found foundSees => ?_
    cases found with
    | none => exact safe_fault _
    | some element => exact safe_pure (foundSees element rfl)

/-- Where a list is cut, the elements before the cut and the rest behind it are in sight. -/
theorem cut_safe (position : Nat) :
    (list.cut position).Safe (fun later found => ∀ before behind, found = some (before, behind) →
        later.SeesAll before ∧ later.store.Sees behind) stage := by
  refine ⟨sees, fun later _ reply answers result isOk before behind found => ?_⟩
  cases isOk
  exact answers before behind (congrArg Except.ok found)

/-- One step of cutting moves the head before the cut. -/
theorem cutStep_safe (position : Nat) : (list.cutStep position).Safe
      (fun later found => ∀ before behind, found = some (before, behind) →
        later.SeesAll before ∧ later.store.Sees behind) stage := by
  cases list with
  | empty => exact safe_pure fun _ _ found => by cases found
  | cons head tail =>
    obtain ⟨headSees, tailSees⟩ := seesAll_cell.mp sees
    dsimp only [cutStep]
    split
    · refine safe_pure fun before behind found => ?_
      cases found
      exact ⟨seesAll_nil, tailSees⟩
    · refine (forceList_sees tailSees).bind fun second leSecond rest restSees => ?_
      refine (cut_safe restSees _).bind fun third leThird found foundSee => ?_
      cases found with
      | none => exact safe_pure fun _ _ isSome => by cases isSome
      | some pieces =>
        obtain ⟨before, behind⟩ := pieces
        obtain ⟨beforeSee, behindSees⟩ := foundSee before behind rfl
        refine safe_pure fun _ _ isSome => ?_
        cases isSome
        exact ⟨seesAll_cons.mpr ⟨headSees.mono (leSecond.trans leThird), beforeSee⟩,
          behindSees⟩

end List

section

variable (sees : stage.SeesAll elements)

include sees

/-- Elements in sight are put before a list one by one. -/
theorem prependEach_safe (listSees : stage.store.Sees list) :
    (prependEach elements list).Safe Seen stage := by
  induction elements generalizing list stage with
  | nil => exact listSees
  | cons element rest ih =>
    obtain ⟨elementSees, restSee⟩ := seesAll_cons.mp sees
    refine (newList_sees (seesAll_cell.mpr ⟨elementSees, listSees⟩)).andThen
      fun later le extended extendedSees => ?_
    exact ih (restSee.mono le) extendedSees

theorem prepend_safe (listSees : stage.store.Sees list) : (prepend elements list).Safe Seen stage :=
  prependEach_safe (sees.subset fun _ mem => List.mem_reverse.mp mem) listSees

/-- Elements in sight are put before a list that is at hand, one by one. -/
theorem consEach_safe (listSees : stage.SeesAll list.thunks) :
    (consEach elements list).Safe (fun later found => later.SeesAll found.thunks) stage := by
  induction elements generalizing list stage with
  | nil => exact listSees
  | cons element rest ih =>
    obtain ⟨elementSees, restSee⟩ := seesAll_cons.mp sees
    refine (newList_sees listSees).andThen fun later le tail tailSees => ?_
    exact ih (restSee.mono le) (seesAll_cell.mpr ⟨elementSees.mono le, tailSees⟩)

theorem ofThunks_safe :
    (ofThunks elements).Safe (fun later found => later.SeesAll found.thunks) stage :=
  consEach_safe (sees.subset fun _ mem => List.mem_reverse.mp mem) seesAll_empty

end

section

variable {values : List Value} (admits : ∀ value ∈ values, stage.Admits value)

include admits

theorem newValues_safe : (values.mapM newValue).Safe SeenAll stage :=
  Code.safe_mapM (fun le sees => sees.mono le) fun value mem _ le =>
    newValue_sees ((admits value mem).mono le)

/-- A list of new values mentions only their thunks. -/
theorem ofValues_safe :
    (ofValues values).Safe (fun later found => later.SeesAll found.thunks) stage :=
  (newValues_safe admits).andThen fun _ _ _ sees => ofThunks_safe sees

end

/-- What is left without one element is the part before it, put before the rest. -/
theorem delete_safe {list : LazyList} (sees : stage.SeesAll list.thunks) (position : Nat) :
    (list.delete position).Safe (fun later found => later.SeesAll found.thunks) stage := by
  dsimp only [delete]
  split
  · exact safe_fault_bind _ _
  · refine (cut_safe sees position).bind fun later _ found foundSee => ?_
    cases found with
    | none => exact safe_fault _
    | some pieces =>
      obtain ⟨before, behind⟩ := pieces
      obtain ⟨beforeSee, behindSees⟩ := foundSee before behind rfl
      exact safe_lift_bind (prepend_safe beforeSee behindSees)
        fun _ _ _ listSees => forceList_sees listSees

section Append

variable {list tail : Thunk} (listSees : stage.store.Sees list) (tailSees : stage.store.Sees tail)

include listSees tailSees

/-- Appending is suspended, and the suspension mentions both lists. -/
theorem append_safe : (append list tail).Safe Seen stage :=
  suspend_sees (by simp [Suspension.thunks, listSees, tailSees]) rfl

/-- One step of appending opens the front list for one cell. -/
theorem appendStep_safe : (appendStep list tail).Safe Seen stage := by
  refine (forceList_sees listSees).bind fun second leSecond cells cellsSee => ?_
  have tailSees := tailSees.mono leSecond
  cases cells with
  | empty => exact safe_pure tailSees
  | cons head rest =>
    obtain ⟨headSees, restSees⟩ := seesAll_cell.mp cellsSee
    refine safe_lift_bind (append_safe restSees tailSees) fun third le joined sees => ?_
    exact safe_lift (newList_sees (seesAll_cell.mpr ⟨headSees.mono le, sees⟩))

end Append

/-- The first of the lists is put before the concatenation of the others. -/
theorem concatenateStep_safe (sees : stage.store.Sees lists) :
    (concatenateStep lists).Safe Seen stage := by
  refine (forceList_sees sees).bind fun second _ cells cellsSee => ?_
  cases cells with
  | empty => exact safe_lift (newList_sees seesAll_empty)
  | cons head rest =>
    obtain ⟨headSees, restSees⟩ := seesAll_cell.mp cellsSee
    refine safe_lift_bind
      (suspend_sees (by simp [Suspension.thunks, restSees]) rfl) fun third le others sees => ?_
    exact safe_lift (append_safe (headSees.mono le) sees)

end LazyList

/-- Every pair is a list of a new key and the value that was there. -/
theorem Dictionary.pairs_safe (admits : stage.AdmitsDictionary dict) :
    dict.pairs.Safe (fun later list => later.SeesAll list.thunks) stage := by
  have each : (dict.toList.mapM fun (key, value) => do
      let keyThunk ← newValue key
      newValue (.list (← LazyList.ofThunks [keyThunk, value]))).Safe
        SeenAll stage := by
    refine Code.safe_mapM (fun le sees => sees.mono le) fun entry mem first leFirst => ?_
    obtain ⟨keyAdmits, valueSees⟩ := admits.entries stage.sound mem
    refine (newValue_sees (keyAdmits.mono leFirst)).andThen fun second leSecond key keySees => ?_
    have pairSees : second.SeesAll [key, entry.2] := by
      simp [keySees, valueSees.mono (leFirst.trans leSecond)]
    exact (ofThunks_safe pairSees).andThen fun _ _ _ listSees => newList_sees listSees
  exact each.andThen fun _ _ _ sees => ofThunks_safe sees

/-! ## Text -/

theorem render_safe (admits : stage.Admits value) : (render value).Safe Any stage :=
  ⟨admits, fun _ _ _ _ _ _ => trivial⟩

/-- Elements are evaluated and rendered from the front to the end of the list. -/
theorem LazyList.renderElements_safe {list : LazyList} (sees : stage.SeesAll list.thunks) :
    list.renderElements.Safe Any stage := by
  cases list with
  | empty => exact safe_pure trivial
  | cons head tail =>
    obtain ⟨headSees, tailSees⟩ := seesAll_cell.mp sees
    refine safe_lift_bind (force_safe headSees) fun first leFirst value gives => ?_
    refine (render_safe gives.admits).bind fun second leSecond _ _ => ?_
    refine (forceList_sees (tailSees.mono (leFirst.trans leSecond))).bind
      fun third _ rest restSees => ?_
    have restSafe : Attempt.Safe Any
        (.ofCode (.call (.renderElements rest) .done)) third :=
      ⟨restSees, fun _ _ _ _ _ _ => trivial⟩
    exact restSafe.bind fun _ _ _ _ => safe_pure trivial

/-- Sorting entries leaves them the entries that they were. -/
theorem Dictionary.sortedEntries_safe (admits : stage.AdmitsDictionary dict) :
    dict.sortedEntries.Safe (fun later entries => ∀ entry ∈ entries,
        later.AdmitsEntry entry) stage := by
  refine (sortedEntries_reads admits).safe.weaken fun later le entries known => ?_
  obtain ⟨_, sorts⟩ := known
  exact holds_of_sortEntries? (admits.mono le) sorts

theorem Dictionary.renderEntry_safe (holds : stage.AdmitsEntry entry) :
    (renderEntry entry).Safe Any stage := by
  refine (render_safe holds.1).bind fun first leFirst _ _ => ?_
  refine safe_lift_bind (force_safe (holds.2.mono leFirst)) fun _ _ _ gives => ?_
  exact (render_safe gives.admits).bind fun _ _ _ _ => safe_pure trivial

/-- All that is rendered is in sight, and the text mentions nothing. -/
theorem Value.render_safe (admits : stage.Admits value) : value.render.Safe Any stage := by
  cases value with
  | list cells =>
    exact (renderElements_safe admits).bind fun _ _ _ _ => safe_pure trivial
  | dictionary entries =>
    refine (sortedEntries_safe admits).bind fun later _ sorted holds => ?_
    have texts : (sorted.mapM Dictionary.renderEntry).Safe
        (fun later texts => ∀ text ∈ texts, Any later text) later :=
      safe_mapM (fun _ _ => trivial) fun entry mem _ le =>
        renderEntry_safe ((holds entry mem).mono le)
    exact texts.bind fun _ _ _ _ => safe_pure trivial
  | error failure => exact safe_throw failure
  | _ => exact safe_pure trivial

theorem Value.display_safe (admits : stage.Admits value) : value.display.Safe Any stage := by
  cases value with
  | string text => exact safe_pure trivial
  | _ => exact ByNeed.render_safe admits

/-! ## Complete views -/

theorem viewValue_safe (admits : stage.Admits value) (limit : Nat) :
    (viewValue value limit).Safe Any stage :=
  ⟨admits, fun _ _ _ _ => trivial⟩

/-- A view of a list ends where there is no more room. -/
theorem viewList_safe (sees : stage.SeesAll list.thunks) (limit room : Nat) :
    (viewList list limit room).Safe Any stage := by
  cases list with
  | empty => exact Code.safe_pure trivial
  | cons head tail =>
    obtain ⟨headSees, tailSees⟩ := seesAll_cell.mp sees
    cases room with
    | zero => exact Code.safe_pure trivial
    | succ room =>
      refine (force_safe headSees).andThen fun first leFirst value gives => ?_
      refine (viewValue_safe gives.admits limit).andThen fun second leSecond _ _ => ?_
      refine (force_safe (tailSees.mono (leFirst.trans leSecond))).andThen
        fun third _ rest restGives => ?_
      cases rest with
      | list cells => exact ⟨restGives.admits, fun _ _ _ _ => trivial⟩
      | _ =>
        exact (viewValue_safe restGives.admits limit).andThen fun _ _ _ _ => trivial

theorem viewEntry_safe (holds : stage.AdmitsEntry entry) (limit : Nat) :
    (viewEntry limit entry).Safe Any stage := by
  refine (viewValue_safe holds.1 limit).andThen fun first leFirst _ _ => ?_
  refine (force_safe (holds.2.mono leFirst)).andThen fun second _ value gives => ?_
  exact (viewValue_safe gives.admits limit).andThen fun _ _ _ _ => trivial

/-- A view shows faults in place, so it never fails. -/
theorem Value.view_safe (admits : stage.Admits value) (limit : Nat) :
    (value.view limit).Safe Any stage := by
  cases value with
  | list cells => exact viewList_safe admits limit limit
  | dictionary entries =>
    refine Code.Safe.andThen (sortedEntries_safe admits) fun later _ outcome holds => ?_
    cases outcome with
    | error failure => exact Code.safe_pure trivial
    | ok sorted =>
      have views : (sorted.mapM (viewEntry limit)).Safe
          (fun later views => ∀ view ∈ views, Any later view) later :=
        Code.safe_mapM (fun _ _ => trivial) fun entry mem _ le =>
          viewEntry_safe ((holds sorted rfl entry mem).mono le) limit
      exact views.andThen fun _ _ _ _ => trivial
  | _ => exact Code.safe_pure trivial

end ByNeed
