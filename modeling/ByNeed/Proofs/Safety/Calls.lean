import ByNeed.Proofs.Safety.Primitives

/-!
# Calls are safe

Calling an effectful function suspends its body in a sealed thunk, and only the effect refers to it.
Every other call runs its body on thunks that can be seen.
-/

namespace ByNeed

open Attempt Dictionary Realm LazyList List

variable {frame : Frame} {stage : Stage frame}
variable {positionals : List Positional} {keywords : Keywords} {arguments : Arguments}
variable {bound : List Thunk}

/-! ## Binding -/

theorem pull_safe (sees : stage.SeesAll (positionals.map Positional.thunk)) :
    (pull positionals).Safe (fun later found => ∀ value remaining, found = some (value, remaining) →
        later.store.Sees value ∧ later.SeesAll (remaining.map Positional.thunk)) stage := by
  induction positionals generalizing stage with
  | nil => exact safe_pure fun _ _ found => by cases found
  | cons positional remaining ih =>
    obtain ⟨thunkSees, remainingSee⟩ := seesAll_cons.mp sees
    cases positional with
    | single value =>
      refine safe_pure fun _ _ found => ?_
      cases found
      exact ⟨thunkSees, remainingSee⟩
    | spread list =>
      refine safe_lift_bind (force_safe thunkSees) fun later le value gives => ?_
      cases value with
      | list cells =>
        cases cells with
        | empty => exact ih (remainingSee.mono le)
        | cons head tail =>
          obtain ⟨headSees, tailSees⟩ := seesAll_cell.mp gives.admits
          refine safe_pure fun _ _ found => ?_
          cases found
          exact ⟨headSees, seesAll_cons.mpr ⟨tailSees, remainingSee.mono le⟩⟩
      | error failure => exact safe_throw failure
      | _ => exact safe_fault _

theorem bindRequired_safe (parameters : List String)
    (sees : stage.SeesAll (positionals.map Positional.thunk)) :
    (bindRequired parameters positionals).Safe (fun later found =>
        later.SeesAll found.1 ∧ later.SeesAll (found.2.map Positional.thunk)) stage := by
  induction parameters generalizing positionals stage with
  | nil => exact safe_pure ⟨seesAll_nil, sees⟩
  | cons parameter parameters ih =>
    refine (pull_safe sees).bind fun first leFirst found foundSee => ?_
    cases found with
    | none => exact safe_fault _
    | some pulled =>
      obtain ⟨value, remaining⟩ := pulled
      obtain ⟨valueSees, remainingSee⟩ := foundSee value remaining rfl
      refine (ih remainingSee).bind fun second leSecond rest restSee => ?_
      exact safe_pure
        ⟨seesAll_cons.mpr ⟨valueSees.mono leSecond, restSee.1⟩, restSee.2⟩

theorem passEach_safe (sees : stage.SeesAll (positionals.map Positional.thunk))
    (listSees : stage.store.Sees list) : (passEach positionals list).Safe Stage.Seen stage := by
  induction positionals generalizing list stage with
  | nil => exact listSees
  | cons positional rest ih =>
    obtain ⟨thunkSees, restSee⟩ := seesAll_cons.mp sees
    cases positional with
    | single value =>
      refine (newList_sees (seesAll_cell.mpr ⟨thunkSees, listSees⟩)).andThen
        fun later le extended extendedSees => ?_
      exact ih (restSee.mono le) extendedSees
    | spread values =>
      refine (append_safe thunkSees listSees).andThen
        fun later le extended extendedSees => ?_
      exact ih (restSee.mono le) extendedSees

theorem restList_safe (sees : stage.SeesAll (positionals.map Positional.thunk)) :
    (restList positionals).Safe Stage.Seen stage := by
  refine (newList_sees seesAll_empty).andThen fun later le list listSees => ?_
  refine passEach_safe ((sees.mono le).subset ?_) listSees
  rw [map_reverse]
  exact fun _ mem => mem_reverse.mp mem

theorem bindRest_safe (rest : Option String)
    (sees : stage.SeesAll (positionals.map Positional.thunk)) :
    (bindRest rest positionals).Safe Stage.SeenAll stage := by
  cases rest with
  | some parameter =>
    refine safe_lift_bind (restList_safe sees) fun _ _ list listSees => ?_
    exact safe_pure (seesAll_cons.mpr ⟨listSees, seesAll_nil⟩)
  | none =>
    refine (pull_safe sees).bind fun _ _ found _ => ?_
    cases found with
    | none => exact safe_pure seesAll_nil
    | some pulled => exact safe_fault _

/-- Every keyword is bound to a thunk that can be seen. -/
def Keywords.Seen (keywords : Keywords) (realm : Realm) : Prop :=
  ∀ name value, keywords.get? name = some value → realm.store.Sees value

namespace Keywords.Seen

variable {keywords : Keywords} {earlier later : Realm}

theorem mono (seen : keywords.Seen earlier) (le : earlier ≤ later) : keywords.Seen later :=
  fun name value found => (seen name value found).mono le

theorem empty : Seen ({} : Keywords) later := by
  intro name value found
  simp at found

theorem insert (seen : keywords.Seen later) (name : String) (sees : later.store.Sees value) :
    Seen (keywords.insert name value) later := by
  intro other found isFound
  rw [Std.TreeMap.get?_eq_getElem?, Std.TreeMap.getElem?_insert] at isFound
  split at isFound
  · cases isFound
    exact sees
  · exact seen other found isFound

theorem erase (seen : keywords.Seen later) (name : String) : Seen (keywords.erase name) later := by
  intro other found isFound
  rw [Std.TreeMap.get?_eq_getElem?, Std.TreeMap.getElem?_erase] at isFound
  split at isFound
  · contradiction
  · exact seen other found isFound

end Keywords.Seen

theorem spreadKeywords_safe (sees : ∀ entry ∈ entries, stage.store.Sees entry.2)
    (seen : keywords.Seen stage.toRealm) :
    (spreadKeywords entries keywords).Safe (fun later found => found.Seen later.toRealm) stage := by
  induction entries generalizing keywords with
  | nil => exact safe_pure seen
  | cons entry rest ih =>
    obtain ⟨key, value⟩ := entry
    cases key with
    | string name =>
      exact ih (fun other mem => sees other (mem_cons_of_mem _ mem))
        (seen.insert name (sees _ mem_cons_self))
    | _ => exact safe_fault _

theorem collectKeywords_safe {arguments : List Keyword}
    (sees : stage.SeesAll (arguments.map Keyword.thunk)) (seen : keywords.Seen stage.toRealm) :
    (collectKeywords arguments keywords).Safe (fun later found => found.Seen later.toRealm)
      stage := by
  induction arguments generalizing keywords stage with
  | nil => exact safe_pure seen
  | cons argument rest ih =>
    obtain ⟨thunkSees, restSee⟩ := seesAll_cons.mp sees
    cases argument with
    | named name value => exact ih restSee (seen.insert name thunkSees)
    | spread dict =>
      refine (forceDictionary_safe thunkSees).bind fun first leFirst entries admits => ?_
      refine (spreadKeywords_safe (fun _ mem => (admits.entries first.sound mem).2)
        (seen.mono leFirst)).bind fun second leSecond found foundSeen => ?_
      exact ih (restSee.mono (leFirst.trans leSecond)) foundSeen

theorem Default.thunk_safe {default : Default} (names : List String)
    (sees : stage.SeesAll default.thunks) (boundSee : stage.SeesAll bound) :
    (default.thunk names bound).Safe Stage.Seen stage := by
  cases default with
  | fixed value => exact Code.safe_pure (seesAll_cons.mp sees).1
  | computed scope body =>
    have scopeSees : stage.SeesAll scope.thunks := sees
    exact suspend_sees (scopeSees.bindAll boundSee names) rfl

theorem bindOptionals_safe (names : List String) {optionals : List Optional}
    (sees : stage.SeesAll (optionals.flatMap fun optional => optional.default.thunks))
    (boundSee : stage.SeesAll bound) (seen : keywords.Seen stage.toRealm) :
    (bindOptionals names optionals bound keywords).Safe
      (fun later found => later.SeesAll found.1 ∧ found.2.Seen later.toRealm) stage := by
  induction optionals generalizing bound keywords stage with
  | nil => exact Code.safe_pure ⟨boundSee, seen⟩
  | cons optional rest ih =>
    rw [flatMap_cons, seesAll_append] at sees
    unfold bindOptionals
    split
    · rename_i value found
      refine ih sees.2 (seesAll_append.mpr ⟨boundSee, ?_⟩) (seen.erase optional.name)
      exact seesAll_cons.mpr ⟨seen _ value found, seesAll_nil⟩
    · refine (Default.thunk_safe names sees.1 boundSee).andThen fun later le value valueSees => ?_
      refine ih (sees.2.mono le) (seesAll_append.mpr ⟨boundSee.mono le, ?_⟩) (seen.mono le)
      exact seesAll_cons.mpr ⟨valueSees, seesAll_nil⟩

theorem bindRestKeywords_safe (rest : Option String) (seen : keywords.Seen stage.toRealm) :
    (bindRestKeywords rest keywords).Safe Stage.SeenAll stage := by
  cases rest with
  | some parameter =>
    have entriesHold : ∀ entry ∈ keywords.toList.map fun keyword => (Value.string keyword.1,
        keyword.2), stage.AdmitsEntry entry := by
      intro entry mem
      obtain ⟨⟨name, value⟩, listed, rfl⟩ := mem_map.mp mem
      refine ⟨trivial, seen name value ?_⟩
      rwa [Std.TreeMap.get?_eq_getElem?, ← Std.TreeMap.mem_toList_iff_getElem?_eq_some]
    refine (ofEntries_safe entriesHold).bind fun _ _ _ admits => ?_
    refine safe_lift_bind (newDictionary_sees admits) fun _ _ _ thunkSees => ?_
    exact safe_pure (seesAll_cons.mpr ⟨thunkSees, seesAll_nil⟩)
  | none =>
    simp only [bindRestKeywords]
    split
    · exact safe_pure seesAll_nil
    · exact safe_fault _

theorem Signature.bind_safe {signature : Signature} (sees : stage.SeesAll signature.thunks)
    (argumentsSee : stage.SeesAll arguments.thunks) :
    (signature.bind arguments).Safe Stage.SeenAll stage := by
  obtain ⟨positionalsSee, keywordsSee⟩ := seesAll_append.mp argumentsSee
  refine (bindRequired_safe signature.required positionalsSee).bind
    fun first leFirst required requiredSee => ?_
  refine (bindRest_safe signature.rest requiredSee.2).bind fun second leSecond rest restSee => ?_
  have le := leFirst.trans leSecond
  refine (collectKeywords_safe (keywordsSee.mono le) .empty).bind
    fun third leThird keywords seen => ?_
  have leMore := le.trans leThird
  have boundSee : third.SeesAll (required.1 ++ rest) :=
    seesAll_append.mpr ⟨requiredSee.1.mono (leSecond.trans leThird), restSee.mono leThird⟩
  refine safe_lift_bind (bindOptionals_safe signature.names (sees.mono leMore) boundSee
    seen) fun fourth leFourth bound boundSee => ?_
  refine (bindRestKeywords_safe signature.restKeywords boundSee.2).bind
    fun fifth leFifth rest restSee => ?_
  exact safe_pure (seesAll_append.mpr ⟨boundSee.1.mono leFifth, restSee⟩)

/-! ## Calls -/

theorem returning_safe (safe : result.Safe Stage.Seen stage) :
    (returning result).Safe Stage.Seen stage := by
  refine Code.Safe.andThen safe fun later _ outcome sees => ?_
  cases outcome with
  | ok thunk => exact Code.safe_pure (sees thunk rfl)
  | error failure => exact newValue_sees trivial

theorem forceChecked_safe (sees : stage.store.Sees thunk) :
    (forceChecked thunk).Safe (fun later value => later.Admits value) stage := by
  refine safe_lift_bind (force_safe sees) fun later _ value gives => ?_
  refine safe_ofExcept fun checked isOk => ?_
  cases value <;> cases isOk <;> exact gives.admits

theorem forceParameters_safe {thunks : List Thunk} (sees : stage.SeesAll thunks) :
    (forceParameters thunks).Safe
      (fun later values => ∀ value ∈ values, later.Admits value) stage :=
  safe_mapM (fun le admits => admits.mono le) fun thunk mem _ le =>
    forceChecked_safe ((sees thunk mem).mono le)

theorem Body.invoke_safe {body : Body} (names : List String) (sees : stage.SeesAll body.thunks)
    (boundSee : stage.SeesAll bound) : (body.invoke names bound).Safe Stage.Seen stage := by
  cases body with
  | lazyPrimitive operation => exact operation.run_safe boundSee
  | strictPrimitive operation =>
    exact (forceParameters_safe boundSee).bind fun _ _ _ admits => operation.run_safe admits
  | lazyExpr scope expr =>
    exact safe_lift (build_safe expr (sees.bindAll boundSee names))
  | strictExpr scope expr =>
    refine (forceParameters_safe boundSee).bind fun first leFirst values admits => ?_
    refine safe_lift_bind (newValues_safe admits)
      fun second leSecond thunks thunksSee => ?_
    have scopeSees := sees.mono (leFirst.trans leSecond)
    exact safe_lift (build_safe expr (scopeSees.bindAll thunksSee names))

theorem Function.call_safe {function : Function} (sees : stage.SeesAll function.thunks)
    (argumentsSee : stage.SeesAll arguments.thunks) :
    (function.call arguments).Safe Stage.Seen stage := by
  induction function generalizing arguments with
  | fixing identity target fixed ih =>
    obtain ⟨targetSees, fixedSee⟩ := seesAll_append.mp sees
    refine ih targetSees fun thunk mem => ?_
    rcases Arguments.mem_thunks_merge.mp mem with inFixed | inArguments
    · exact fixedSee thunk inFixed
    · exact argumentsSee thunk inArguments
  | plain identity name signature effectful body =>
    obtain ⟨signatureSees, bodySees⟩ := seesAll_append.mp sees
    refine (Signature.bind_safe signatureSees argumentsSee).bind fun later le bound boundSee => ?_
    have bodySees := bodySees.mono le
    cases effectful with
    | true =>
      have suspended : (suspend (.invoke body signature.names bound)).Safe
          (fun later thunk => later.store.Holds thunk) later :=
        suspend_holds (seesAll_append.mpr ⟨bodySees, boundSee⟩)
      exact safe_lift_bind suspended fun _ _ _ holds =>
        safe_lift (newEffect_safe holds)
    | false => exact Body.invoke_safe signature.names bodySees boundSee

theorem Dictionary.call_safe {dict : Dict} (admits : stage.AdmitsDictionary dict)
    (argumentsSee : stage.SeesAll arguments.thunks) :
    (dict.call arguments).Safe Stage.Seen stage := by
  have noDefaults : stage.SeesAll keySignature.thunks := seesAll_nil
  refine (Signature.bind_safe noDefaults argumentsSee).bind fun first leFirst bound boundSee => ?_
  split
  · rename_i argument
    refine (forceChecked_safe (seesAll_cons.mp boundSee).1).bind
      fun second leSecond key keyAdmits => ?_
    exact index_safe (admits.mono (leFirst.trans leSecond)) keyAdmits
  · exact unfitParameters_safe

theorem apply_safe {function : Thunk} (sees : stage.store.Sees function)
    (argumentsSee : stage.SeesAll arguments.thunks) :
    (apply function arguments).Safe Stage.Seen stage := by
  refine safe_lift_bind (force_safe sees) fun later le value gives => ?_
  have argumentsSee := argumentsSee.mono le
  cases value with
  | function callee => exact Function.call_safe gives.admits argumentsSee
  | dictionary entries => exact call_safe gives.admits argumentsSee
  | error failure => exact safe_throw failure
  | _ => exact safe_fault _

theorem makeDictionary_safe {entries : List (Thunk × Thunk)}
    (keysSee : stage.SeesAll (entries.map Prod.fst))
    (valuesSee : stage.SeesAll (entries.map Prod.snd)) :
    (Suspension.makeDictionary entries).Safe Stage.Seen stage := by
  refine (forceParameters_safe keysSee).bind fun first leFirst keys keysAdmit => ?_
  have entriesHold : ∀ entry ∈ keys.zip (entries.map Prod.snd),
      first.AdmitsEntry entry := by
    intro entry mem
    obtain ⟨inKeys, inValues⟩ := of_mem_zip mem
    exact ⟨keysAdmit _ inKeys, (valuesSee _ inValues).mono leFirst⟩
  refine (ofEntries_safe entriesHold).bind fun _ _ _ admits => ?_
  exact safe_lift (newDictionary_sees admits)

theorem Suspension.resume_safe {computation : Suspension}
    (sees : stage.SeesAll computation.thunks) : computation.resume.Safe Stage.Seen stage := by
  cases computation with
  | apply function arguments site =>
    obtain ⟨functionSees, argumentsSee⟩ := seesAll_cons.mp sees
    exact returning_safe (apply_safe functionSees argumentsSee)
  | append list tail =>
    obtain ⟨listSees, tailSee⟩ := seesAll_cons.mp sees
    exact returning_safe (appendStep_safe listSees (seesAll_cons.mp tailSee).1)
  | concatenate lists =>
    exact returning_safe (concatenateStep_safe (seesAll_cons.mp sees).1)
  | invoke body names bound =>
    obtain ⟨bodySees, boundSee⟩ := seesAll_append.mp sees
    exact returning_safe (Body.invoke_safe names bodySees boundSee)
  | cell group index =>
    refine ⟨seesAll_nil, fun later _ reply answers => ?_⟩
    cases reply with
    | none => exact newValue_sees trivial
    | some definition => exact Code.safe_pure (answers definition rfl)
  | receive channel => exact receiveStep_safe channel
  | build scope body => exact build_safe body sees
  | probe note scope body =>
    exact ⟨seesAll_nil, fun later le _ _ => build_safe body (sees.mono le)⟩
  | dictionary entries =>
    obtain ⟨keysSee, valuesSee⟩ := seesAll_append.mp sees
    exact returning_safe (makeDictionary_safe keysSee valuesSee)
  | forced thunk =>
    exact (force_safe (seesAll_cons.mp sees).1).andThen fun _ _ _ gives =>
      newValue_sees gives.admits
  | outline thunk => exact ⟨sees, fun _ _ _ _ => newValue_sees trivial⟩
  | breakOff message => trivial

/-! ## Routines -/

/-- Every routine is safe and replies as it should. -/
theorem Routine.body_safe {routine : Routine} (allowed : routine.Allowed stage.toRealm) :
    routine.body.Safe (fun later reply => routine.Answers later reply) stage := by
  cases routine with
  | compare left right => exact Value.compare_reads allowed.1 allowed.2
  | compareLists left right =>
    change (left.compare right).Reads
      (fun store bound => store.order? bound (.list left) (.list right)) stage
    refine Attempt.Reads.succ ?_
    exact compare_reads allowed.1 allowed.2
  | hash value => exact Value.hash_reads allowed
  | hashElements list =>
    change list.hashes.Reads (fun store bound => store.hashes? bound list) stage
    refine Attempt.Reads.succ ?_
    exact hashes_reads allowed
  | render value => exact Code.Safe.weaken (Value.render_safe allowed) fun _ _ _ _ => trivial
  | renderElements list =>
    exact Code.Safe.weaken (renderElements_safe allowed) fun _ _ _ _ => trivial
  | elements list => exact elementsStep_safe allowed
  | contains list value =>
    exact Code.Safe.weaken (containsStep_safe allowed.1 allowed.2) fun _ _ _ _ => trivial
  | nth list skipped =>
    refine Code.Safe.weaken (nthStep_safe allowed skipped)
      fun later _ outcome sees thunk isOk => ?_
    exact sees _ isOk thunk rfl
  | cut list position =>
    refine Code.Safe.weaken (cutStep_safe allowed position)
      fun later _ outcome sees before behind isOk => ?_
    exact sees _ isOk before behind rfl
  | fold operation total numbers =>
    exact Code.Safe.weaken (Arithmetic.foldStep_safe operation total allowed) fun _ _ _ _ => trivial
  | allEqual value list =>
    exact Code.Safe.weaken (allEqualStep_safe allowed.1 allowed.2) fun _ _ _ _ => trivial
  | monotone order previous list =>
    exact Code.Safe.weaken (Monotone.holdsFromStep_safe order allowed.1 allowed.2)
      fun _ _ _ _ => trivial
  | assign dict list => exact assignStep_safe allowed.1 allowed.2
  | mergeAll dict list => exact mergeAllStep_safe allowed.1 allowed.2
  | choose branches => exact chooseStep_safe allowed
  | view value limit => exact Value.view_safe allowed limit
  | viewList list limit room => exact viewList_safe allowed limit room
  | walk scheduler spine channel backlog capacity =>
    exact walkStep_safe scheduler allowed channel backlog capacity

end ByNeed
