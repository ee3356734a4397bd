import ByNeed.Proofs.Safety.Collections

/-!
# Building expressions is safe

What an expression is built into mentions only thunks in sight and thunks made on the way, and none
of these is sealed.
-/

namespace ByNeed

open Code Realm List

variable {frame : Frame} {stage : Stage frame}

/-- A literal mentions no thunks. -/
theorem Literal.admits (literal : Literal) : stage.Admits literal.value := by
  cases literal <;> trivial

/-- An effect may defer even a sealed thunk, since only running the effect opens it. -/
theorem newEffect_safe (holds : stage.store.Holds payload) :
    (newEffect payload).Safe Stage.Seen stage := by
  refine Safe.andThen (perform_safe seesAll_nil) fun later le identity _ => ?_
  exact newValue_sees (show later.Admits (.effect identity payload) from holds.mono le)

/-- A new function mentions what its defaults and its body do. -/
theorem newFunction_safe (name : String) (effectful : Bool)
    (signatureSees : stage.SeesAll signature.thunks) (bodySees : stage.SeesAll body.thunks) :
    (newFunction name signature effectful body).Safe
      (fun later function => later.SeesAll function.thunks) stage := by
  refine Safe.andThen (perform_safe seesAll_nil) fun later le identity _ => ?_
  exact safe_pure (seesAll_append.mpr ⟨signatureSees.mono le, bodySees.mono le⟩)

theorem newFunctionValue_sees (sees : stage.SeesAll function.thunks) :
    (newValue (.function function)).Safe Stage.Seen stage :=
  newValue_sees (show stage.Admits (.function function) from sees)

theorem Mode.thunks_body (mode : Mode) (scope : Scope) (body : Expr) :
    (mode.body scope body).thunks = scope.thunks := by
  cases mode <;> rfl

theorem Passing.thunk_positional (passing : Passing) (thunk : Thunk) :
    (passing.positional thunk).thunk = thunk := by
  cases passing <;> rfl

theorem Keyword.thunk_ofName (name : String) (value : Thunk) :
    (Keyword.ofName name value).thunk = value := by
  unfold Keyword.ofName
  split <;> rfl

/-- The names of a recursive group are in sight before their definitions are. -/
theorem newReferences_safe (group : Nat) (names : List String) (index : Nat)
    (sees : stage.SeesAll scope.thunks) :
    (newReferences group names index scope).Safe (fun later found => later.SeesAll found.thunks)
      stage := by
  induction names generalizing index scope stage with
  | nil => exact sees
  | cons name rest ih =>
    refine (suspend_sees seesAll_nil rfl).andThen fun later le reference refSees => ?_
    exact ih (index + 1) (seesAll_cons.mpr ⟨refSees, sees.mono le⟩)

mutual

/-- What an expression is built into is in sight. -/
theorem build_safe (expr : Expr) {stage : Stage frame} (sees : stage.SeesAll scope.thunks) :
    (build expr scope).Safe Stage.Seen stage := by
  cases expr with
  | literal constant => exact newValue_sees (Literal.admits constant)
  | name free =>
    unfold build
    split
    · rename_i thunk found
      exact safe_pure (sees thunk (Scope.mem_thunks_of_find? found))
    · refine ⟨seesAll_nil, fun later _ reply answers => ?_⟩
      cases reply with
      | none => trivial
      | some callee => exact newFunctionValue_sees (answers callee rfl)
  | list elements =>
    refine (buildAll_safe elements sees seesAll_nil).andThen fun _ _ _ thunksSee => ?_
    exact (LazyList.ofThunks_safe thunksSee).andThen fun _ _ _ listSees => newList_sees listSees
  | prepend elements tail =>
    refine (buildAll_safe elements sees seesAll_nil).andThen
      fun first leFirst thunks thunksSee => ?_
    refine (build_safe tail (sees.mono leFirst)).andThen fun second leSecond rest restSees => ?_
    exact LazyList.prepend_safe (thunksSee.mono leSecond) restSees
  | dictionary entries =>
    refine (buildEntries_safe entries sees seesAll_nil seesAll_nil).andThen
      fun _ _ _ thunksSee => ?_
    exact suspend_sees (seesAll_append.mpr thunksSee) rfl
  | error title message => exact newValue_sees trivial
  | effect payload =>
    exact (build_safe payload sees).andThen fun _ _ _ payloadSees =>
      newEffect_safe payloadSees.holds
  | call callee positionals keywords site =>
    refine (build_safe callee sees).andThen fun first leFirst function functionSees => ?_
    refine (buildPositionals_safe positionals (sees.mono leFirst) seesAll_nil).andThen
      fun second leSecond positionals positionalsSee => ?_
    refine (buildKeywords_safe keywords (sees.mono (leFirst.trans leSecond))
      seesAll_nil).andThen fun third leThird keywords keywordsSee => ?_
    refine suspend_sees (seesAll_cons.mpr ⟨?_, seesAll_append.mpr ⟨?_, ?_⟩⟩) rfl
    · exact functionSees.mono (leSecond.trans leThird)
    · exact positionalsSee.mono leThird
    · exact keywordsSee
  | function title required rest optionals restKeywords mode body =>
    refine (buildOptionals_safe optionals sees).andThen
      fun first leFirst optionals optionalsSee => ?_
    have bodySees : first.SeesAll (mode.body scope body).thunks := by
      rw [Mode.thunks_body]
      exact sees.mono leFirst
    exact (newFunction_safe title _ optionalsSee bodySees).andThen fun _ _ _ functionSees =>
      newFunctionValue_sees functionSees
  | letIn bindings body =>
    exact (buildBindings_safe bindings sees).andThen fun _ _ _ innerSees =>
      build_safe body innerSees
  | letRec bindings body =>
    refine ⟨seesAll_nil, fun first leFirst group _ => ?_⟩
    refine (newReferences_safe group (bindings.map Prod.fst) 0 (sees.mono leFirst)).andThen
      fun second _ inner innerSees => ?_
    refine (buildDefinitions_safe bindings group 0 innerSees).andThen fun third leThird _ _ => ?_
    exact build_safe body (innerSees.mono leThird)
  | forced body | outline body =>
    exact (build_safe body sees).andThen fun _ _ _ bodySees =>
      suspend_sees (by simp [Suspension.thunks, bodySees]) rfl
  | breakOff message => exact suspend_sees seesAll_nil rfl
  | _ => exact suspend_sees sees rfl
termination_by structural expr

/-- The built elements stand in reverse until the last one is built. -/
theorem buildAll_safe (exprs : List Expr) {stage : Stage frame} (sees : stage.SeesAll scope.thunks)
    (builtSee : stage.SeesAll built) : (buildAll exprs scope built).Safe Stage.SeenAll stage := by
  cases exprs with
  | nil => exact builtSee.subset fun _ mem => mem_reverse.mp mem
  | cons expr rest =>
    refine (build_safe expr sees).andThen fun later le thunk thunkSees => ?_
    exact buildAll_safe rest (sees.mono le) (seesAll_cons.mpr ⟨thunkSees, builtSee.mono le⟩)
termination_by structural exprs

/-- Of the entries of a dictionary, keys and values are all in sight. -/
theorem buildEntries_safe (entries : List (Expr × Expr)) {stage : Stage frame}
    (sees : stage.SeesAll scope.thunks) (keysSee : stage.SeesAll (built.map Prod.fst))
    (valuesSee : stage.SeesAll (built.map Prod.snd)) : (buildEntries entries scope built).Safe
      (fun later found => later.SeesAll (found.map Prod.fst) ∧ later.SeesAll (found.map Prod.snd))
      stage := by
  cases entries with
  | nil =>
    refine safe_pure ⟨keysSee.subset ?_, valuesSee.subset ?_⟩
    · rw [map_reverse]
      exact fun _ mem => mem_reverse.mp mem
    · rw [map_reverse]
      exact fun _ mem => mem_reverse.mp mem
  | cons entry rest =>
    cases entry with
    | mk key value =>
      refine (build_safe key sees).andThen fun first leFirst keyThunk keySees => ?_
      refine (build_safe value (sees.mono leFirst)).andThen
        fun second leSecond valueThunk valueSees => ?_
      have le := leFirst.trans leSecond
      exact buildEntries_safe rest (sees.mono le) (seesAll_cons.mpr ⟨keySees.mono leSecond,
        keysSee.mono le⟩) (seesAll_cons.mpr ⟨valueSees, valuesSee.mono le⟩)
termination_by structural entries

/-- An argument is in sight whether it is passed or spread. -/
theorem buildPositionals_safe (positionals : List (Passing × Expr)) {stage : Stage frame}
    (sees : stage.SeesAll scope.thunks) (builtSee : stage.SeesAll (built.map Positional.thunk)) :
    (buildPositionals positionals scope built).Safe
      (fun later found => later.SeesAll (found.map Positional.thunk)) stage := by
  cases positionals with
  | nil =>
    refine safe_pure (builtSee.subset ?_)
    rw [map_reverse]
    exact fun _ mem => mem_reverse.mp mem
  | cons positional rest =>
    cases positional with
    | mk passing expr =>
      refine (build_safe expr sees).andThen fun later le thunk thunkSees => ?_
      refine buildPositionals_safe rest (sees.mono le)
        (seesAll_cons.mpr ⟨?_, builtSee.mono le⟩)
      rwa [Passing.thunk_positional]
termination_by structural positionals

theorem buildKeywords_safe (keywords : List (String × Expr)) {stage : Stage frame}
    (sees : stage.SeesAll scope.thunks) (builtSee : stage.SeesAll (built.map Keyword.thunk)) :
    (buildKeywords keywords scope built).Safe
      (fun later found => later.SeesAll (found.map Keyword.thunk)) stage := by
  cases keywords with
  | nil =>
    refine safe_pure (builtSee.subset ?_)
    rw [map_reverse]
    exact fun _ mem => mem_reverse.mp mem
  | cons keyword rest =>
    cases keyword with
    | mk name expr =>
      refine (build_safe expr sees).andThen fun later le thunk thunkSees => ?_
      refine buildKeywords_safe rest (sees.mono le) (seesAll_cons.mpr ⟨?_, builtSee.mono le⟩)
      rwa [Keyword.thunk_ofName]
termination_by structural keywords

/-- A default is a thunk in sight, or an expression in a scope that is. -/
theorem buildOptionals_safe (optionals : List (String × DefaultMode × Expr)) {stage : Stage frame}
    (sees : stage.SeesAll scope.thunks) : (buildOptionals optionals scope).Safe
      (fun later found => later.SeesAll (found.flatMap fun optional => optional.default.thunks))
      stage := by
  cases optionals with
  | nil => exact safe_pure seesAll_nil
  | cons optional rest =>
    cases optional with
    | mk name modeAndExpr =>
      cases modeAndExpr with
      | mk mode expr =>
        have restSafe : ∀ later : Stage frame, stage ≤ later → ∀ default : Default, later.SeesAll
            default.thunks → (do return { name, default } :: (← buildOptionals rest scope) :
              Code (List Optional)).Safe
              (fun final found => final.SeesAll
                (found.flatMap fun optional => optional.default.thunks)) later := by
          intro later le default defaultSees
          refine (buildOptionals_safe rest (sees.mono le)).andThen
            fun final leFinal optionals optionalsSee => ?_
          exact safe_pure (seesAll_append.mpr ⟨defaultSees.mono leFinal, optionalsSee⟩)
        cases mode with
        | fixed =>
          exact (build_safe expr sees).andThen fun later le thunk thunkSees =>
            restSafe later le (.fixed thunk) (by simpa [Default.thunks] using thunkSees)
        | computed => exact restSafe stage le_rfl (.computed scope expr) sees
termination_by structural optionals

/-- Each binding sees those before it, and the scope that is left sees all. -/
theorem buildBindings_safe (bindings : List (String × Expr)) {stage : Stage frame}
    (sees : stage.SeesAll scope.thunks) :
    (buildBindings bindings scope).Safe (fun later found => later.SeesAll found.thunks) stage := by
  cases bindings with
  | nil => exact sees
  | cons binding rest =>
    cases binding with
    | mk name expr =>
      refine (build_safe expr sees).andThen fun later le thunk thunkSees => ?_
      exact buildBindings_safe rest (seesAll_cons.mpr ⟨thunkSees, sees.mono le⟩)
termination_by structural bindings

/-- A definition that is given to its group is in sight. -/
theorem buildDefinitions_safe (bindings : List (String × Expr)) (group index : Nat)
    {stage : Stage frame} (sees : stage.SeesAll scope.thunks) :
    (buildDefinitions bindings group index scope).Safe Stage.Any stage := by
  cases bindings with
  | nil => exact safe_pure trivial
  | cons binding rest =>
    cases binding with
    | mk name expr =>
      refine (build_safe expr sees).andThen fun first leFirst thunk thunkSees => ?_
      refine ⟨seesAll_cons.mpr ⟨thunkSees, seesAll_nil⟩, fun second leSecond _ _ => ?_⟩
      exact buildDefinitions_safe rest group (index + 1) (sees.mono (leFirst.trans leSecond))
termination_by structural bindings

end
end ByNeed
