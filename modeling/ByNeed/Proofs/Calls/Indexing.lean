import ByNeed.Call
import ByNeed.Prelude
import ByNeed.Proofs.Evaluator.Returns

/-!
# Applying a dictionary is indexing it

A dictionary that is applied binds its one parameter `key`, evaluates it and looks it up; `index`
binds a collection and a key and evaluates both.  On an evaluated dictionary the two have the same
outcome on every store, errors included.
-/

namespace ByNeed

variable {α β : Type} {self : Nat} {store after : Store}

/-! ## Binding one argument -/

theorem bindRest_none_bind (remaining : List Positional) (following : List Thunk → Attempt α) :
    bindRest none remaining >>= following = bindRest none remaining >>= fun _ => following [] := by
  simp only [bindRest, bind_assoc]
  congr 1
  funext pulled
  cases pulled with
  | none | some => rfl

theorem bindRestKeywords_none_bind (keywords : Keywords) (following : List Thunk → Attempt α) :
    bindRestKeywords none keywords >>= following =
      bindRestKeywords none keywords >>= fun _ => following [] := by
  rw [bindRestKeywords]
  split
  · rfl
  · rfl

/-- See that nothing is left over. -/
def seeNoMore (remaining : List Positional) (keywords : List Keyword) : Attempt Unit := do
  let _ ← bindRest none remaining
  let found ← collectKeywords keywords {}
  let _ ← bindRestKeywords none found

/-- With required parameters only, all arguments have to be used up. -/
theorem bind_required (required : List String) (arguments : Arguments) :
    Signature.bind { required } arguments = (do
      let (bound, remaining) ← bindRequired required arguments.positionals
      seeNoMore remaining arguments.keywords
      return bound) := by
  simp only [Signature.bind, seeNoMore, bind_assoc, bindOptionals, liftM_pure, pure_bind]
  congr 1
  funext (bound, remaining)
  rw [bindRest_none_bind]
  simp only [bindRestKeywords_none_bind _ fun more => pure (_ ++ more), List.append_nil]

/-- The value of the one parameter of a call. -/
def Arguments.lone (parameter : String) (arguments : Arguments) : Attempt Thunk := do
  match ← pull arguments.positionals with
  | none => .fault (.missingPositional parameter)
  | some (value, remaining) =>
    seeNoMore remaining arguments.keywords
    return value

theorem bind_single (parameter : String) (arguments : Arguments) :
    Signature.bind { required := [parameter] } arguments =
      (do return [← arguments.lone parameter]) := by
  rw [bind_required]
  simp only [bindRequired, Arguments.lone, bind_assoc, pure_bind]
  congr 1
  funext pulled
  cases pulled with
  | none => rfl
  | some => simp only [bind_assoc, pure_bind]

theorem bind_single_merge (first second : String) (value : Thunk) (arguments : Arguments) :
    Signature.bind { required := [first, second] }
        (Arguments.merge { positionals := [.single value] } arguments) =
      (do return [value, ← arguments.lone second]) := by
  rw [bind_required]
  simp only [Arguments.positionals_merge, Arguments.keywords_merge, List.singleton_append,
    List.nil_append, bindRequired, pull, Arguments.lone, bind_assoc, pure_bind]
  congr 1
  funext pulled
  cases pulled with
  | none => rfl
  | some => simp only [bind_assoc, pure_bind]

/-! ## Both paths -/

theorem Dictionary.call_eq (dictionary : Dict) (arguments : Arguments) :
    dictionary.call arguments = (do
      let key ← arguments.lone "key"
      dictionary.index (← forceChecked key)) := by
  simp only [Dictionary.call, keySignature, bind_single, bind_assoc, pure_bind]

theorem call_index_eq (identity : Nat) (name : String) (collection : Thunk)
    (arguments : Arguments) :
    (Function.plain identity name { required := ["collection", "key"] } false
        (.strictPrimitive .index)).call
      (Arguments.merge { positionals := [.single collection] } arguments) = (do
        let key ← arguments.lone "key"
        let collection ← forceChecked collection
        Collection.index collection (← forceChecked key)) := by
  rw [Function.call, bind_single_merge]
  simp only [Body.invoke, forceParameters, List.mapM_cons, List.mapM_nil, bind_assoc, pure_bind]
  rfl

theorem Prelude.eq_index : ∀ entry ∈ Prelude.entries, entry.name = "index" →
    entry = .strict "index" ["collection", "key"] .index := by
  simp [Prelude.entries, PreludeEntry.byNeed, PreludeEntry.strict]

/-- What is applied is evaluated first. -/
theorem ends_apply_iff (known : store.slot? function = some (.evaluated value)) :
    (apply function arguments).run.Ends self store outcome after ↔
      (match value.purely with
        | .function callee => callee.call arguments
        | .dictionary entries => entries.call arguments
        | .error failure => throw failure
        | other => .fault (.notApplicable other.kind)).run.Ends self store outcome after :=
  (Attempt.returns_force (Store.slot_eq_of_slot? known)).ends_bind_iff outcome after

/-- Applying an evaluated dictionary has the same outcome as applying `index` to it and the same
arguments: the same thunk, or the same error, and the same store. -/
theorem applying_a_dictionary_is_indexing_it {entry : PreludeEntry} {identity : Nat}
    {dictionary : Dict} {collection function : Thunk}
    (listed : entry ∈ Prelude.entries)
    (named : entry.name = "index")
    (isIndex : store.slot? function = some (.evaluated (.function
      (.plain identity entry.name entry.signature false entry.body))))
    (isDictionary : store.slot? collection = some (.evaluated (.dictionary dictionary)))
    (arguments : Arguments) (outcome : Except String (Except Error Thunk)) (after : Store) :
    (apply collection arguments).run.Ends self store outcome after ↔
      (apply function (Arguments.merge { positionals := [.single collection] } arguments)).run.Ends
        self store outcome after := by
  obtain rfl := Prelude.eq_index entry listed named
  rw [ends_apply_iff isDictionary, ends_apply_iff isIndex]
  change (dictionary.call arguments).run.Ends self store outcome after ↔
    ((Function.plain identity "index" { required := ["collection", "key"] } false
      (.strictPrimitive .index)).call _).run.Ends self store outcome after
  rw [Dictionary.call_eq, call_index_eq]
  refine Attempt.ends_bind_congr fun key between returns => ?_
  have stillKnown : between.slot? collection = some (.evaluated (.dictionary dictionary)) :=
    (Attempt.returns_iff_runs.mp returns).keeps collection _ isDictionary (by simp)
  have checked : (forceChecked collection).Returns self between (.dictionary dictionary) between :=
    (Attempt.returns_force (Store.slot_eq_of_slot? stillKnown)).bind
      (Attempt.returns_pure _ between)
  rw [checked.ends_bind_iff]
  rfl

/-- A store with a dictionary, the function `index` and a list of its only key. -/
def lookupStore : Store where
  slots := #[.evaluated (.dictionary ⟨1, some (.tip 0 0 [(.nil, ⟨4⟩)])⟩),
    .evaluated (.function (.plain 1 "index" { required := ["collection", "key"] } false
      (.strictPrimitive .index))),
    .evaluated (.list (.cons ⟨3⟩ ⟨4⟩)), .evaluated .nil, .evaluated (.list .empty)]
  digest _ := 0

/-- A key that is spread is found on both paths. -/
theorem applying_to_a_spread_key :
    (apply ⟨1⟩ (Arguments.merge { positionals := [.single ⟨0⟩] }
      { positionals := [.spread ⟨2⟩] })).Returns 0 lookupStore ⟨4⟩ lookupStore := by
  have returns : (apply ⟨0⟩ { positionals := [.spread ⟨2⟩] }).Returns 0 lookupStore ⟨4⟩
      lookupStore :=
    ⟨.running (.done (.ok ⟨4⟩)), Thread.reaches_of_advance 7 rfl, rfl⟩
  have listed : PreludeEntry.strict "index" ["collection", "key"] .index ∈ Prelude.entries := by
    simp [Prelude.entries]
  exact (applying_a_dictionary_is_indexing_it listed rfl rfl rfl _ _ _).mp returns

end ByNeed
