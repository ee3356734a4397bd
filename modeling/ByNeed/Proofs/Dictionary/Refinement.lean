import ByNeed.Proofs.Dictionary.Settled

/-!
# Dictionaries are finite maps

A dictionary built by any sequence of operations holds what their history leaves, by key, size and
list of entries.
-/

namespace ByNeed

variable {number : Nat}

/-- Dictionaries built from hashable keys, with the histories of how they were built and the
store that a thread has come to.  Between the operations the store may become any later one. -/
inductive Keys.Built (keys : Keys number) : Store → Dict → History Value Thunk → Prop
  | empty {store : Store}
      (usable : keys.Usable store) :
      Built keys store .empty .empty
  | later {dictionary : Dict} {history : History Value Thunk} {store after : Store}
      (built : Built keys store dictionary history)
      (usable : keys.Usable after)
      (le : store.nextIdentity ≤ after.nextIdentity) :
      Built keys after dictionary history
  | insert {dictionary later : Dict} {history : History Value Thunk} {key : Value}
      {value : Thunk} {store after : Store}
      (built : Built keys store dictionary history)
      (hashable : keys.Hashable key)
      (returns : (dictionary.insert key value).Returns number store later after) :
      Built keys after later (history.write key value)
  | remove {dictionary later : Dict} {history : History Value Thunk} {key : Value}
      {store after : Store}
      (built : Built keys store dictionary history)
      (hashable : keys.Hashable key)
      (returns : (dictionary.remove key).Returns number store later after) :
      Built keys after later (history.erase key)
  | merge {dictionary other later : Dict} {history otherHistory : History Value Thunk}
      {store after : Store}
      (built : Built keys store dictionary history)
      (otherBuilt : Built keys store other otherHistory)
      (returns : (dictionary.merge other).Returns number store later after) :
      Built keys after later (history.merge otherHistory)
  | ofEntries {entries : List (Value × Thunk)} {later : Dict} {store after : Store}
      (usable : keys.Usable store)
      (hashable : ∀ entry ∈ entries, keys.Hashable entry.1)
      (returns : (Dictionary.ofEntries entries).Returns number store later after) :
      Built keys after later (History.empty.writeAll entries)

namespace Keys

variable {keys : Keys number} {dictionary : Dict} {history : History Value Thunk}

/-- A dictionary that was built holds what its history leaves, and its nodes are older than what is
made next. -/
theorem Built.holds (built : keys.Built store dictionary history) :
    keys.Usable store ∧ keys.Holds dictionary history ∧ dictionary.Stamped store.nextIdentity := by
  induction built with
  | empty usable => exact ⟨usable, ⟨.empty keys.toKeySpace, trivial⟩, Dictionary.stamped_empty⟩
  | later _ usable le ih => exact ⟨usable, ih.2.1, ih.2.2.mono le⟩
  | insert _ hashable returns ih =>
    obtain ⟨usable, holds, stamped⟩ := ih
    obtain ⟨usableAfter, laterHolds, laterStamped⟩ :=
      (holds.yields_insert usable hashable _).of_returns returns
    exact ⟨usableAfter, laterHolds, laterStamped stamped⟩
  | remove _ hashable returns ih =>
    obtain ⟨usable, holds, stamped⟩ := ih
    exact (holds.yields_remove usable stamped hashable).of_returns returns
  | merge _ _ returns ih otherHypothesis =>
    obtain ⟨usable, holds, stamped⟩ := ih
    obtain ⟨-, otherHolds, otherStamped⟩ := otherHypothesis
    obtain ⟨usableAfter, laterHolds, laterStamped⟩ :=
      (Holds.yields_merge usable holds otherHolds).of_returns returns
    exact ⟨usableAfter, laterHolds, laterStamped stamped otherStamped⟩
  | ofEntries usable hashable returns =>
    exact (Holds.yields_ofEntries usable hashable).of_returns returns

theorem Yields.of_forall_returns (yields : keys.Yields store attempt condition)
    (implies : ∀ {result after}, attempt.Returns number store result after →
      stronger after result) :
    keys.Yields store attempt stronger := by
  obtain ⟨result, after, usable, returns, -⟩ := yields
  exact ⟨result, after, usable, returns, implies returns⟩

end Keys

/-- Dictionaries refine histories, for every hash that is the same for equal keys, however
many keys share one.  Looking a key up returns the value written last to an equal key, if
the key was not erased since.  The size is the number of keys present, and a dictionary is
empty when there is none.  The list of entries has one entry for each key present, with
its value, under the key that was written when there was none.  And every further
operation returns. -/
theorem dictionary_refines_history (keys : Keys number) {store : Store} {dictionary : Dict}
    {history : History Value Thunk} (built : keys.Built store dictionary history) :
    (∀ key, keys.Hashable key →
      keys.Yields store (dictionary.get? key) fun _ found =>
        found = (history.lookup keys.toKeySpace key).map Prod.snd) ∧
    (∀ present : List Value,
      present.Pairwise (fun left right => keys.equal left right = false) →
      (∀ key, (history.lookup keys.toKeySpace key).isSome = true ↔
        ∃ other ∈ present, keys.equal other key = true) →
      dictionary.size = present.length) ∧
    (dictionary.isEmpty = true ↔ ∀ key, history.lookup keys.toKeySpace key = none) ∧
    (dictionary.toList.length = dictionary.size ∧
      ∀ key, dictionary.toList.filter (fun entry => keys.equal entry.1 key) =
        (history.lookup keys.toKeySpace key).toList) ∧
    (∀ key value, keys.Hashable key →
      keys.Yields store (dictionary.insert key value) fun after later =>
        keys.Built after later (history.write key value)) ∧
    (∀ key, keys.Hashable key →
      keys.Yields store (dictionary.remove key) fun after later =>
        keys.Built after later (history.erase key)) ∧
    (∀ other otherHistory, keys.Built store other otherHistory →
      keys.Yields store (dictionary.merge other) fun after later =>
        keys.Built after later (history.merge otherHistory)) ∧
    ∀ entries : List (Value × Thunk), (∀ entry ∈ entries, keys.Hashable entry.1) →
      keys.Yields store (Dictionary.ofEntries entries) fun after later =>
        keys.Built after later (History.empty.writeAll entries) := by
  obtain ⟨usable, holds, stamped⟩ := built.holds
  have represents := holds.represents
  refine ⟨?_, ?_, represents.isEmpty_iff, ⟨represents.valid.size_eq.symm,
    represents.entriesFor_eq⟩, ?_, ?_, ?_, ?_⟩
  · intro key hashable
    exact holds.yields_get? usable hashable
  · intro present distinct present_iff
    exact represents.size_eq_length distinct present_iff
  · intro key value hashable
    exact (holds.yields_insert usable hashable value).of_forall_returns (.insert built hashable)
  · intro key hashable
    exact (holds.yields_remove usable stamped hashable).of_forall_returns (.remove built hashable)
  · intro other otherHistory otherBuilt
    obtain ⟨-, otherHolds, -⟩ := otherBuilt.holds
    exact (Keys.Holds.yields_merge usable holds otherHolds).of_forall_returns
      (.merge built otherBuilt)
  · intro entries hashable
    exact (Keys.Holds.yields_ofEntries usable hashable).of_forall_returns
      (.ofEntries usable hashable)

/-- A store whose digest is the same for all keys. -/
def collidingStore : Store where
  digest _ := 0

theorem collidingStore_refines :
    (collidingStore.settledKeys 0).hash .nil = (collidingStore.settledKeys 0).hash (.boolean true) ∧
      ∃ store dictionary, (collidingStore.settledKeys 0).Built store dictionary
          (((History.empty.write .nil ⟨0⟩).write (.boolean true) ⟨1⟩).erase .nil) ∧
        dictionary.size = 1 := by
  have nilShape : collidingStore.shape? .nil = some .nil := Store.shape?_eq_some .nil
  have trueShape : collidingStore.shape? (.boolean true) = some (.boolean true) :=
    Store.shape?_eq_some (.boolean true)
  have usable : (collidingStore.settledKeys 0).Usable collidingStore := ⟨.refl _, rfl⟩
  obtain ⟨-, -, -, -, inserts, -⟩ :=
    dictionary_refines_history (collidingStore.settledKeys 0) (.empty usable)
  obtain ⟨first, _, -, -, firstBuilt⟩ := inserts .nil ⟨0⟩ ⟨_, .nil⟩
  obtain ⟨-, -, -, -, inserts, -⟩ := dictionary_refines_history _ firstBuilt
  obtain ⟨second, _, -, -, secondBuilt⟩ := inserts (.boolean true) ⟨1⟩ ⟨_, .boolean true⟩
  obtain ⟨-, -, -, -, -, removes, -⟩ := dictionary_refines_history _ secondBuilt
  obtain ⟨third, store, -, -, thirdBuilt⟩ := removes .nil ⟨_, .nil⟩
  obtain ⟨-, size_eq, -⟩ := dictionary_refines_history _ thirdBuilt
  refine ⟨?_, store, third, thirdBuilt, size_eq [.boolean true] (by simp) fun key => ?_⟩
  · simp only [Store.settledKeys, nilShape, trueShape]
    rfl
  · simp only [History.lookup, Store.settledKeys, nilShape, trueShape, decide_eq_true_eq,
      List.mem_singleton, exists_eq_left]
    generalize collidingStore.shape? key = shape
    by_cases isNil : some Shape.nil = shape
    · simp [← isNil]
    · by_cases isTrue : some (Shape.boolean true) = shape <;> simp [isNil, isTrue]

end ByNeed
