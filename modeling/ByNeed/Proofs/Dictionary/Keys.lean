import ByNeed.Proofs.Dictionary.History
import ByNeed.Proofs.Evaluator.Returns

/-!
# Keys that answer

Keys answer on a store when hashing and comparing them returns a hash and an equality that go
together, and keeps them answering.  Then every operation on dictionaries returns the dictionary
that its history asks for.
-/

namespace ByNeed

variable {number : Nat} {α β : Type}

/-- A hash and an equality of values, with the values and the stores for which a thread
finds them by hashing and comparing. -/
structure Keys (number : Nat) extends KeySpace Value where
  Hashable : Value → Prop
  Usable : Store → Prop
  hashes : ∀ {store key}, Usable store → Hashable key →
    ∃ after, Usable after ∧ (hashValue key).Returns number store (hash key) after
  equals : ∀ {store left right}, Usable store → Hashable left → Hashable right →
    ∃ after, Usable after ∧ (equalValues left right).Returns number store (equal left right) after
  stamps : ∀ {store}, Usable store → Usable store.takeIdentity.2

namespace Keys

variable (keys : Keys number)

/-- On a store an attempt returns, and what it returns meets a condition. -/
def Yields (store : Store) (attempt : Attempt α) (condition : Store → α → Prop) : Prop :=
  ∃ result after, keys.Usable after ∧ attempt.Returns number store result after ∧
    condition after result

variable {keys} {attempt : Attempt α} {condition : Store → α → Prop}
variable {store : Store} {key : Value} {entries : List (Value × Thunk)}

section

variable (yields : keys.Yields store attempt condition)

include yields

theorem Yields.bind
    (followingYields : ∀ {between result}, keys.Usable between →
      store.nextIdentity ≤ between.nextIdentity → condition between result →
        keys.Yields between (following result) final) :
    keys.Yields store (attempt >>= following) final := by
  obtain ⟨result, between, usable, returns, holds⟩ := yields
  obtain ⟨last, after, usableAfter, followingReturns, finalHolds⟩ :=
    followingYields usable returns.nextIdentity_le holds
  exact ⟨last, after, usableAfter, returns.bind followingReturns, finalHolds⟩

theorem Yields.mono (implies : ∀ {after result}, store.nextIdentity ≤ after.nextIdentity →
      condition after result → weaker after result) : keys.Yields store attempt weaker := by
  obtain ⟨result, after, usable, returns, holds⟩ := yields
  exact ⟨result, after, usable, returns, implies returns.nextIdentity_le holds⟩

theorem Yields.of_returns (returns : attempt.Returns number store result after) :
    keys.Usable after ∧ condition after result := by
  obtain ⟨found, left, usable, returnsToo, holds⟩ := yields
  obtain ⟨rfl, rfl⟩ := returns.unique returnsToo
  exact ⟨usable, holds⟩

end

section Usable

variable (usable : keys.Usable store)

include usable

theorem yields_pure (holds : condition store result) :
    keys.Yields store (pure result) condition :=
  ⟨result, store, usable, Attempt.returns_pure result store, holds⟩

theorem yields_hashValue (hashable : keys.Hashable key) :
    keys.Yields store (hashValue key) fun _ word => word = keys.hash key := by
  obtain ⟨after, usableAfter, returns⟩ := keys.hashes usable hashable
  exact ⟨_, after, usableAfter, returns, rfl⟩

theorem yields_equalValues (leftHashable : keys.Hashable left)
    (rightHashable : keys.Hashable right) :
    keys.Yields store (equalValues left right) fun _ equal => equal = keys.equal left right := by
  obtain ⟨after, usableAfter, returns⟩ := keys.equals usable leftHashable rightHashable
  exact ⟨_, after, usableAfter, returns, rfl⟩

/-- A new node has a stamp that no older one has. -/
theorem yields_make (node : Nat → Trie Value Thunk) :
    keys.Yields store (Trie.make node) fun after made => ∃ stamp, made = node stamp ∧
      store.nextIdentity ≤ stamp ∧ stamp < after.nextIdentity :=
  ⟨_, _, keys.stamps usable, Attempt.returns_make node store, _, rfl, Nat.le_refl _,
    Nat.lt_succ_self _⟩

/-! ## Walks -/

theorem yields_position? (hashable : keys.Hashable key)
    (entriesHashable : ∀ entry ∈ entries, keys.Hashable entry.1) :
    keys.Yields store (Dictionary.position? key entries) fun _ position =>
      position = entries.findIdx? (keys.isFor key) := by
  induction entries generalizing store with
  | nil => exact yields_pure usable rfl
  | cons entry rest ih =>
    obtain ⟨entryHashable, restHashable⟩ := List.forall_mem_cons.mp entriesHashable
    rw [Dictionary.position?]
    apply (yields_equalValues usable entryHashable hashable).bind
    rintro between _ usable - rfl
    rw [List.findIdx?_cons, KeySpace.isFor]
    by_cases same : keys.equal entry.1 key = true
    · rw [if_pos same, if_pos same]
      exact yields_pure usable rfl
    · rw [if_neg same, if_neg same]
      apply (ih usable restHashable).bind
      rintro between _ usable - rfl
      exact yields_pure usable rfl

section Trie

open Trie

variable {trie : Trie Value Thunk} (formed : trie.WellFormed) (hashable : keys.Hashable key)
  (entriesHashable : ∀ entry ∈ trie.bucket (keys.hash key), keys.Hashable entry.1)

include formed hashable entriesHashable

omit formed hashable entriesHashable in
theorem yields_joinTip {hash stem : UInt64} {value : Thunk}
    (sets : ∀ new stamp, trie.SetsBucket hash [(key, value)]
      (join stamp hash (.tip new hash [(key, value)]) stem trie)) :
    keys.Yields store (do
        let added ← make (.tip · hash [(key, value)])
        return (← make (join · hash added stem trie), true))
      fun after result =>
        trie.SetsBucket hash [(key, value)] result.1 ∧ result.2 = true ∧
          (trie.Stamped store.nextIdentity → result.1.Stamped after.nextIdentity) := by
  apply (yields_make usable _).bind
  rintro between _ usable le ⟨new, rfl, -, lessNew⟩
  apply (yields_make usable _).bind
  rintro after _ usable - ⟨made, rfl, leMade, less⟩
  refine yields_pure usable ⟨sets new made, rfl, fun stamped => ?_⟩
  exact stamped_branch.mpr ⟨less, lessNew.trans_le leMade, stamped.mono (le.trans leMade)⟩

/-- The walk that assigns a value to a key finds where the key is in its bucket.  It tells that an
entry was added when the key is not there. -/
theorem yields_insertNode (value : Thunk) :
    keys.Yields store (trie.insert (keys.hash key) key value) fun after result =>
      trie.SetsBucket (keys.hash key) (Dictionary.assignAt key value (trie.bucket (keys.hash key))
        ((trie.bucket (keys.hash key)).findIdx? (keys.isFor key))) result.1 ∧
      result.2 = ((trie.bucket (keys.hash key)).findIdx? (keys.isFor key)).isNone ∧
      (trie.Stamped store.nextIdentity → result.1.Stamped after.nextIdentity) := by
  induction trie using walk_induction (keys.hash key) generalizing store with
  | tip stamp found bucket =>
    obtain ⟨_, _, nonempty⟩ := formed
    rw [Trie.insert]
    by_cases same : found = keys.hash key
    · subst same
      rw [bucket_tip, if_pos rfl] at entriesHashable ⊢
      rw [if_pos rfl]
      apply (yields_position? usable hashable entriesHashable).bind
      rintro between _ usable - rfl
      apply (yields_make usable _).bind
      rintro after _ usable - ⟨made, rfl, -, less⟩
      exact yields_pure usable ⟨setsBucket_tip _ _ _ _ (by simp [nonempty]), rfl, fun _ => less⟩
    · rw [bucket_tip, if_neg same, if_neg same]
      exact yields_joinTip usable fun new stamp => .of_join_tip _ _ nonempty (by simp) same
  | branch stamp stem mask near far shares ih =>
    obtain ⟨-, -, -, nearFormed, -⟩ := wellFormed_branch.mp formed
    rw [bucket_branch shares] at entriesHashable ⊢
    rw [insert_branch shares]
    apply (ih usable nearFormed entriesHashable).bind
    rintro between ⟨node, added⟩ usable le ⟨sets, added_eq, nodeStamped⟩
    apply (yields_make usable _).bind
    rintro after _ usable - ⟨made, rfl, leMade, less⟩
    refine yields_pure usable ⟨sets.of_near formed shares, added_eq, fun stamped => ?_⟩
    obtain ⟨older, nearStamped, farStamped⟩ := stamped_branch.mp stamped
    refine stamped_branch.mpr ⟨less, (nodeStamped (nearStamped.mono older.le)).mono leMade, ?_⟩
    exact farStamped.mono (older.le.trans (le.trans leMade))
  | apart stamp stem mask low high differs =>
    rw [Trie.insert, bucket, if_neg differs, if_neg differs]
    exact yields_joinTip usable fun new stamp => .of_join_bin formed (by simp) differs

omit formed hashable entriesHashable in
/-- A branch is another one just when its side is. -/
theorem yields_replaceSide {near far : Trie Value Thunk} {hash stem mask : UInt64}
    (formed : (branch former stem mask (hasBit hash mask) near far).WellFormed)
    (shares : above hash mask = stem) (removes : near.Removes hash located rest)
    (restStamped : ∀ later ∈ rest, later.Stamped store.nextIdentity)
    (stamped : (branch former stem mask (hasBit hash mask) near far).Stamped store.nextIdentity) :
    keys.Yields store (replaceSide (branch former stem mask (hasBit hash mask) near far) near far
        (fun node stamp => branch stamp stem mask (hasBit hash mask) node far) rest)
      fun after later =>
        (branch former stem mask (hasBit hash mask) near far).Removes hash located (some later) ∧
          later.Stamped after.nextIdentity := by
  obtain ⟨older, -, farStamped⟩ := stamped_branch.mp stamped
  cases located with
  | none =>
    obtain rfl : rest = some near := removes
    rw [replaceSide, isSame_self, if_pos rfl]
    exact yields_pure usable ⟨rfl, stamped⟩
  | some position =>
    obtain ⟨leaves, others⟩ := removes
    have sets := leaves.of_near formed shares
    rw [← bucket_branch shares] at sets
    cases rest with
    | none =>
      have ne : far.stamp ≠ former := farStamped.stamp_lt.ne
      exact yields_pure usable ⟨⟨sets 0, by simpa [isSame] using ne⟩, farStamped.mono older.le⟩
    | some node =>
      rw [replaceSide, others node rfl, if_neg Bool.false_ne_true]
      apply (yields_make usable _).mono
      rintro after _ - ⟨made, rfl, leMade, less⟩
      have newer := older.trans_le leMade
      refine ⟨⟨sets made, by simpa [isSame] using newer.ne'⟩, stamped_branch.mpr ⟨less, ?_, ?_⟩⟩
      · exact (restStamped node rfl).mono leMade
      · exact farStamped.mono newer.le

/-- The walk that removes a key finds where the key is in its bucket.  It gives back the very node
when the key is not there, and otherwise another one. -/
theorem yields_removeNode (stamped : trie.Stamped store.nextIdentity) :
    keys.Yields store (trie.remove (keys.hash key) key) fun after rest =>
      trie.Removes (keys.hash key) ((trie.bucket (keys.hash key)).findIdx? (keys.isFor key)) rest ∧
        ∀ later ∈ rest, later.Stamped after.nextIdentity := by
  induction trie using walk_induction (keys.hash key) generalizing store with
  | tip stamp found bucket =>
    have unchanged : ∀ {store}, keys.Usable store → (tip stamp found bucket).Stamped
        store.nextIdentity → keys.Yields store (pure (some (tip stamp found bucket)))
          fun after rest => rest = some (tip stamp found bucket) ∧
            ∀ later ∈ rest, later.Stamped after.nextIdentity :=
      fun usable stamped => yields_pure usable ⟨rfl, by simpa using stamped⟩
    rw [Trie.remove]
    by_cases same : found = keys.hash key
    · subst same
      simp only [bucket_tip, if_true] at entriesHashable ⊢
      apply (yields_position? usable hashable entriesHashable).bind
      rintro between _ usable le rfl
      cases located : bucket.findIdx? (keys.isFor key) with
      | none => exact unchanged usable (stamped.mono le)
      | some position =>
        obtain ⟨inRange, -⟩ := List.findIdx?_eq_some_iff_getElem.mp located
        have nil_iff : bucket.eraseIdx position = [] ↔ bucket.length = 1 := by
          rw [← List.length_eq_zero_iff, List.length_eraseIdx_of_lt inRange]
          omega
        simp only [Removes, bucket_tip, if_true]
        split
        · rename_i single
          exact yields_pure usable ⟨⟨⟨nil_iff.mpr single, stamp, bucket, rfl⟩, by simp⟩, by simp⟩
        · rename_i several
          apply (yields_make usable _).bind
          rintro after _ usable - ⟨made, rfl, leMade, less⟩
          have older : stamp < store.nextIdentity := stamped
          have ne : made ≠ stamp := by omega
          refine yields_pure usable ⟨⟨setsBucket_tip _ _ _ _ (mt nil_iff.mp several), ?_⟩, ?_⟩
          · simpa [isSame, Trie.stamp] using ne
          · simpa [Stamped] using less
    · rw [bucket_tip, if_neg same, if_neg same]
      exact unchanged usable stamped
  | branch stamp stem mask near far shares ih =>
    obtain ⟨-, -, -, nearFormed, -⟩ := wellFormed_branch.mp formed
    obtain ⟨older, nearStamped, -⟩ := stamped_branch.mp stamped
    rw [bucket_branch shares] at entriesHashable ⊢
    rw [remove_branch shares]
    apply (ih usable nearFormed entriesHashable (nearStamped.mono older.le)).bind
    rintro between rest usable le ⟨removes, restStamped⟩
    apply (yields_replaceSide usable formed shares removes restStamped (stamped.mono le)).bind
    rintro after later usable - ⟨removes, laterStamped⟩
    exact yields_pure usable ⟨removes, by simpa using laterStamped⟩
  | apart stamp stem mask low high differs =>
    rw [Trie.remove, bucket, if_neg differs, if_neg differs]
    exact yields_pure usable ⟨rfl, by simpa using stamped⟩

end Trie

/-! ## Operations -/

variable {dict : Dict} (valid : dict.Valid keys.toKeySpace)
  (hashableEntries : ∀ hash, ∀ entry ∈ dict.bucket hash, keys.Hashable entry.1)
  (hashable : keys.Hashable key)

include hashableEntries hashable

theorem yields_findKey? : keys.Yields store (dict.get? key) fun _ found =>
    found = dict.findKey? keys.toKeySpace key := by
  unfold Dictionary.get? Dictionary.findKey?
  unfold Dictionary.bucket at hashableEntries ⊢
  cases root : dict.root with
  | none => exact yields_pure usable rfl
  | some trie =>
    rw [root] at hashableEntries
    apply (yields_hashValue usable hashable).bind
    rintro _ _ usable - rfl
    apply (yields_position? usable hashable (hashableEntries (keys.hash key))).bind
    rintro _ _ usable - rfl
    exact yields_pure usable rfl

include valid

theorem yields_assigns (value : Thunk) :
    keys.Yields store (dict.insert key value) fun after later =>
      dict.Assigns keys.toKeySpace key value later ∧
        (dict.Stamped store.nextIdentity → later.Stamped after.nextIdentity) := by
  unfold Dictionary.insert
  apply (yields_hashValue usable hashable).bind
  rintro _ _ usable le rfl
  cases root : dict.root with
  | none =>
    apply (yields_make usable _).bind
    rintro after _ usable - ⟨stamp, rfl, -, less⟩
    have noBucket : dict.bucket (keys.hash key) = [] := by simp [Dictionary.bucket, root]
    have noEntries : dict.size = 0 := by simp [valid.size_eq, Dictionary.toList, root]
    refine yields_pure usable ⟨⟨?_, ?_⟩, fun _ trie isTip => ?_⟩
    · rw [noBucket]
      exact .of_root_eq_none root 1 stamp (by simp)
    · simp [noBucket, noEntries]
    · cases isTip
      exact less
  | some trie =>
    have sameBucket : trie.bucket (keys.hash key) = dict.bucket (keys.hash key) := by
      simp [Dictionary.bucket, root]
    apply (yields_insertNode usable (valid.wellFormed trie root) hashable
      (sameBucket ▸ hashableEntries (keys.hash key)) value).bind
    rintro after ⟨node, added⟩ usable - ⟨sets, rfl, nodeStamped⟩
    rw [sameBucket] at sets
    refine yields_pure usable ⟨⟨.of_leaves root _ sets, by rw [sameBucket]⟩,
      fun stamped later isNode => ?_⟩
    cases isNode
    exact nodeStamped ((stamped trie root).mono le)

/-- The size is one less just when another root says that the key was there. -/
theorem yields_discards (stamped : dict.Stamped store.nextIdentity) :
    keys.Yields store (dict.remove key) fun after later =>
      dict.Discards keys.toKeySpace key later ∧ later.Stamped after.nextIdentity := by
  unfold Dictionary.remove Dictionary.Discards
  cases root : dict.root with
  | none =>
    have noBucket : dict.bucket (keys.hash key) = [] := by simp [Dictionary.bucket, root]
    rw [noBucket]
    exact yields_pure usable ⟨rfl, stamped⟩
  | some trie =>
    have sameBucket : trie.bucket (keys.hash key) = dict.bucket (keys.hash key) := by
      simp [Dictionary.bucket, root]
    apply (yields_hashValue usable hashable).bind
    rintro _ _ usable le rfl
    apply (yields_removeNode usable (valid.wellFormed trie root) hashable
      (sameBucket ▸ hashableEntries (keys.hash key)) ((stamped trie root).mono le)).bind
    rintro after rest usable - ⟨removes, restStamped⟩
    rw [sameBucket] at removes
    refine yields_pure usable ⟨?_, restStamped⟩
    cases located : (dict.bucket (keys.hash key)).findIdx? (keys.isFor key) with
    | none =>
      rw [located] at removes
      obtain rfl : rest = some trie := removes
      rw [Option.any_some, Trie.isSame_self, ← root]
      rfl
    | some position =>
      rw [located] at removes
      obtain ⟨leaves, others⟩ := removes
      rw [sameBucket] at leaves
      have differs : rest.any (·.isSame trie) = false := by
        cases rest with
        | none => rfl
        | some later => exact others later rfl
      obtain ⟨inRange, -⟩ := List.findIdx?_eq_some_iff_getElem.mp located
      have inDict := (valid.mem_toList _).mpr ⟨_, List.getElem_mem inRange⟩
      have positive := List.length_pos_of_mem inDict
      have size_eq := valid.size_eq
      refine ⟨.of_leaves root _ leaves, ?_, ?_⟩
      · simp only [differs, Bool.not_false, Bool.toNat_true]
        omega
      · cases rest with
        | none => simp [Dictionary.isSame, root]
        | some later => simpa [Dictionary.isSame, root] using differs

end Usable

/-! ## Histories -/

/-- A dictionary holds what a history leaves, and all keys of the history are hashable. -/
structure Holds (keys : Keys number) (dict : Dict)
    (history : History Value Thunk) : Prop where
  represents : dict.Represents keys.toKeySpace history
  hashable : history.All keys.Hashable

namespace Holds

variable {history : History Value Thunk}
variable {key : Value}

section

variable (holds : keys.Holds dict history)

include holds

theorem hashable_toList (mem : entry ∈ dict.toList) : keys.Hashable entry.1 :=
  holds.hashable.of_lookup ((holds.represents.mem_toList_iff entry).mp mem)

theorem hashable_bucket (hash : UInt64)
    (entry : Value × Thunk) (mem : entry ∈ dict.bucket hash) : keys.Hashable entry.1 :=
  holds.hashable_toList ((holds.represents.valid.mem_toList entry).mpr ⟨hash, mem⟩)

section Usable

variable (usable : keys.Usable store)

include usable

theorem yields_get? (hashable : keys.Hashable key) :
    keys.Yields store (dict.get? key) fun _ found =>
      found = (history.lookup keys.toKeySpace key).map Prod.snd := by
  rw [← holds.represents.findKey?_eq key]
  exact yields_findKey? usable holds.hashable_bucket hashable

theorem yields_insert (hashable : keys.Hashable key) (value : Thunk) :
    keys.Yields store (dict.insert key value) fun after later =>
      keys.Holds later (history.write key value) ∧
        (dict.Stamped store.nextIdentity → later.Stamped after.nextIdentity) := by
  apply (yields_assigns usable holds.represents.valid holds.hashable_bucket hashable value).mono
  rintro after later - ⟨assigns, stamped⟩
  exact ⟨⟨holds.represents.assigns assigns, hashable, holds.hashable⟩, stamped⟩

theorem yields_remove (stamped : dict.Stamped store.nextIdentity) (hashable : keys.Hashable key) :
    keys.Yields store (dict.remove key) fun after later =>
      keys.Holds later (history.erase key) ∧ later.Stamped after.nextIdentity := by
  apply (yields_discards usable holds.represents.valid holds.hashable_bucket hashable stamped).mono
  rintro after later - ⟨discards, laterStamped⟩
  exact ⟨⟨holds.represents.discards discards, hashable, holds.hashable⟩, laterStamped⟩

theorem yields_insertAll (entriesHashable : ∀ entry ∈ entries, keys.Hashable entry.1) :
    keys.Yields store (Dictionary.insertAll dict entries) fun after later =>
      keys.Holds later (history.writeAll entries) ∧
        (dict.Stamped store.nextIdentity → later.Stamped after.nextIdentity) := by
  induction entries generalizing store dict history with
  | nil => exact yields_pure usable ⟨holds, id⟩
  | cons entry rest ih =>
    obtain ⟨entryHashable, restHashable⟩ := List.forall_mem_cons.mp entriesHashable
    rw [Dictionary.insertAll]
    apply (holds.yields_insert usable entryHashable entry.2).bind
    rintro between next usable - ⟨nextHolds, nextStamped⟩
    apply (ih nextHolds usable restHashable).mono
    rintro after later - ⟨laterHolds, laterStamped⟩
    exact ⟨laterHolds, fun stamped => laterStamped (nextStamped stamped)⟩

end Usable

end

theorem yields_ofEntries (usable : keys.Usable store)
    (entriesHashable : ∀ entry ∈ entries, keys.Hashable entry.1) :
    keys.Yields store (Dictionary.ofEntries entries) fun after later =>
      keys.Holds later (History.empty.writeAll entries) ∧ later.Stamped after.nextIdentity := by
  apply (yields_insertAll ⟨.empty keys.toKeySpace, trivial⟩ usable entriesHashable).mono
  rintro after later - ⟨holds, stamped⟩
  exact ⟨holds, stamped Dictionary.stamped_empty⟩

theorem yields_merge (usable : keys.Usable store) (holds : keys.Holds dict history)
    (otherHolds : keys.Holds other otherHistory) :
    keys.Yields store (dict.merge other) fun after later =>
      keys.Holds later (history.merge otherHistory) ∧
        (dict.Stamped store.nextIdentity → other.Stamped store.nextIdentity →
          later.Stamped after.nextIdentity) := by
  rw [Dictionary.merge]
  split
  · rename_i isEmpty
    have nothing := holds.represents.isEmpty_iff.mp isEmpty
    refine yields_pure usable ⟨⟨otherHolds.represents.of_lookup_eq ?_, holds.hashable,
      otherHolds.hashable⟩, fun _ otherStamped => otherStamped⟩
    intro key
    rw [History.lookup, nothing]
    cases otherHistory.lookup _ key <;> rfl
  · apply (holds.yields_insertAll usable fun entry mem => otherHolds.hashable_toList mem).mono
    rintro after later - ⟨laterHolds, laterStamped⟩
    refine ⟨⟨laterHolds.represents.of_lookup_eq ?_, holds.hashable, otherHolds.hashable⟩,
      fun stamped _ => laterStamped stamped⟩
    exact otherHolds.represents.lookup_writeAll_toList history

end Holds
end Keys
end ByNeed
