import ByNeed.Proofs.Order.Hashable
import ByNeed.Proofs.Order.Outcomes
import ByNeed.Proofs.Order.Known
import ByNeed.Proofs.Order.Laws
import ByNeed.Proofs.Order.Hashing

/-!
# Finding keys that have a hash

A key that has a hash compares with all keys of a dictionary, so to look it up, assign to it or
remove it evaluates nothing and returns.
-/

namespace ByNeed

open Attempt Store List

variable {self : Nat}
variable {word : UInt64}
variable {α : Type}

namespace Store

variable {store : Store} {left right : Value}
variable {bound : Nat}
variable {later : Store} {value : Value} {otherBound : Nat}

/-- Two values are known to be equal. -/
def Matches (store : Store) (left right : Value) : Prop :=
  ∃ bound, store.order? bound left right = some .eq

/-- A value is known to have some hash. -/
def Hashable (store : Store) (value : Value) : Prop :=
  ∃ bound word, store.hash? bound value = some word

theorem recalls_refl (store : Store) : store.Recalls store :=
  ⟨fun _ _ evaluated => evaluated, rfl⟩

theorem Matches.mono (isEqual : store.Matches left right) (recalls : store.Recalls later) :
    later.Matches left right :=
  isEqual.imp fun bound known => order?_refines recalls (Nat.le_refl bound) left right _ known

theorem Hashable.mono (hashable : store.Hashable value) (recalls : store.Recalls later) :
    later.Hashable value := by
  obtain ⟨bound, word, known⟩ := hashable
  exact ⟨bound, word, (hash?_refines recalls (Nat.le_refl bound)).1 value word known⟩

/-- Two values compare in one way, however far down they are read. -/
theorem order?_unique (known : store.order? bound left right = some outcome)
    (otherKnown : store.order? otherBound left right = some other) : outcome = other :=
  Refines.unique (order?_refines store.recalls_refl (Nat.le_max_left bound otherBound) left right)
    (order?_refines store.recalls_refl (Nat.le_max_right bound otherBound) left right) known
    otherKnown

/-- A value has one hash, however far down it is read. -/
theorem hash?_unique (known : store.hash? bound value = some word)
    (otherKnown : store.hash? otherBound value = some other) : word = other :=
  Refines.unique ((hash?_refines store.recalls_refl (Nat.le_max_left bound otherBound)).1 value)
    ((hash?_refines store.recalls_refl (Nat.le_max_right bound otherBound)).1 value) known
    otherKnown

theorem Matches.not_differ (isEqual : store.Matches left right) : ¬store.Differ left right := by
  rintro ⟨bound, outcome, known, unequal⟩
  obtain ⟨equalBound, equalKnown⟩ := isEqual
  exact unequal (order?_unique known equalKnown)

/-- Values that have a hash compare, at one depth. -/
theorem Hashable.compares (leftHashable : store.Hashable left)
    (rightHashable : store.Hashable right) :
    ∃ bound outcome, store.order? bound left right = some outcome := by
  obtain ⟨leftBound, leftWord, leftKnown⟩ := leftHashable
  obtain ⟨rightBound, rightWord, rightKnown⟩ := rightHashable
  have deepen := fun {bound} (le : bound ≤ max leftBound rightBound) =>
    (hash?_refines store.recalls_refl le).1
  exact ⟨_, (store.order?_of_hash? (max leftBound rightBound)).1 left right leftWord rightWord
    (deepen (Nat.le_max_left _ _) left leftWord leftKnown)
    (deepen (Nat.le_max_right _ _) right rightWord rightKnown)⟩

theorem Hashable.matches_or_differ (leftHashable : store.Hashable left)
    (rightHashable : store.Hashable right) :
    store.Matches left right ∨ store.Differ left right := by
  obtain ⟨bound, outcome, known⟩ := leftHashable.compares rightHashable
  by_cases equal : outcome = .eq
  · exact .inl ⟨bound, equal ▸ known⟩
  · exact .inr ⟨bound, outcome, known, equal⟩

/-- Finitely many readings can be made at one depth. -/
theorem exists_common_bound {entries : List α} {reading : Nat → α → Prop}
    (deepen : ∀ {bound greater entry}, bound ≤ greater → reading bound entry →
      reading greater entry)
    (known : ∀ entry ∈ entries, ∃ bound, reading bound entry) :
    ∃ bound, ∀ entry ∈ entries, reading bound entry := by
  induction entries with
  | nil => exact ⟨0, fun _ mem => absurd mem not_mem_nil⟩
  | cons entry rest ih =>
    obtain ⟨⟨bound, here⟩, restKnown⟩ := forall_mem_cons.mp known
    obtain ⟨restBound, there⟩ := ih restKnown
    exact ⟨max bound restBound, forall_mem_cons.mpr ⟨deepen (Nat.le_max_left _ _) here,
        fun other mem => deepen (Nat.le_max_right _ _) (there other mem)⟩⟩

theorem returns_of_equal? (self : Nat) (known : store.equal? bound left right = some equal) :
    (equalValues left right).Returns self store equal store := by
  obtain ⟨outcome, orderKnown, same⟩ := Option.bind_eq_some_iff.mp known
  obtain rfl := Option.some.inj same
  exact ((returns_of_order? self store bound).1 orderKnown).map fun outcome : Ordering =>
    outcome == .eq

theorem exists_equal?_true_iff :
    (∃ bound, store.equal? bound left right = some true) ↔ store.Matches left right := by
  simp [equal?, Matches, Option.bind_eq_some_iff]

theorem exists_equal?_false_iff :
    (∃ bound, store.equal? bound left right = some false) ↔ store.Differ left right := by
  simp [equal?, Differ, Option.bind_eq_some_iff]

theorem Matches.returns (isEqual : store.Matches left right) :
    (equalValues left right).Returns self store true store := by
  obtain ⟨bound, known⟩ := exists_equal?_true_iff.mpr isEqual
  exact returns_of_equal? self known

theorem Differ.returns (differ : store.Differ left right) :
    (equalValues left right).Returns self store false store := by
  obtain ⟨bound, known⟩ := exists_equal?_false_iff.mpr differ
  exact returns_of_equal? self known

end Store

/-! ## What is found -/

namespace Dictionary

variable {entries : List (Value × Thunk)}

/-- Where a key stands among entries, if it does. -/
def Locates (store : Store) (key : Value) (entries : List (Value × Thunk)) :
    Option Nat → Prop
  | some position => ∃ entry, entries[position]? = some entry ∧ store.Matches entry.1 key
  | none => ∀ entry ∈ entries, store.Differ entry.1 key

/-- A key that can be compared with all others is located, and nothing is evaluated. -/
theorem exists_position? (self : Nat)
    (known : ∀ entry ∈ entries, store.Matches entry.1 key ∨ store.Differ entry.1 key) :
    ∃ found, (position? key entries).Returns self store found store ∧
      Locates store key entries found := by
  induction entries with
  | nil =>
    exact ⟨none, returns_pure _ store, fun _ mem => absurd mem not_mem_nil⟩
  | cons entry rest ih =>
    obtain ⟨here, restKnown⟩ := forall_mem_cons.mp known
    obtain ⟨found, returns, locates⟩ := ih restKnown
    rcases here with isEqual | differ
    · exact ⟨some 0, isEqual.returns.bind (returns_pure _ store), entry, rfl, isEqual⟩
    · refine ⟨found.map (· + 1), differ.returns.bind (returns.map (Option.map (· + 1))), ?_⟩
      cases found with
      | none => exact forall_mem_cons.mpr ⟨differ, locates⟩
      | some position => exact locates

end Dictionary

/-! ## Walks that return -/

namespace Trie

variable {trie : Trie Value Thunk}
variable {store : Store} {key : Value} {hash : UInt64}
variable (self : Nat)

/-- A walk that assigns returns if the key can be compared with all others of its hash. -/
theorem exists_insert (value : Thunk)
    (known : ∀ entry ∈ trie.bucket hash,
      store.Matches entry.1 key ∨ store.Differ entry.1 key) :
    ∃ result after, (trie.insert hash key value).Returns self store result after := by
  induction trie using walk_induction hash with
  | tip former found bucket =>
    rw [insert]
    split
    · rename_i same
      rw [bucket_tip, if_pos same] at known
      obtain ⟨position, locates, -⟩ := Dictionary.exists_position? self known
      exact ⟨_, _, locates.bind ((returns_make _ _).bind (returns_pure _ _))⟩
    · exact ⟨_, _, (returns_make _ _).bind ((returns_make _ _).bind (returns_pure _ _))⟩
  | branch former stem mask near far shares ih =>
    rw [bucket_branch shares] at known
    obtain ⟨result, after, walks⟩ := ih known
    rw [insert_branch shares]
    exact ⟨_, _, walks.bind ((returns_make _ _).bind (returns_pure _ _))⟩
  | apart former stem mask low high differs =>
    rw [insert, if_neg differs]
    exact ⟨_, _, (returns_make _ _).bind ((returns_make _ _).bind (returns_pure _ _))⟩

theorem exists_replaceSide (branch side other : Trie Value Thunk)
    (around : Trie Value Thunk → Nat → Trie Value Thunk) (rest : Option (Trie Value Thunk)) :
    ∃ result after,
      (replaceSide branch side other around rest).Returns self store result after := by
  cases rest with
  | none => exact ⟨_, _, returns_pure _ _⟩
  | some node =>
    rw [replaceSide]
    split
    · exact ⟨_, _, returns_pure _ _⟩
    · exact ⟨_, _, returns_make _ _⟩

/-- A walk that removes returns if the key can be compared with all others of its hash. -/
theorem exists_remove
    (known : ∀ entry ∈ trie.bucket hash,
      store.Matches entry.1 key ∨ store.Differ entry.1 key) :
    ∃ result after, (trie.remove hash key).Returns self store result after := by
  induction trie using walk_induction hash with
  | tip former found bucket =>
    rw [remove]
    split
    · rename_i same
      rw [bucket_tip, if_pos same] at known
      obtain ⟨position, locates, -⟩ := Dictionary.exists_position? self known
      cases position with
      | none => exact ⟨_, _, locates.bind (returns_pure _ _)⟩
      | some position =>
        by_cases single : bucket.length = 1
        · exact ⟨_, _, locates.bind (by simp only [if_pos single]; exact returns_pure _ _)⟩
        · exact ⟨_, _, locates.bind (by
            simp only [if_neg single]
            exact (returns_make _ _).bind (returns_pure _ _))⟩
    · exact ⟨_, _, returns_pure _ _⟩
  | branch former stem mask near far shares ih =>
    rw [bucket_branch shares] at known
    obtain ⟨rest, between, walks⟩ := ih known
    obtain ⟨result, after, replaces⟩ := exists_replaceSide self _ near far _ rest
    rw [remove_branch shares]
    exact ⟨_, _, walks.bind (replaces.bind (returns_pure _ _))⟩
  | apart former stem mask low high differs =>
    rw [remove, if_neg differs]
    exact ⟨_, _, returns_pure _ _⟩

end Trie

namespace Dictionary

variable {entries : List (Value × Thunk)}

/-- What looking up a key finds. -/
def LooksUp (store : Store) (dict : Dict) (key : Value) : Option Thunk → Prop
  | some value => ∃ entry ∈ dict.toList, store.Matches entry.1 key ∧ entry.2 = value
  | none => ∀ entry ∈ dict.toList, store.Differ entry.1 key

section Stage

variable {frame : Frame} {stage : Stage frame} {dict : Dict}
  (admits : stage.AdmitsDictionary dict)
variable {key : Value}
variable {entry : Value × Thunk}

include admits

theorem exists_hash (mem : entry ∈ dict.toList) :
    ∃ bound word, stage.store.hash? bound entry.1 = some word ∧ entry ∈ dict.bucket word := by
  cases root : dict.root with
  | none => simp [toList, root] at mem
  | some trie =>
    have inTrie : entry ∈ trie.toList := by simpa [toList, root] using mem
    obtain ⟨word, inBucket⟩ :=
      (Trie.mem_toList (admits.wellFormed stage.sound trie root) entry).mp inTrie
    have inBucket : entry ∈ dict.bucket word := by simpa [bucket, root] using inBucket
    obtain ⟨bound, known⟩ := (admits.files stage.sound word).hashes entry inBucket
    exact ⟨bound, word, known, inBucket⟩

theorem hashable_key (mem : entry ∈ dict.toList) : stage.store.Hashable entry.1 := by
  obtain ⟨bound, word, known, -⟩ := exists_hash admits mem
  exact ⟨bound, word, known⟩

theorem matches_or_differ (hashable : stage.store.Hashable key) (hash : UInt64) :
    ∀ entry ∈ dict.bucket hash,
      stage.store.Matches entry.1 key ∨ stage.store.Differ entry.1 key := by
  intro entry mem
  obtain ⟨bound, known⟩ := (admits.files stage.sound hash).hashes entry mem
  exact Store.Hashable.matches_or_differ ⟨bound, hash, known⟩ hashable

theorem exists_located (self : Nat) (keyAdmits : stage.Admits key)
    (known : stage.store.hash? bound key = some word) :
    ∃ position, (position? key (dict.bucket word)).Returns self stage.store position
        stage.store ∧
      LooksUp stage.store dict key
        (position.bind fun position => (dict.bucket word)[position]?.map Prod.snd) := by
  obtain ⟨position, returns, locates⟩ :=
    exists_position? self (matches_or_differ admits ⟨bound, word, known⟩ word)
  refine ⟨position, returns, ?_⟩
  cases position with
  | some position =>
    obtain ⟨entry, atPosition, isEqual⟩ := locates
    have mem := admits.mem_toList_of_mem_bucket stage.sound (mem_of_getElem? atPosition)
    rw [Option.bind_some, atPosition]
    exact ⟨entry, mem, isEqual, rfl⟩
  | none =>
    intro entry mem
    obtain ⟨entryBound, entryWord, entryKnown, inBucket⟩ := exists_hash admits mem
    rcases Store.Hashable.matches_or_differ ⟨_, _, entryKnown⟩ ⟨_, _, known⟩ with
      ⟨equalBound, equal⟩ | differ
    · -- Equal keys have one hash, so this key would have been located.
      have carried := (hash?_of_order? stage equalBound entryBound).1
        (admits.entries stage.sound mem).1 keyAdmits equal entryKnown
      rw [hash?_unique carried known] at inBucket
      exact locates entry inBucket
    · exact differ

/-- A key that has a hash is looked up. -/
theorem exists_get? (self : Nat) (keyAdmits : stage.Admits key)
    (hashable : stage.store.Hashable key) :
    ∃ found, (dict.get? key).Returns self stage.store found stage.store ∧
      LooksUp stage.store dict key found := by
  obtain ⟨bound, word, known⟩ := hashable
  obtain ⟨position, returns, looksUp⟩ := exists_located admits self keyAdmits known
  have hashes := (returns_of_hash? self stage.store bound).1 known
  unfold get?
  cases root : dict.root with
  | none =>
    refine ⟨none, returns_pure _ _, fun entry mem => ?_⟩
    simp [toList, root] at mem
  | some trie =>
    rw [bucket, root] at returns looksUp
    exact ⟨_, hashes.bind (returns.map fun position : Option Nat =>
      position.bind fun position => (trie.bucket word)[position]?.map Prod.snd), looksUp⟩

theorem exists_bound_keys :
    ∃ bound, ∀ entry ∈ dict.toList, ∃ word, stage.store.hash? bound entry.1 = some word := by
  refine exists_common_bound ?_ fun entry mem => hashable_key admits mem
  rintro bound greater entry le ⟨word, known⟩
  exact ⟨word, (hash?_refines stage.store.recalls_refl le).1 entry.1 word known⟩

/-- The entries of a dictionary can be sorted by key, and nothing is evaluated. -/
theorem exists_sortedEntries (self : Nat) :
    ∃ sorted, dict.sortedEntries.Returns self stage.store sorted stage.store ∧
      sorted.Perm dict.toList := by
  obtain ⟨bound, known⟩ := exists_bound_keys admits
  have compares := (stage.store.order?_of_hash? bound).1
  obtain ⟨sorted, sorts⟩ : ∃ sorted,
      Store.sortEntries? (stage.store.order? bound) [] dict.toList = some sorted := by
    refine exists_sortEntries? fun left leftMember right rightMember => ?_
    obtain ⟨leftWord, leftKnown⟩ := known left leftMember
    obtain ⟨rightWord, rightKnown⟩ := known right rightMember
    exact compares _ _ _ _ leftKnown rightKnown
  exact ⟨sorted, sortEntries_returns (returns_of_order? self stage.store bound).1 sorts,
    sortEntries?_perm sorts⟩

/-! ## Only hashing fails -/

omit admits in
theorem exists_hashed (exact : stage.Exact) (keyAdmits : stage.Admits key)
    (returns : (hashValue key).Returns frame.self stage.store word between) :
    ∃ later : Stage frame, stage ≤ later ∧ later.store = between ∧ later.Exact ∧
      ∃ bound, later.store.hash? bound key = some word := by
  obtain ⟨later, le, same, exactLater, agrees⟩ :=
    (hashValue_reads keyAdmits).of_ends exact returns
  exact ⟨later, le, same, exactLater, agrees.known⟩

omit admits in
theorem hingesOn_hashed (exact : stage.Exact) (keyAdmits : stage.Admits key)
    {following : UInt64 → Attempt α}
    (returns : ∀ later : Stage frame, stage ≤ later → later.store.Hashable key → ∀ hash,
      ∃ result after, (following hash).Returns frame.self later.store result after) :
    Attempt.HingesOn frame.self stage.store (hashValue key >>= following) (hashValue key) := by
  refine hingesOn_bind fun hash between hashes => ?_
  obtain ⟨later, le, rfl, -, bound, hashKnown⟩ := exists_hashed exact keyAdmits hashes
  exact returns later le ⟨bound, hash, hashKnown⟩ hash

/-- A dictionary that has a trie has entries. -/
theorem isEmpty_eq_false_iff :
    dict.isEmpty = false ↔ ∃ trie, dict.root = some trie := by
  have size := admits.1
  cases root : dict.root with
  | none =>
    simp only [toList, root, length_nil] at size
    simp [isEmpty, size]
  | some trie =>
    have positive := Trie.length_toList_pos (admits.wellFormed stage.sound trie root)
    simp only [toList, root] at size
    simp only [isEmpty, beq_eq_false_iff_ne, Option.some.injEq, exists_eq', iff_true]
    omega

section HingesOn

variable (exact : stage.Exact) {key : Value} (keyAdmits : stage.Admits key)

include exact keyAdmits

theorem insert_hingesOn (value : Thunk) :
    (dict.insert key value).HingesOn frame.self stage.store (hashValue key) := by
  refine hingesOn_hashed exact keyAdmits fun later le hashable hash => ?_
  have known := matches_or_differ (admits.mono le) hashable hash
  cases root : dict.root with
  | none => exact ⟨_, _, (returns_make _ _).bind (returns_pure _ _)⟩
  | some trie =>
    rw [bucket, root] at known
    obtain ⟨result, after, walks⟩ := Trie.exists_insert frame.self value known
    exact ⟨_, _, walks.bind (returns_pure _ _)⟩

variable (nonempty : dict.isEmpty = false)

include nonempty

theorem get?_hingesOn : (dict.get? key).HingesOn frame.self stage.store (hashValue key) := by
  obtain ⟨trie, root⟩ := (isEmpty_eq_false_iff admits).mp nonempty
  unfold get?
  rw [root]
  refine hingesOn_hashed exact keyAdmits fun later le hashable hash => ?_
  have known := matches_or_differ (admits.mono le) hashable hash
  rw [bucket, root] at known
  obtain ⟨position, locates, -⟩ := exists_position? frame.self known
  exact ⟨_, _, locates.bind (returns_pure _ _)⟩

theorem contains_hingesOn :
    (dict.contains key).HingesOn frame.self stage.store (hashValue key) :=
  (hingesOn_bind fun _ _ _ => ⟨_, _, returns_pure _ _⟩).trans
    (get?_hingesOn admits exact keyAdmits nonempty)

theorem remove_hingesOn :
    (dict.remove key).HingesOn frame.self stage.store (hashValue key) := by
  obtain ⟨trie, root⟩ := (isEmpty_eq_false_iff admits).mp nonempty
  unfold remove
  rw [root]
  refine hingesOn_hashed exact keyAdmits fun later le hashable hash => ?_
  have known := matches_or_differ (admits.mono le) hashable hash
  rw [bucket, root] at known
  obtain ⟨rest, after, walks⟩ := Trie.exists_remove frame.self known
  exact ⟨_, _, walks.bind (returns_pure _ _)⟩

end HingesOn

/-! ## Merging -/

theorem exists_insert (exact : stage.Exact) (keyAdmits : stage.Admits key)
    (valueSees : stage.store.Sees value) (hashable : stage.store.Hashable key) :
    ∃ next, ∃ later : Stage frame, stage ≤ later ∧ later.Exact ∧ (dict.insert key
      value).Returns frame.self stage.store next later.store ∧ later.AdmitsDictionary next := by
  obtain ⟨bound, word, known⟩ := hashable
  obtain ⟨next, after, inserts⟩ := (insert_hingesOn admits exact keyAdmits value).returns
    ((returns_of_hash? frame.self stage.store bound).1 known)
  obtain ⟨later, le, rfl, exactLater, nextAdmits⟩ :=
    Code.Safe.of_ends (insert_safe admits keyAdmits valueSees)
      (fun _ _ _ le reached result isOk => (reached result isOk).mono le) exact inserts
  exact ⟨next, later, le, exactLater, inserts, nextAdmits _ rfl next rfl⟩

omit admits in
theorem exists_insertAll (exact : stage.Exact) (admits : stage.AdmitsDictionary dict)
    (holds : ∀ entry ∈ entries, stage.Admits entry.1 ∧ stage.store.Sees entry.2 ∧
      stage.store.Hashable entry.1) :
    ∃ next, ∃ later : Stage frame, stage ≤ later ∧ later.Exact ∧ (dict.insertAll
      entries).Returns frame.self stage.store next later.store ∧ later.AdmitsDictionary next := by
  induction entries generalizing dict stage with
  | nil => exact ⟨dict, stage, le_rfl, exact, returns_pure _ _, admits⟩
  | cons entry rest ih =>
    obtain ⟨⟨keyAdmits, valueSees, hashable⟩, restHolds⟩ := forall_mem_cons.mp holds
    obtain ⟨next, later, le, exactLater, inserts, nextAdmits⟩ :=
      exists_insert admits exact keyAdmits valueSees hashable
    obtain ⟨final, last, leLast, exactLast, insertsAll, finalAdmits⟩ :=
      ih exactLater nextAdmits fun other mem => by
        obtain ⟨otherAdmits, otherSees, otherHashable⟩ := restHolds other mem
        exact ⟨otherAdmits.mono le, otherSees.mono le, otherHashable.mono (Stage.recalls le)⟩
    exact ⟨final, last, le.trans leLast, exactLast, inserts.bind insertsAll, finalAdmits⟩

theorem exists_merge (exact : stage.Exact) (otherAdmits : stage.AdmitsDictionary other) :
    ∃ next after, (dict.merge other).Returns frame.self stage.store next after := by
  unfold merge
  split
  · exact ⟨other, stage.store, returns_pure _ _⟩
  · obtain ⟨next, later, -, -, returns, -⟩ := exists_insertAll exact admits fun entry mem =>
      have holds := otherAdmits.entries stage.sound mem
      ⟨holds.1, holds.2, hashable_key otherAdmits mem⟩
    exact ⟨next, later.store, returns⟩

end Stage
end Dictionary
end ByNeed
