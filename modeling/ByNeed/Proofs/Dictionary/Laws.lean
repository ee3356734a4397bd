import ByNeed.Proofs.Dictionary.Workshop

/-!
# Laws of dictionaries

Every key of every dictionary keeps its hash for good.  So looking for a key fails only where
hashing it does, and dictionaries are equal exactly when they are so key by key.
-/

namespace ByNeed

open Store

variable {self : Nat}

/-! ## Only hashing fails -/

section Laws

variable {digest : List Piece → UInt64} {moves : List Move} {made : List Dict}
  {asked : List Consultation} {store : Store}

/-- Looking for a key fails only where hashing the key does.  The keys of all dictionaries
that were made are evaluated all the way down and keep their hashes for good, and values
that have been hashed compare.  So to assign to a key, and to look for it in a dictionary
that is not empty, fails exactly when hashing it fails, with the same error.  Merging and
sorting always return, and no two keys are ever found that do not compare. -/
theorem only_hashing_a_key_fails
    (workshop : Workshop self ((Service.initial digest).run moves).store made asked store) :
    (∀ dictionary ∈ made, ∀ entry ∈ dictionary.toList,
      store.Solid entry.1 ∧
      ∃ word, ∀ number later,
        store.Recalls later →
        (hashValue entry.1).Returns number later word later) ∧
    (∀ left right leftWord rightWord between after,
      left.Offered store made →
      right.Offered store made →
      (hashValue left).Returns self store leftWord between →
      (hashValue right).Returns self between rightWord after →
      ∃ outcome, ∀ number later,
        after.Recalls later →
        (compareValues left right).Returns number later outcome later) ∧
    (∀ dictionary ∈ made, ∀ key,
      key.Offered store made →
      (∀ value, (dictionary.insert key value).HingesOn self store (hashValue key)) ∧
      (dictionary.isEmpty = false →
        (dictionary.get? key).HingesOn self store (hashValue key) ∧
        (dictionary.contains key).HingesOn self store (hashValue key) ∧
        (dictionary.remove key).HingesOn self store (hashValue key))) ∧
    (∀ dictionary ∈ made, ∀ other ∈ made,
      ∃ next after, (dictionary.merge other).Returns self store next after) ∧
    ∀ dictionary ∈ made,
      (∀ left ∈ dictionary.toList, ∀ right ∈ dictionary.toList,
        ∃ outcome, (compareValues left.1 right.1).Returns self store outcome store) ∧
      ∃ sorted,
        dictionary.sortedEntries.Returns self store sorted store ∧
        sorted.Perm dictionary.toList := by
  obtain ⟨held, stage, rfl, exact, admits, -⟩ := workshop.exists_stage
  refine ⟨?_, ?_, ?_, ?_, ?_⟩
  · intro dictionary isMade entry mem
    obtain ⟨bound, word, known⟩ := Dictionary.hashable_key (admits dictionary isMade) mem
    refine ⟨(stage.store.solid_of_hash? bound).1 known, word, fun number later recalls => ?_⟩
    exact (returns_of_hash? number later bound).1
      ((Store.hash?_refines recalls (Nat.le_refl bound)).1 entry.1 word known)
  · intro left right leftWord rightWord between after leftOffered rightOffered leftHashes
      rightHashes
    obtain ⟨first, le, rfl, exactFirst, leftBound, leftKnown⟩ :=
      Dictionary.exists_hashed exact (leftOffered.admits admits) leftHashes
    obtain ⟨second, leSecond, rfl, -, rightBound, rightKnown⟩ :=
      Dictionary.exists_hashed exactFirst ((rightOffered.admits admits).mono le) rightHashes
    have leftHashable : second.store.Hashable left :=
      Store.Hashable.mono ⟨leftBound, leftWord, leftKnown⟩ (Stage.recalls leSecond)
    obtain ⟨bound, outcome, known⟩ :=
      leftHashable.compares ⟨rightBound, rightWord, rightKnown⟩
    refine ⟨outcome, fun number later recalls => (returns_of_order? number later bound).1 ?_⟩
    exact Store.order?_refines recalls (Nat.le_refl bound) left right outcome known
  · intro dictionary isMade key offered
    have dictionaryAdmits := admits dictionary isMade
    have keyAdmits := offered.admits admits
    exact ⟨Dictionary.insert_hingesOn dictionaryAdmits exact keyAdmits, fun nonempty =>
      ⟨Dictionary.get?_hingesOn dictionaryAdmits exact keyAdmits nonempty,
        Dictionary.contains_hingesOn dictionaryAdmits exact keyAdmits nonempty,
        Dictionary.remove_hingesOn dictionaryAdmits exact keyAdmits nonempty⟩⟩
  · intro dictionary isMade other otherMade
    exact Dictionary.exists_merge (admits dictionary isMade) exact (admits other otherMade)
  · intro dictionary isMade
    refine ⟨fun left leftMember right rightMember => ?_,
      Dictionary.exists_sortedEntries (admits dictionary isMade) self⟩
    obtain ⟨bound, outcome, known⟩ :=
      (Dictionary.hashable_key (admits dictionary isMade) leftMember).compares
        (Dictionary.hashable_key (admits dictionary isMade) rightMember)
    exact ⟨outcome, (returns_of_order? self stage.store bound).1 known⟩

theorem only_hashing_a_key_fails_of_lists :
    Workshop 7 listStore [listed 1, listed 0, .empty] [] (listedStore 2) ∧
      (listAt 0, (⟨0⟩ : Thunk)) ∈ (listed 0).toList ∧ (listedStore 2).Solid (listAt 0) ∧
      ∃ next after, ((listed 0).merge (listed 1)).Returns 7 (listedStore 2) next after := by
  have mem : (listAt 0, (⟨0⟩ : Thunk)) ∈ (listed 0).toList := by
    simp [listed, Dictionary.single, Dictionary.toList]
  obtain ⟨keys, -, -, merges, -⟩ := only_hashing_a_key_fails workshop_listed
  exact ⟨workshop_listed, mem, (keys (listed 0) (by simp) _ mem).1,
    merges (listed 0) (by simp) (listed 1) (by simp)⟩

/-! ## Equality key by key -/

/-- Two dictionaries are of one size, and every key of one is found in the other, with the
same thunk as its value or with a thunk of equal value. -/
def Dictionary.AgreesKeywise (self : Nat) (store : Store) (left right : Dict) : Prop :=
  left.size = right.size ∧ ∀ key value, (key, value) ∈ left.toList →
    ∃ other, (right.get? key).Returns self store (some other) store ∧
      (value = other ∨ (equalThunks value other).Returns self store true store)

section Stage

variable {frame : Frame} {stage : Stage frame}
variable {α : Type} {reading : Store → Nat → Option α} {attempt : Attempt α}

theorem Agrees.eq_ok_iff (agrees : Agrees reading stage outcome) (stable : StableReading reading)
    (returns_iff : ∀ result, attempt.Returns frame.self stage.store result stage.store ↔
      ∃ bound, reading stage.store bound = some result) (result : α) :
    outcome = .ok result ↔ attempt.Returns frame.self stage.store result stage.store := by
  rw [returns_iff]
  constructor
  · rintro rfl
    exact agrees.known
  · rintro ⟨bound, known⟩
    exact agrees.eq_of_known stable le_rfl known

theorem Attempt.Reads.returns_iff (reads : attempt.Reads reading stage) (exact : stage.Exact)
    (returns : ∀ {bound result}, reading stage.store bound = some result →
      attempt.Returns frame.self stage.store result stage.store)
    (result : α) :
    attempt.Returns frame.self stage.store result stage.store ↔
      ∃ bound, reading stage.store bound = some result := by
  refine ⟨fun returned => ?_, fun ⟨bound, known⟩ => returns known⟩
  obtain ⟨later, -, same, -, agrees⟩ := reads.of_ends exact returned
  rw [← same]
  exact agrees.known

theorem equalValues_returns_iff (exact : stage.Exact) (leftAdmits : stage.Admits left)
    (rightAdmits : stage.Admits right) (result : Bool) :
    (equalValues left right).Returns frame.self stage.store result stage.store ↔
      ∃ bound, stage.store.equal? bound left right = some result := by
  exact (equalValues_reads leftAdmits rightAdmits).returns_iff exact
    (fun known => returns_of_equal? frame.self known) result

theorem equalThunks_returns_iff (exact : stage.Exact) (leftSees : stage.store.Sees left)
    (rightSees : stage.store.Sees right) (result : Bool) :
    (equalThunks left right).Returns frame.self stage.store result stage.store ↔
      ∃ bound, stage.store.equalThunks? bound left right = some result := by
  refine (equalThunks_reads leftSees rightSees).returns_iff exact ?_ result
  intro bound result known
  obtain ⟨leftValue, leftForced, known⟩ := Option.bind_eq_some_iff.mp known
  obtain ⟨rightValue, rightForced, known⟩ := Option.bind_eq_some_iff.mp known
  exact (Attempt.returns_force_of_forced? leftForced).bind
    ((Attempt.returns_force_of_forced? rightForced).bind
      (returns_of_equal? frame.self known))

theorem Store.exists_equalThunks?_iff :
    (∃ bound, store.equalThunks? bound left right = some true) ↔
      store.MatchesThunks left right := by
  simp only [Store.equalThunks?, Option.bind_eq_some_iff, Store.MatchesThunks,
    ← exists_equal?_true_iff]
  grind

namespace Dictionary

variable {left right dictionary : Dict} {key : Value} {value : Thunk}

/-- A key that is found has a hash. -/
theorem LooksUp.hashable (looksUp : LooksUp stage.store dictionary key (some value))
    (admits : stage.AdmitsDictionary dictionary) (keyAdmits : stage.Admits key) :
    stage.store.Hashable key := by
  obtain ⟨entry, mem, ⟨bound, equal⟩, -⟩ := looksUp
  obtain ⟨depth, word, known⟩ := hashable_key admits mem
  exact ⟨depth, word, (hash?_of_order? stage bound depth).1 (admits.entries stage.sound mem).1
    keyAdmits equal known⟩

/-- A key is found, and nothing is evaluated, exactly when it can be read where it is. -/
theorem get?_returns_iff (exact : stage.Exact) (admits : stage.AdmitsDictionary dictionary)
    (keyAdmits : stage.Admits key) :
    (dictionary.get? key).Returns frame.self stage.store (some value) stage.store ↔
      LooksUp stage.store dictionary key (some value) := by
  constructor
  · intro returns
    obtain ⟨later, -, same, -, said⟩ := saidOf_of_ends admits exact keyAdmits returns
    rwa [← same]
  · intro looksUp
    obtain ⟨found, returns, actual⟩ :=
      exists_get? admits frame.self keyAdmits (looksUp.hashable admits keyAdmits)
    rwa [looksUp.unique admits keyAdmits actual]

/-- What was said of a key is what is found at once. -/
theorem SaidOf.eq_ok_iff (said : SaidOf stage dictionary key outcome)
    (admits : stage.AdmitsDictionary dictionary) (keyAdmits : stage.Admits key) :
    outcome = .ok (some value) ↔ LooksUp stage.store dictionary key (some value) := by
  constructor
  · rintro rfl
    exact said
  · intro looksUp
    cases outcome with
    | ok found =>
      have looksUpToo : LooksUp stage.store dictionary key found := said
      rw [looksUpToo.unique admits keyAdmits looksUp]
    | error failure => exact absurd (looksUp.hashable admits keyAdmits) (said stage le_rfl)

/-- Equality of dictionaries that can be read is equality key by key. -/
theorem matches_iff_agreesKeywise (exact : stage.Exact) (leftAdmits : stage.AdmitsDictionary left)
    (rightAdmits : stage.AdmitsDictionary right) :
    stage.store.Matches (.dictionary left) (.dictionary right) ↔
      AgreesKeywise frame.self stage.store left right := by
  constructor
  · intro isEqual
    obtain ⟨sameSize, counterparts⟩ := exists_counterpart leftAdmits rightAdmits isEqual
    refine ⟨sameSize, fun key value mem => ?_⟩
    obtain ⟨other, otherMember, sameKey, sameValue⟩ := counterparts (key, value) mem
    obtain ⟨keyAdmits, valueSees⟩ := leftAdmits.entries stage.sound mem
    obtain ⟨otherAdmits, otherSees⟩ := rightAdmits.entries stage.sound otherMember
    have looksUp : LooksUp stage.store right key (some other.2) :=
      ⟨other, otherMember, matches_symm keyAdmits otherAdmits sameKey, rfl⟩
    refine ⟨other.2, (get?_returns_iff exact rightAdmits keyAdmits).mpr looksUp, ?_⟩
    rwa [equalThunks_returns_iff exact valueSees otherSees, exists_equalThunks?_iff]
  · rintro ⟨sameSize, found⟩
    refine matches_of_counterparts leftAdmits rightAdmits sameSize fun entry mem => ?_
    obtain ⟨value, returns, sameValue⟩ := found entry.1 entry.2 mem
    obtain ⟨keyAdmits, valueSees⟩ := leftAdmits.entries stage.sound mem
    obtain ⟨other, otherMember, sameKey, rfl⟩ :=
      (get?_returns_iff exact rightAdmits keyAdmits).mp returns
    obtain ⟨otherAdmits, otherSees⟩ := rightAdmits.entries stage.sound otherMember
    rw [equalThunks_returns_iff exact valueSees otherSees, exists_equalThunks?_iff]
      at sameValue
    exact ⟨other, otherMember, matches_symm otherAdmits keyAdmits sameKey, sameValue⟩

end Dictionary
end Stage

/-- Equality of dictionaries is equality key by key.  Two dictionaries that were made are
equal exactly when they are of one size and every key of the first is found in the second,
with the same thunk as its value or with a thunk of equal value.  It does not matter when
this was asked: what was said before is what is said in the end. -/
theorem dictionaries_are_equal_keywise {left right : Dict}
    (workshop : Workshop self ((Service.initial digest).run moves).store made asked store)
    (leftMade : left ∈ made)
    (rightMade : right ∈ made) :
    ((equalValues (.dictionary left) (.dictionary right)).Returns self store true store ↔
      Dictionary.AgreesKeywise self store left right) ∧
    (∀ outcome,
      .equated (.dictionary left) (.dictionary right) outcome ∈ asked →
      (outcome = .ok true ↔
        (equalValues (.dictionary left) (.dictionary right)).Returns self store true store)) ∧
    (∀ key outcome other,
      .found right key outcome ∈ asked →
      (outcome = .ok (some other) ↔ (right.get? key).Returns self store (some other) store)) ∧
    ∀ value other outcome,
      .matched value other outcome ∈ asked →
      (outcome = .ok true ↔ (equalThunks value other).Returns self store true store) := by
  obtain ⟨held, stage, rfl, exact, admits, holds⟩ := workshop.exists_stage
  have leftAdmits : stage.Admits (.dictionary left) := admits left leftMade
  have rightAdmits : stage.Admits (.dictionary right) := admits right rightMade
  have returns_iff := equalValues_returns_iff exact leftAdmits rightAdmits
  refine ⟨?_, ?_, ?_, ?_⟩
  · rw [returns_iff, Store.exists_equal?_true_iff]
    exact Dictionary.matches_iff_agreesKeywise exact leftAdmits rightAdmits
  · intro outcome mem
    obtain ⟨-, -, agrees⟩ := holds _ mem
    exact agrees.eq_ok_iff (.equal _ _) returns_iff true
  · intro key outcome other mem
    obtain ⟨keyAdmits, said⟩ := holds _ mem
    rw [Dictionary.get?_returns_iff exact rightAdmits keyAdmits]
    exact said.eq_ok_iff rightAdmits keyAdmits
  · intro value other outcome mem
    obtain ⟨valueSees, otherSees, agrees⟩ := holds _ mem
    exact agrees.eq_ok_iff (.equalThunks value other)
      (equalThunks_returns_iff exact valueSees otherSees) true

theorem dictionaries_are_equal_keywise_of_lists :
    (equalValues (.dictionary (listed 0)) (.dictionary (listed 1))).Returns 7 (listedStore 2) true
      (listedStore 2) ∧
    Dictionary.AgreesKeywise 7 (listedStore 2) (listed 0) (listed 1) := by
  have equal := (returns_of_order? 7 (listedStore 2) 6).1
    (by decide +kernel : (listedStore 2).order? 6 (.dictionary (listed 0)) (.dictionary (listed 1))
      = some .eq)
  have returns : (equalValues (.dictionary (listed 0)) (.dictionary (listed 1))).Returns 7
      (listedStore 2) true (listedStore 2) := equal.map fun outcome : Ordering => outcome == .eq
  exact ⟨returns, (dictionaries_are_equal_keywise workshop_listed (by simp) (by simp)).1.mp returns⟩

end Laws
end ByNeed
