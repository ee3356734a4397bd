import ByNeed.Proofs.Safety.Comparing

/-!
# Equal values have equal hashes

Where equality and a hash can both be read off a store, they agree.  Dictionaries are equal when the
entries of the one are those of the other in another order, over which the sum of digests is the
same.
-/

namespace ByNeed

open Option Store

section Parts

variable {frame : Frame} {stage : Stage frame} {order : Value → Value → Option Ordering}
  {hash : Value → Option UInt64} {hashes : LazyList → Option (List UInt64)}

/-- Equality of values that are admitted carries hashes over. -/
def Carries (stage : Stage frame) (order : Value → Value → Option Ordering)
    (hash : Value → Option UInt64) : Prop :=
  ∀ {left right : Value} {word : UInt64}, stage.Admits left → stage.Admits right →
    order left right = some .eq → hash left = some word → hash right = some word

theorem thunkHash?_of_thunkOrder? (carries : Carries stage order hash)
    (equal : stage.store.thunkOrder? order left right = some .eq)
    (known : stage.store.thunkHash? hash left = some word) :
    stage.store.thunkHash? hash right = some word := by
  unfold thunkOrder? at equal
  split at equal
  · rename_i same
    rwa [← same]
  · obtain ⟨leftValue, leftForced, equal⟩ := bind_eq_some_iff.mp equal
    obtain ⟨rightValue, rightForced, equal⟩ := bind_eq_some_iff.mp equal
    obtain ⟨_, leftForcedToo, known⟩ := bind_eq_some_iff.mp known
    cases leftForced.symm.trans leftForcedToo
    exact bind_eq_some_iff.mpr ⟨rightValue, rightForced,
      carries (stage.admits_of_forced? leftForced) (stage.admits_of_forced? rightForced)
        equal known⟩

theorem listHashes?_of_listOrder? (carries : Carries stage order hash)
    (carriesLists : ∀ {left right words}, stage.Admits (.list left) → stage.Admits (.list right) →
      order (.list left) (.list right) = some .eq → hashes left = some words →
      hashes right = some words) (equal : stage.store.listOrder? order left right = some .eq)
    (known : stage.store.listHashes? hash hashes left = some words) :
    stage.store.listHashes? hash hashes right = some words := by
  cases left with
  | empty =>
    cases right with
    | empty => exact known
    | cons => cases equal
  | cons leftHead leftTail =>
    cases right with
    | empty => cases equal
    | cons rightHead rightTail =>
      obtain ⟨outcome, headEqual, tailEqual⟩ := bind_eq_some_iff.mp equal
      cases outcome with
      | lt | gt => cases tailEqual
      | eq =>
        obtain ⟨headHash, headKnown, known⟩ := bind_eq_some_iff.mp known
        obtain ⟨rest, restForced, known⟩ := bind_eq_some_iff.mp known
        obtain ⟨tailHashes, tailKnown, known⟩ := bind_eq_some_iff.mp known
        cases known
        have rightHeadKnown := thunkHash?_of_thunkOrder? carries headEqual headKnown
        simp only [listHashes?, rightHeadKnown, bind_eq_bind, bind_some]
        dsimp only [tailOrder?] at tailEqual
        split at tailEqual
        · rename_i same
          rw [← same, restForced, bind_some, tailKnown]
          rfl
        · obtain ⟨leftRest, leftForced, tailEqual⟩ := bind_eq_some_iff.mp tailEqual
          obtain ⟨rightRest, rightForced, tailEqual⟩ := bind_eq_some_iff.mp tailEqual
          cases leftForced.symm.trans restForced
          rw [rightForced, bind_some, carriesLists (stage.seesAll_of_forcedList? leftForced)
              (stage.seesAll_of_forcedList? rightForced) tailEqual tailKnown]
          rfl

/-! ## Entries -/

/-- The sum of the digests of entries does not depend on their order. -/
theorem entriesHash?_of_perm {store : Store} (perm : left.Perm right) (sum : UInt64) :
    store.entriesHash? hash left sum = store.entriesHash? hash right sum := by
  induction perm generalizing sum with
  | nil => rfl
  | cons entry _ ih =>
    simp only [entriesHash?]
    exact congrArg _ (funext fun word => ih _)
  | swap first second rest =>
    simp only [entriesHash?, bind_eq_bind]
    cases store.entryHash? hash first with
    | none => cases store.entryHash? hash second <;> rfl
    | some firstHash =>
      cases store.entryHash? hash second with
      | none => rfl
      | some secondHash =>
        simp only [bind_some]
        rw [UInt64.add_assoc, UInt64.add_comm secondHash, ← UInt64.add_assoc]
  | trans _ _ firstHypothesis secondHypothesis =>
    exact (firstHypothesis sum).trans (secondHypothesis sum)

section

variable (carries : Carries stage order hash)

include carries

theorem entriesHash?_of_entriesOrder? (lengths : left.length = right.length)
    (leftAdmits : ∀ entry ∈ left, stage.Admits entry.1)
    (rightAdmits : ∀ entry ∈ right, stage.Admits entry.1)
    (equal : stage.store.entriesOrder? order left right = some .eq)
    (known : stage.store.entriesHash? hash left sum = some total) :
    stage.store.entriesHash? hash right sum = some total := by
  induction left generalizing right sum with
  | nil =>
    cases right with
    | nil => exact known
    | cons => cases lengths
  | cons leftEntry left ih =>
    cases right with
    | nil => cases lengths
    | cons rightEntry right =>
      obtain ⟨leftFirst, leftRest⟩ := List.forall_mem_cons.mp leftAdmits
      obtain ⟨rightFirst, rightRest⟩ := List.forall_mem_cons.mp rightAdmits
      obtain ⟨keyOutcome, keyEqual, equal⟩ := bind_eq_some_iff.mp equal
      cases keyOutcome with
      | lt | gt => cases equal
      | eq =>
        obtain ⟨valueOutcome, valueEqual, equal⟩ := bind_eq_some_iff.mp equal
        cases valueOutcome with
        | lt | gt => cases equal
        | eq =>
          obtain ⟨entryHash, entryKnown, known⟩ := bind_eq_some_iff.mp known
          obtain ⟨keyHash, keyKnown, entryKnown⟩ := bind_eq_some_iff.mp entryKnown
          obtain ⟨valueHash, valueKnown, entryKnown⟩ :=
            bind_eq_some_iff.mp entryKnown
          have rightKey := carries leftFirst rightFirst keyEqual keyKnown
          have rightValue := thunkHash?_of_thunkOrder? carries valueEqual valueKnown
          have rightEntryKnown : stage.store.entryHash? hash rightEntry = some entryHash := by
            simp only [entryHash?, rightKey, rightValue, bind_eq_bind,
              bind_some]
            exact entryKnown
          simp only [entriesHash?, rightEntryKnown, bind_eq_bind, bind_some]
          exact ih (Nat.succ.inj lengths) leftRest rightRest equal known

theorem entriesHash?_of_dictionaryOrder? {left right : Dict}
    (leftAdmits : stage.AdmitsDictionary left) (rightAdmits : stage.AdmitsDictionary right)
    (equal : stage.store.dictionaryOrder? order left right = some .eq)
    (known : stage.store.entriesHash? hash left.toList 0 = some total) :
    left.size = right.size ∧ stage.store.entriesHash? hash right.toList 0 = some total := by
  unfold dictionaryOrder? at equal
  split at equal
  · rename_i sizes
    have sameSize := Nat.compare_eq_eq.mp sizes
    refine ⟨sameSize, ?_⟩
    split at equal
    · rename_i same
      rwa [← Realm.AdmitsDictionary.eq_of_isSame stage.sound leftAdmits rightAdmits sameSize same]
    · obtain ⟨leftSorted, leftSorts, equal⟩ := bind_eq_some_iff.mp equal
      obtain ⟨rightSorted, rightSorts, equal⟩ := bind_eq_some_iff.mp equal
      have leftPerm := sortEntries?_perm leftSorts
      have rightPerm := sortEntries?_perm rightSorts
      rw [List.nil_append] at leftPerm rightPerm
      rw [← entriesHash?_of_perm leftPerm] at known
      rw [← entriesHash?_of_perm rightPerm]
      refine entriesHash?_of_entriesOrder? carries ?_ (fun entry mem =>
        (Dictionary.holds_of_sortEntries? leftAdmits leftSorts entry mem).1) (fun entry mem =>
          (Dictionary.holds_of_sortEntries? rightAdmits rightSorts entry mem).1) equal known
      rw [leftPerm.length_eq, rightPerm.length_eq, ← leftAdmits.1, ← rightAdmits.1, sameSize]
  · rename_i unequal
    exact absurd (Option.some.inj equal) unequal

/-- Equality of values one level down carries hashes over. -/
theorem valueHash?_of_valueOrder?
    (carriesLists : ∀ {left right words}, stage.Admits (.list left) → stage.Admits (.list right) →
      order (.list left) (.list right) = some .eq → hashes left = some words →
      hashes right = some words) :
    Carries stage (stage.store.valueOrder? order) (stage.store.valueHash? hash hashes) := by
  intro left right word leftAdmits rightAdmits equal known
  cases left with
  | nil => cases right <;> first | exact known | cases equal
  | boolean leftTruth =>
    cases right with
    | boolean rightTruth =>
      rwa [← Std.LawfulEqCmp.eq_of_compare (Option.some.inj equal)]
    | _ => cases equal
  | number leftNumber =>
    cases right with
    | number rightNumber =>
      have sameKey : Number.key leftNumber = Number.key rightNumber :=
        Std.LawfulEqCmp.eq_of_compare (Option.some.inj equal)
      rwa [valueHash?, ← Number.word_eq_of_key_eq sameKey]
    | _ => cases equal
  | string leftText =>
    cases right with
    | string rightText =>
      rwa [← Std.LawfulEqCmp.eq_of_compare (Option.some.inj equal)]
    | _ => cases equal
  | list leftCells =>
    cases right with
    | list rightCells =>
      obtain ⟨words, wordsKnown, known⟩ := bind_eq_some_iff.mp known
      exact bind_eq_some_iff.mpr
        ⟨words, listHashes?_of_listOrder? carries carriesLists equal wordsKnown, known⟩
    | _ => cases equal
  | dictionary leftEntries =>
    cases right with
    | dictionary rightEntries =>
      obtain ⟨total, totalKnown, known⟩ := bind_eq_some_iff.mp known
      obtain ⟨sameSize, rightKnown⟩ :=
        entriesHash?_of_dictionaryOrder? carries leftAdmits rightAdmits equal totalKnown
      exact bind_eq_some_iff.mpr ⟨total, rightKnown, sameSize ▸ known⟩
    | _ => cases equal
  | function leftCallee =>
    cases right with
    | function rightCallee =>
      have same : leftCallee.identity = rightCallee.identity :=
        Std.LawfulEqCmp.eq_of_compare (Option.some.inj equal)
      rwa [valueHash?, ← same]
    | _ => cases equal
  | effect leftIdentity leftPayload =>
    cases right with
    | effect rightIdentity rightPayload =>
      have same : leftIdentity = rightIdentity :=
        Std.LawfulEqCmp.eq_of_compare (Option.some.inj equal)
      rwa [valueHash?, ← same]
    | _ => cases equal
  | error => cases known

end

end Parts

/-- A value equal to one with a hash has that hash, however far down both are read. -/
theorem hash?_of_order? (stage : Stage frame) (bound depth : Nat) :
    Carries stage (stage.store.order? bound) (stage.store.hash? depth) ∧
      ∀ {left right words}, stage.Admits (.list left) → stage.Admits (.list right) →
        stage.store.order? bound (.list left) (.list right) = some .eq →
        stage.store.hashes? depth left = some words →
        stage.store.hashes? depth right = some words := by
  induction bound generalizing depth with
  | zero => exact ⟨fun _ _ equal => (by cases equal), fun _ _ equal => (by cases equal)⟩
  | succ bound ih =>
    cases depth with
    | zero => exact ⟨fun _ _ _ known => (by cases known), fun _ _ _ known => (by cases known)⟩
    | succ depth =>
      obtain ⟨carries, carriesLists⟩ := ih depth
      exact ⟨valueHash?_of_valueOrder? carries carriesLists, fun _ _ equal known =>
        listHashes?_of_listOrder? carries carriesLists equal known⟩

end ByNeed
