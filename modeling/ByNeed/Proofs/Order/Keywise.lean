import Mathlib.Data.List.Forall2
import Mathlib.Data.List.Pairwise
import ByNeed.Proofs.Dictionary.Lookup

/-!
# Dictionaries are equal key by key

Keys of one dictionary all differ, so sorting leaves each behind all lesser ones, and two sorted
dictionaries line up exactly when each key of one is found in the other.
-/

namespace ByNeed

open Store List Option

/-! ## Sorted entries line up -/

namespace LawfulOrder

variable {among : Value → Prop} {order : Value → Value → Option Ordering}
  (lawful : LawfulOrder among order)
  (total : ∀ left right, among left → among right → ∃ outcome, order left right = some outcome)

/-- The key of an entry is less than that of another. -/
def Before (order : Value → Value → Option Ordering) (left right : Value × Thunk) : Prop :=
  order left.1 right.1 = some .lt

/-- The keys of two entries are unequal, whichever comes first. -/
def Apart (order : Value → Value → Option Ordering) (left right : Value × Thunk) : Prop :=
  order left.1 right.1 ≠ some .eq ∧ order right.1 left.1 ≠ some .eq

include lawful

theorem before_of_gt (leftAmong : among left.1) (rightAmong : among right.1)
    (greater : order left.1 right.1 = some .gt) : Before order right left :=
  lawful.swap leftAmong rightAmong greater

include total

theorem before_of_chain {first second third : Value × Thunk} (firstAmong : among first.1)
    (secondAmong : among second.1) (thirdAmong : among third.1)
    (nearKnown : order first.1 second.1 = some near) (farKnown : order second.1 third.1 = some far)
    (chained : near.then far = .lt) (nearNe : near ≠ .gt) (farNe : far ≠ .gt) :
    Before order first third := by
  obtain ⟨outer, outerKnown⟩ := total first.1 third.1 firstAmong thirdAmong
  have same := lawful.chain firstAmong secondAmong thirdAmong nearKnown farKnown outerKnown
    nearNe farNe
  rw [Before, outerKnown, same, chained]

/-- An entry is sorted in before all greater ones and behind all lesser ones. -/
theorem insertSorted?_before {entry : Value × Thunk} (entryAmong : among entry.1)
    (entriesAmong : ∀ other ∈ entries, among other.1)
    (sorted : (passed.reverse ++ entries).Pairwise (Before order))
    (behind : ∀ other ∈ passed, Before order other entry)
    (apart : ∀ other ∈ entries, order other.1 entry.1 ≠ some .eq)
    (inserted : Store.insertSorted? order entry passed entries = some result) :
    result.Pairwise (Before order) := by
  induction entries generalizing passed with
  | nil =>
    cases inserted
    rw [append_nil] at sorted
    rw [reverseAux_eq, pairwise_append]
    refine ⟨sorted, pairwise_singleton _ _, fun other mem new isNew => ?_⟩
    rw [mem_singleton.mp isNew]
    exact behind other (mem_reverse.mp mem)
  | cons other rest ih =>
    obtain ⟨otherAmong, restAmong⟩ := forall_mem_cons.mp entriesAmong
    obtain ⟨otherApart, restApart⟩ := forall_mem_cons.mp apart
    obtain ⟨outcome, known, chosen⟩ := bind_eq_some_iff.mp inserted
    cases outcome with
    | eq => exact absurd known otherApart
    | lt =>
      refine ih restAmong ?_ ?_ restApart chosen
      · rwa [reverse_cons, append_assoc]
      · exact forall_mem_cons.mpr ⟨known, behind⟩
    | gt =>
      cases chosen
      have before : Before order entry other := lawful.before_of_gt otherAmong entryAmong known
      obtain ⟨passedSorted, restSorted, across⟩ := pairwise_append.mp sorted
      have beforeRest : ∀ later ∈ other :: rest, Before order entry later := by
        refine forall_mem_cons.mpr ⟨before, fun later mem => ?_⟩
        exact lawful.before_of_chain total entryAmong otherAmong (restAmong later mem)
          before (rel_of_pairwise_cons restSorted mem) rfl (by simp) (by simp)
      rw [reverseAux_eq, pairwise_append, pairwise_cons]
      refine ⟨passedSorted, ⟨beforeRest, restSorted⟩, fun earlier mem later isLater => ?_⟩
      rcases mem_cons.mp isLater with rfl | isLater
      · exact behind earlier (mem_reverse.mp mem)
      · exact across earlier mem later isLater

/-- Sorting puts every entry behind all those with lesser keys. -/
theorem sortEntries?_before (amongAll : ∀ entry ∈ sorted ++ entries, among entry.1)
    (isSorted : sorted.Pairwise (Before order)) (apart : (sorted ++ entries).Pairwise (Apart order))
    (sorts : Store.sortEntries? order sorted entries = some result) :
    result.Pairwise (Before order) := by
  induction entries generalizing sorted with
  | nil =>
    cases sorts
    exact isSorted
  | cons entry rest ih =>
    obtain ⟨between, inserted, restSorts⟩ := bind_eq_some_iff.mp sorts
    have perm : (between ++ rest).Perm (sorted ++ entry :: rest) :=
      ((insertSorted?_perm inserted).append_right rest).trans perm_middle.symm
    refine ih (fun other mem => amongAll other (perm.mem_iff.mp mem)) ?_
      ((perm.pairwise_iff fun unequal => unequal.symm).mpr apart) restSorts
    refine lawful.insertSorted?_before total (amongAll entry (by simp))
      (fun other mem => amongAll other (by simp [mem])) ?_ (by simp) ?_ inserted
    · exact isSorted
    · intro other mem
      exact ((pairwise_append.mp apart).2.2 other mem entry mem_cons_self).1

/-- Of two sorted lists of entries, one lines up with part of the other if each of its keys is
found there. -/
theorem exists_sublist {alike : Value × Thunk → Value × Thunk → Prop}
    (leftAmong : ∀ entry ∈ left, among entry.1) (rightAmong : ∀ entry ∈ right, among entry.1)
    (leftSorted : left.Pairwise (Before order)) (rightSorted : right.Pairwise (Before order))
    (found : ∀ entry ∈ left, ∃ other ∈ right,
      order entry.1 other.1 = some .eq ∧ alike entry other) : ∃ part, part.Sublist right ∧
      List.Forall₂ (fun entry other => order entry.1 other.1 = some .eq ∧ alike entry other)
        left part := by
  induction right generalizing left with
  | nil =>
    cases left with
    | nil => exact ⟨[], .slnil, .nil⟩
    | cons entry rest =>
      obtain ⟨other, mem, -⟩ := found entry mem_cons_self
      cases mem
  | cons first right ih =>
    cases left with
    | nil => exact ⟨[], nil_sublist _, .nil⟩
    | cons entry left =>
      obtain ⟨entryAmong, restAmong⟩ := forall_mem_cons.mp leftAmong
      obtain ⟨firstAmong, behindAmong⟩ := forall_mem_cons.mp rightAmong
      obtain ⟨entryBefore, leftSorted'⟩ := pairwise_cons.mp leftSorted
      obtain ⟨firstBefore, rightSorted'⟩ := pairwise_cons.mp rightSorted
      -- A later entry is greater than the first key on the right if an entry here is not less.
      have foundBehind : ∀ {later}, among later.1 → Before order first later →
          (∃ other ∈ first :: right, order later.1 other.1 = some .eq ∧ alike later other) →
          ∃ other ∈ right, order later.1 other.1 = some .eq ∧ alike later other := by
        rintro later laterAmong before ⟨other, mem, equal, isAlike⟩
        rcases mem_cons.mp mem with rfl | mem
        · have turned := lawful.swap laterAmong firstAmong equal
          rw [before] at turned
          cases turned
        · exact ⟨other, mem, equal, isAlike⟩
      obtain ⟨other, mem, equal, isAlike⟩ := found entry mem_cons_self
      rcases mem_cons.mp mem with rfl | mem
      · -- The two first keys are equal, and all others are behind.
        have turned := lawful.swap entryAmong firstAmong equal
        obtain ⟨part, sublist, aligned⟩ :=
          ih restAmong behindAmong leftSorted' rightSorted'
            fun later isLater => foundBehind (restAmong later isLater)
              (lawful.before_of_chain total firstAmong entryAmong (restAmong later isLater)
                turned (entryBefore later isLater) rfl (by simp) (by simp))
              (found later (mem_cons_of_mem _ isLater))
        exact ⟨other :: part, sublist.cons_cons other, .cons ⟨equal, isAlike⟩ aligned⟩
      · -- The first key on the right is less than all on the left.
        have turned := lawful.swap entryAmong (behindAmong other mem) equal
        have before : Before order first entry :=
          lawful.before_of_chain total firstAmong (behindAmong other mem) entryAmong
            (firstBefore other mem) turned rfl (by simp) (by simp)
        have beforeAll : ∀ later ∈ entry :: left, Before order first later :=
          forall_mem_cons.mpr ⟨before, fun later isLater =>
            lawful.before_of_chain total firstAmong entryAmong (restAmong later isLater)
              before (entryBefore later isLater) rfl (by simp) (by simp)⟩
        obtain ⟨part, sublist, aligned⟩ :=
          ih leftAmong behindAmong leftSorted rightSorted' fun later isLater =>
            foundBehind (leftAmong later isLater) (beforeAll later isLater) (found later isLater)
        exact ⟨part, sublist.cons first, aligned⟩

omit lawful total in
theorem of_fewer (lawful : LawfulOrder among order) (implies : ∀ value, fewer value → among value) :
    LawfulOrder fewer order where
  swap left right := lawful.swap (implies _ left) (implies _ right)
  chain first second third := lawful.chain (implies _ first) (implies _ second) (implies _ third)

end LawfulOrder

/-! ## Entries of equal dictionaries -/

/-- Two thunks are known to evaluate to equal values. -/
def Store.MatchesThunks (store : Store) (left right : Thunk) : Prop :=
  ∃ leftValue rightValue, store.forced? left = some leftValue ∧
    store.forced? right = some rightValue ∧ store.Matches leftValue rightValue

/-- Two entries are known to have equal keys and to have values that are the same thunk or
evaluate to equal values. -/
def Store.MatchesEntry (store : Store) (left right : Value × Thunk) : Prop :=
  store.Matches left.1 right.1 ∧ (left.2 = right.2 ∨ store.MatchesThunks left.2 right.2)

namespace Store

variable {store : Store} {bound : Nat}

theorem matchesThunks_of_thunkOrder?
    (known : store.thunkOrder? (store.order? bound) left right = some .eq) :
    left = right ∨ store.MatchesThunks left right := by
  by_cases same : left = right
  · exact .inl same
  · rw [thunkOrder?, if_neg same] at known
    obtain ⟨leftValue, leftForced, known⟩ := bind_eq_some_iff.mp known
    obtain ⟨rightValue, rightForced, known⟩ := bind_eq_some_iff.mp known
    exact .inr ⟨leftValue, rightValue, leftForced, rightForced, bound, known⟩

theorem exists_thunkOrder? (isEqual : left = right ∨ store.MatchesThunks left right) :
    ∃ bound, store.thunkOrder? (store.order? bound) left right = some .eq := by
  rcases isEqual with same | ⟨leftValue, rightValue, leftForced, rightForced, bound, known⟩
  · exact ⟨0, by rw [thunkOrder?, if_pos same]⟩
  · refine ⟨bound, ?_⟩
    unfold thunkOrder?
    split
    · rfl
    · rw [leftForced, rightForced]
      exact known

/-- Equal entries line up. -/
theorem exists_matchesEntry (sameLength : left.length = right.length)
    (known : store.entriesOrder? (store.order? bound) left right = some .eq) :
    ∀ entry ∈ left, ∃ other ∈ right, store.MatchesEntry entry other := by
  induction left generalizing right with
  | nil => simp
  | cons entry left ih =>
    cases right with
    | nil => simp at sameLength
    | cons other right =>
      obtain ⟨keys, keysKnown, known⟩ := bind_eq_some_iff.mp known
      cases keys with
      | lt | gt => cases known
      | eq =>
        obtain ⟨values, valuesKnown, known⟩ := bind_eq_some_iff.mp known
        cases values with
        | lt | gt => cases known
        | eq =>
          refine forall_mem_cons.mpr ⟨⟨other, mem_cons_self, ⟨bound, keysKnown⟩,
            matchesThunks_of_thunkOrder? valuesKnown⟩, fun later mem => ?_⟩
          obtain ⟨found, foundMember, isEqual⟩ :=
            ih (by simpa using sameLength) known later mem
          exact ⟨found, mem_cons_of_mem _ foundMember, isEqual⟩

theorem entriesOrder?_of_forall₂
    (aligned : List.Forall₂ (fun entry other => order entry.1 other.1 = some .eq ∧
      store.thunkOrder? order entry.2 other.2 = some .eq) left right) :
    store.entriesOrder? order left right = some .eq := by
  induction aligned with
  | nil => rfl
  | cons equal _ ih =>
    simp [entriesOrder?, equal.1, equal.2, ih]

end Store

namespace Dictionary

variable {frame : Frame} {stage : Stage frame} {left right : Dict}

theorem matches_self (admits : stage.Admits value) (hashable : stage.store.Hashable value) :
    stage.store.Matches value value := by
  obtain ⟨bound, outcome, known⟩ := hashable.compares hashable
  have turned := (order?_lawful stage bound).swap admits admits known
  rw [known, Option.some.injEq] at turned
  cases outcome with
  | eq => exact ⟨bound, known⟩
  | lt | gt => cases turned

section

variable (firstAdmits : stage.Admits first) (secondAdmits : stage.Admits second)

include firstAdmits secondAdmits

theorem matches_symm (isEqual : stage.store.Matches first second) :
    stage.store.Matches second first := by
  obtain ⟨bound, known⟩ := isEqual
  exact ⟨bound, (order?_lawful stage bound).swap firstAdmits secondAdmits known⟩

theorem matches_trans (thirdAdmits : stage.Admits third) (near : stage.store.Matches first second)
    (far : stage.store.Matches second third)
    (compares : ∃ bound outcome, stage.store.order? bound first third = some outcome) :
    stage.store.Matches first third := by
  obtain ⟨nearBound, nearKnown⟩ := near
  obtain ⟨farBound, farKnown⟩ := far
  obtain ⟨outerBound, outer, outerKnown⟩ := compares
  have deepen := fun {bound left right outcome}
      (le : bound ≤ max nearBound (max farBound outerBound)) =>
    order?_refines stage.store.recalls_refl le left right outcome
  have chained := (order?_lawful stage (max nearBound (max farBound outerBound))).chain
    firstAdmits secondAdmits thirdAdmits (deepen (by omega) nearKnown)
    (deepen (by omega) farKnown) (deepen (by omega) outerKnown) (by simp) (by simp)
  exact ⟨outerBound, by rw [outerKnown, chained]; rfl⟩

theorem differ_of_hash_ne (firstKnown : stage.store.hash? firstBound first = some firstWord)
    (secondKnown : stage.store.hash? secondBound second = some secondWord)
    (ne : firstWord ≠ secondWord) : stage.store.Differ first second := by
  rcases Store.Hashable.matches_or_differ ⟨_, _, firstKnown⟩ ⟨_, _, secondKnown⟩ with
    ⟨bound, equal⟩ | differ
  · have carried := (hash?_of_order? stage bound firstBound).1 firstAdmits secondAdmits equal
      firstKnown
    exact absurd (hash?_unique carried secondKnown) ne
  · exact differ

end

/-- No two keys of a dictionary are equal. -/
theorem pairwise_differ (admits : stage.AdmitsDictionary dict) :
    dict.toList.Pairwise fun first second => stage.store.Differ first.1 second.1 := by
  unfold toList
  cases root : dict.root with
  | none => exact .nil
  | some trie =>
    have isNode := admits.isNode stage.sound root
    refine Trie.pairwise_toList isNode.wellFormed (fun hash => (isNode.files hash).apart) ?_
    intro first second hash other firstMember secondMember ne
    obtain ⟨firstBound, firstKnown⟩ := (isNode.files hash).hashes first firstMember
    obtain ⟨secondBound, secondKnown⟩ := (isNode.files other).hashes second secondMember
    have inTrie := fun {entry} => (Trie.mem_toList isNode.wellFormed entry).mpr
    exact differ_of_hash_ne (isNode.admits_key first (inTrie ⟨hash, firstMember⟩))
      (isNode.admits_key second (inTrie ⟨other, secondMember⟩)) firstKnown secondKnown ne

/-! ## Sorting at one depth -/

/-- A value that is admitted and has its hash at some depth. -/
def HashesAt (stage : Stage frame) (bound : Nat) (value : Value) : Prop :=
  stage.Admits value ∧ ∃ word, stage.store.hash? bound value = some word

theorem lawful_hashesAt (bound : Nat) :
    LawfulOrder (HashesAt stage bound) (stage.store.order? bound) :=
  (order?_lawful stage bound).of_fewer fun _ hashes => hashes.1

theorem total_hashesAt (first second : Value) (firstHashes : HashesAt stage bound first)
    (secondHashes : HashesAt stage bound second) :
    ∃ outcome, stage.store.order? bound first second = some outcome := by
  obtain ⟨-, firstWord, firstKnown⟩ := firstHashes
  obtain ⟨-, secondWord, secondKnown⟩ := secondHashes
  exact (stage.store.order?_of_hash? bound).1 _ _ _ _ firstKnown secondKnown

theorem exists_sorted (admits : stage.AdmitsDictionary dict)
    (hashes : ∀ entry ∈ dict.toList, HashesAt stage bound entry.1) :
    ∃ sorted, Store.sortEntries? (stage.store.order? bound) [] dict.toList = some sorted ∧
        sorted.Perm dict.toList ∧
        sorted.Pairwise (LawfulOrder.Before (stage.store.order? bound)) := by
  have compares : ∀ first ∈ [] ++ dict.toList, ∀ second ∈ [] ++ dict.toList,
      ∃ outcome, stage.store.order? bound first.1 second.1 = some outcome :=
    fun first firstMember second secondMember =>
      total_hashesAt first.1 second.1 (hashes first firstMember) (hashes second secondMember)
  obtain ⟨sorted, sorts⟩ := exists_sortEntries? compares
  have apart : dict.toList.Pairwise (LawfulOrder.Apart (stage.store.order? bound)) := by
    refine (pairwise_differ admits).imp_of_mem fun firstMember secondMember differ => ?_
    have unequal := fun equal => Store.Matches.not_differ ⟨bound, equal⟩ differ
    exact ⟨unequal, fun equal => unequal ((lawful_hashesAt bound).swap (hashes _ secondMember)
      (hashes _ firstMember) equal)⟩
  exact ⟨sorted, sorts, sortEntries?_perm sorts,
    (lawful_hashesAt bound).sortEntries?_before total_hashesAt hashes .nil apart sorts⟩

/-! ## Counterparts -/

section Admits

variable (leftAdmits : stage.AdmitsDictionary left) (rightAdmits : stage.AdmitsDictionary right)

include leftAdmits rightAdmits

theorem exists_counterpart (isEqual : stage.store.Matches (.dictionary left) (.dictionary right)) :
    left.size = right.size ∧
      ∀ entry ∈ left.toList, ∃ other ∈ right.toList, stage.store.MatchesEntry entry other := by
  obtain ⟨bound, known⟩ := isEqual
  cases bound with
  | zero => cases known
  | succ bound =>
    change stage.store.dictionaryOrder? (stage.store.order? bound) left right = some .eq at known
    unfold Store.dictionaryOrder? at known
    split at known
    · rename_i compared
      have sameSize : left.size = right.size := Std.LawfulEqOrd.eq_of_compare compared
      refine ⟨sameSize, fun entry mem => ?_⟩
      split at known
      · rename_i same
        obtain rfl := Realm.AdmitsDictionary.eq_of_isSame stage.sound leftAdmits rightAdmits
          sameSize same
        exact ⟨entry, mem, matches_self (leftAdmits.entries stage.sound mem).1
          (hashable_key leftAdmits mem), .inl rfl⟩
      · obtain ⟨leftSorted, leftSorts, known⟩ := bind_eq_some_iff.mp known
        obtain ⟨rightSorted, rightSorts, known⟩ := bind_eq_some_iff.mp known
        have leftPerm := sortEntries?_perm leftSorts
        have rightPerm := sortEntries?_perm rightSorts
        have sameLength : leftSorted.length = rightSorted.length := by
          rw [leftPerm.length_eq, rightPerm.length_eq, nil_append, nil_append,
            ← leftAdmits.1, ← rightAdmits.1, sameSize]
        obtain ⟨other, otherMember, isEqual⟩ :=
          exists_matchesEntry sameLength known entry (leftPerm.mem_iff.mpr mem)
        exact ⟨other, rightPerm.mem_iff.mp otherMember, isEqual⟩
    · rename_i unequal
      exact absurd (Option.some.inj known) unequal

theorem matches_of_counterparts (sameSize : left.size = right.size)
    (found : ∀ entry ∈ left.toList, ∃ other ∈ right.toList, stage.store.MatchesEntry entry other) :
    stage.store.Matches (.dictionary left) (.dictionary right) := by
  have recalls := stage.store.recalls_refl
  -- Everything that has to be read can be read at one depth.
  obtain ⟨leftBound, leftHashes⟩ := exists_bound_keys leftAdmits
  obtain ⟨rightBound, rightHashes⟩ := exists_bound_keys rightAdmits
  obtain ⟨foundBound, foundAt⟩ : ∃ bound, ∀ entry ∈ left.toList, ∃ other ∈ right.toList,
      stage.store.order? bound entry.1 other.1 = some .eq ∧
        stage.store.thunkOrder? (stage.store.order? bound) entry.2 other.2 = some .eq := by
    refine exists_common_bound ?_ fun entry mem => ?_
    · rintro bound greater entry le ⟨other, mem, keys, values⟩
      exact ⟨other, mem, order?_refines recalls le _ _ _ keys,
        thunkOrder?_refines recalls (order?_refines recalls le) _ _ _ values⟩
    · obtain ⟨other, otherMember, ⟨keyBound, keys⟩, isEqual⟩ := found entry mem
      obtain ⟨valueBound, values⟩ := exists_thunkOrder? isEqual
      exact ⟨max keyBound valueBound, other, otherMember,
        order?_refines recalls (Nat.le_max_left _ _) _ _ _ keys,
        thunkOrder?_refines recalls (order?_refines recalls (Nat.le_max_right _ _))
          _ _ _ values⟩
  obtain ⟨bound, leftLe, rightLe, foundLe⟩ :
      ∃ bound, leftBound ≤ bound ∧ rightBound ≤ bound ∧ foundBound ≤ bound :=
    ⟨max leftBound (max rightBound foundBound), by omega, by omega, by omega⟩
  have hashesAt : ∀ {dict : Dict} {depth : Nat}, stage.AdmitsDictionary dict → depth ≤
      bound → (∀ entry ∈ dict.toList, ∃ word, stage.store.hash? depth entry.1 = some word) → ∀
      entry ∈ dict.toList, HashesAt stage bound entry.1 := by
    intro dict depth admits le hashes entry mem
    obtain ⟨word, known⟩ := hashes entry mem
    exact ⟨(admits.entries stage.sound mem).1, word,
      (hash?_refines recalls le).1 entry.1 word known⟩
  have leftAt := hashesAt leftAdmits leftLe leftHashes
  have rightAt := hashesAt rightAdmits rightLe rightHashes
  obtain ⟨leftSorted, leftSorts, leftPerm, leftBefore⟩ := exists_sorted leftAdmits leftAt
  obtain ⟨rightSorted, rightSorts, rightPerm, rightBefore⟩ := exists_sorted rightAdmits rightAt
  obtain ⟨part, sublist, aligned⟩ := (lawful_hashesAt bound).exists_sublist total_hashesAt (fun
    entry mem => leftAt entry (leftPerm.mem_iff.mp mem)) (fun entry mem => rightAt entry
    (rightPerm.mem_iff.mp mem)) leftBefore rightBefore fun entry mem => by
      obtain ⟨other, otherMember, keys, values⟩ := foundAt entry (leftPerm.mem_iff.mp mem)
      exact ⟨other, rightPerm.mem_iff.mpr otherMember, order?_refines recalls foundLe _ _ _
        keys, thunkOrder?_refines recalls (order?_refines recalls foundLe) _ _ _ values⟩
  -- There are as many entries on the right, so nothing is left over.
  have sameLength : part.length = rightSorted.length := by
    rw [← aligned.length_eq, leftPerm.length_eq, rightPerm.length_eq, ← leftAdmits.1,
      ← rightAdmits.1, sameSize]
  rw [sublist.eq_of_length sameLength] at aligned
  refine ⟨bound + 1, ?_⟩
  change stage.store.dictionaryOrder? (stage.store.order? bound) left right = some .eq
  unfold Store.dictionaryOrder?
  rw [sameSize, Std.ReflOrd.compare_self]
  by_cases same : left.isSame right = true
  · simp [same]
  · simp [same, leftSorts, rightSorts, entriesOrder?_of_forall₂ aligned]

end Admits

theorem eq_of_matches (admits : stage.AdmitsDictionary dict) (firstMember : first ∈ dict.toList)
    (secondMember : second ∈ dict.toList) (keyAdmits : stage.Admits key)
    (firstEqual : stage.store.Matches first.1 key)
    (secondEqual : stage.store.Matches second.1 key) : first = second := by
  have keysAdmit := fun {entry} (mem : entry ∈ dict.toList) =>
    (admits.entries stage.sound mem).1
  have isEqual : stage.store.Matches first.1 second.1 :=
    matches_trans (keysAdmit firstMember) keyAdmits (keysAdmit secondMember) firstEqual
      (matches_symm (keysAdmit secondMember) keyAdmits secondEqual)
      ((hashable_key admits firstMember).compares (hashable_key admits secondMember))
  have apart := pairwise_differ admits
  refine List.Pairwise.forall_of_forall_of_flip (R := fun left right => stage.store.Matches left.1
    right.1 → left = right) (fun _ _ _ => rfl) ?_ ?_ firstMember secondMember isEqual
  · exact apart.imp fun differ equal => absurd differ equal.not_differ
  · exact apart.imp_of_mem fun leftMember rightMember differ equal =>
      absurd differ (matches_symm (keysAdmit rightMember) (keysAdmit leftMember) equal).not_differ

end Dictionary
end ByNeed
