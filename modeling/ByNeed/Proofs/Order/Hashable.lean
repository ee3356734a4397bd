import ByNeed.Proofs.Order.Reading

/-!
# Values that have a hash

Hashing looks at everything inside a value.  So a value whose hash can be read is evaluated all the
way down and free of errors, and two such values compare without evaluating anything.
-/

namespace ByNeed
namespace Store

open Option

/-- A value is finite, evaluated all the way down, and free of errors. -/
inductive Solid (store : Store) : Value → Prop
  | nil : Solid store .nil
  | boolean (truth : Bool) : Solid store (.boolean truth)
  | number (x : Float) : Solid store (.number x)
  | string (text : String) : Solid store (.string text)
  | function (callee : Function) : Solid store (.function callee)
  | effect (identity : Nat) (payload : Thunk) : Solid store (.effect identity payload)
  | empty : Solid store (.list .empty)
  | cons {head tail : Thunk} {value : Value} {rest : LazyList}
      (headForced : store.forced? head = some value)
      (headSolid : Solid store value)
      (tailForced : store.forcedList? tail = some rest)
      (tailSolid : Solid store (.list rest)) :
      Solid store (.list (.cons head tail))
  | dictionary {entries : Dict} (content : Value × Thunk → Value)
      (keysSolid : ∀ entry ∈ entries.toList, Solid store entry.1)
      (forced : ∀ entry ∈ entries.toList, store.forced? entry.2 = some (content entry))
      (valuesSolid : ∀ entry ∈ entries.toList, Solid store (content entry)) :
      Solid store (.dictionary entries)

section Parts

variable {store : Store} {hash : Value → Option UInt64}
  {hashes : LazyList → Option (List UInt64)}

/-- The key of an entry has a hash, and so has what its value evaluates to. -/
def HashesEntry (store : Store) (hash : Value → Option UInt64) (entry : Value × Thunk) : Prop :=
  ∃ keyHash value valueHash, hash entry.1 = some keyHash ∧
    store.forced? entry.2 = some value ∧ hash value = some valueHash

theorem hashesEntry_of_entriesHash? (known : store.entriesHash? hash entries sum = some total) :
    ∀ entry ∈ entries, store.HashesEntry hash entry := by
  induction entries generalizing sum with
  | nil => simp
  | cons entry rest ih =>
    obtain ⟨entryHash, entryKnown, known⟩ := bind_eq_some_iff.mp known
    obtain ⟨keyHash, keyKnown, entryKnown⟩ := bind_eq_some_iff.mp entryKnown
    obtain ⟨valueHash, valueKnown, -⟩ := bind_eq_some_iff.mp entryKnown
    obtain ⟨value, forced, valueKnown⟩ := bind_eq_some_iff.mp valueKnown
    exact List.forall_mem_cons.mpr
      ⟨⟨keyHash, value, valueHash, keyKnown, forced, valueKnown⟩, ih known⟩

theorem exists_of_listHashes?_cons
    (known : store.listHashes? hash hashes (.cons head tail) = some words) :
    ∃ value headHash rest restHashes, store.forced? head = some value ∧
      hash value = some headHash ∧ store.forcedList? tail = some rest ∧
      hashes rest = some restHashes := by
  obtain ⟨headHash, headKnown, known⟩ := bind_eq_some_iff.mp known
  obtain ⟨value, forced, headKnown⟩ := bind_eq_some_iff.mp headKnown
  obtain ⟨rest, restForced, known⟩ := bind_eq_some_iff.mp known
  obtain ⟨restHashes, restKnown, -⟩ := bind_eq_some_iff.mp known
  exact ⟨value, headHash, rest, restHashes, forced, headKnown, restForced, restKnown⟩

section Solid

variable (solid : ∀ {value word}, hash value = some word → store.Solid value)
  (solidLists : ∀ {list words}, hashes list = some words → store.Solid (.list list))

include solid

include solidLists in
theorem solid_of_listHashes? (known : store.listHashes? hash hashes list = some words) :
    store.Solid (.list list) := by
  cases list with
  | empty => exact .empty
  | cons head tail =>
    obtain ⟨value, headHash, rest, restHashes, forced, headKnown, restForced, restKnown⟩ :=
      exists_of_listHashes?_cons known
    exact .cons forced (solid headKnown) restForced (solidLists restKnown)

theorem solid_of_entriesHash? (known : store.entriesHash? hash entries.toList sum = some total) :
    store.Solid (.dictionary entries) := by
  have digests := hashesEntry_of_entriesHash? known
  refine .dictionary (fun entry => (store.forced? entry.2).getD .nil) ?_ ?_ ?_
  all_goals
    intro entry mem
    obtain ⟨keyHash, value, valueHash, keyKnown, forced, valueKnown⟩ := digests entry mem
  · exact solid keyKnown
  · rw [forced, getD_some]
  · rw [forced, getD_some]
    exact solid valueKnown

include solidLists in
theorem solid_of_valueHash? (known : store.valueHash? hash hashes value = some word) :
    store.Solid value := by
  cases value with
  | nil => exact .nil
  | boolean truth => exact .boolean truth
  | number x => exact .number x
  | string text => exact .string text
  | list cells =>
    obtain ⟨words, wordsKnown, -⟩ := bind_eq_some_iff.mp known
    exact solid_of_listHashes? solid solidLists wordsKnown
  | dictionary entries =>
    obtain ⟨sum, sumKnown, -⟩ := bind_eq_some_iff.mp known
    exact solid_of_entriesHash? solid sumKnown
  | function callee => exact .function callee
  | effect identity payload => exact .effect identity payload
  | error failure => cases known

end Solid

section Compares

variable {order : Value → Value → Option Ordering}

/-- Values that have a hash compare. -/
def Compares (order : Value → Value → Option Ordering) (hash : Value → Option UInt64) : Prop :=
  ∀ left right leftHash rightHash, hash left = some leftHash → hash right = some rightHash →
    ∃ outcome, order left right = some outcome

theorem thunkOrder?_of_forced? (compares : Compares order hash)
    (leftForced : store.forced? left = some leftValue)
    (rightForced : store.forced? right = some rightValue)
    (leftKnown : hash leftValue = some leftHash) (rightKnown : hash rightValue = some rightHash) :
    ∃ outcome, store.thunkOrder? order left right = some outcome := by
  unfold thunkOrder?
  split
  · exact ⟨.eq, rfl⟩
  · rw [leftForced, rightForced]
    exact compares leftValue rightValue leftHash rightHash leftKnown rightKnown

theorem listOrder?_of_listHashes? (compares : Compares order hash)
    (comparesLists : ∀ left right leftHashes rightHashes, hashes left = some leftHashes →
      hashes right = some rightHashes → ∃ outcome, order (.list left) (.list right) = some outcome)
    (leftKnown : store.listHashes? hash hashes left = some leftHashes)
    (rightKnown : store.listHashes? hash hashes right = some rightHashes) :
    ∃ outcome, store.listOrder? order left right = some outcome := by
  cases left with
  | empty => cases right <;> exact ⟨_, rfl⟩
  | cons leftHead leftTail =>
    cases right with
    | empty => exact ⟨.gt, rfl⟩
    | cons rightHead rightTail =>
      obtain ⟨leftValue, leftHash, leftRest, leftWords, leftForced, leftHeadKnown,
        leftRestForced, leftRestKnown⟩ := exists_of_listHashes?_cons leftKnown
      obtain ⟨rightValue, rightHash, rightRest, rightWords, rightForced, rightHeadKnown,
        rightRestForced, rightRestKnown⟩ := exists_of_listHashes?_cons rightKnown
      obtain ⟨heads, headsKnown⟩ :=
        thunkOrder?_of_forced? compares leftForced rightForced leftHeadKnown rightHeadKnown
      obtain ⟨tails, tailsKnown⟩ :
          ∃ outcome, store.tailOrder? order leftTail rightTail = some outcome := by
        unfold tailOrder?
        split
        · exact ⟨.eq, rfl⟩
        · rw [leftRestForced, rightRestForced]
          exact comparesLists leftRest rightRest leftWords rightWords leftRestKnown
            rightRestKnown
      cases heads with
      | eq => exact ⟨tails, by simp [listOrder?, headsKnown, tailsKnown]⟩
      | lt => exact ⟨.lt, by simp [listOrder?, headsKnown]⟩
      | gt => exact ⟨.gt, by simp [listOrder?, headsKnown]⟩

/-- An entry can be sorted in if its key can be compared with all others. -/
theorem exists_insertSorted? (passed : List (Value × Thunk))
    (known : ∀ other ∈ entries, ∃ outcome, order other.1 entry.1 = some outcome) :
    ∃ result, insertSorted? order entry passed entries = some result := by
  induction entries generalizing passed with
  | nil => exact ⟨_, rfl⟩
  | cons other rest ih =>
    obtain ⟨⟨outcome, outcomeKnown⟩, restKnown⟩ := List.forall_mem_cons.mp known
    obtain ⟨result, inserted⟩ := ih (other :: passed) restKnown
    rw [insertSorted?, outcomeKnown]
    cases outcome with
    | gt => exact ⟨_, rfl⟩
    | _ => exact ⟨result, inserted⟩

/-- Entries can be sorted if their keys can be compared. -/
theorem exists_sortEntries? (known : ∀ left ∈ sorted ++ entries, ∀ right ∈ sorted ++ entries,
      ∃ outcome, order left.1 right.1 = some outcome) :
    ∃ result, sortEntries? order sorted entries = some result := by
  induction entries generalizing sorted with
  | nil => exact ⟨sorted, rfl⟩
  | cons entry rest ih =>
    have entryKnown : ∀ other ∈ sorted, ∃ outcome, order other.1 entry.1 = some outcome :=
      fun other mem => known other (by simp [mem]) entry (by simp)
    obtain ⟨between, inserted⟩ := exists_insertSorted? [] entryKnown
    have perm : (between ++ rest).Perm (sorted ++ entry :: rest) :=
      ((insertSorted?_perm inserted).append_right rest).trans List.perm_middle.symm
    rw [sortEntries?, inserted]
    refine ih fun left leftMember right rightMember => ?_
    exact known left (perm.mem_iff.mp leftMember) right (perm.mem_iff.mp rightMember)

section

variable (compares : Compares order hash)

include compares

theorem exists_entriesOrder? (leftKnown : ∀ entry ∈ left, store.HashesEntry hash entry)
    (rightKnown : ∀ entry ∈ right, store.HashesEntry hash entry) :
    ∃ outcome, store.entriesOrder? order left right = some outcome := by
  induction left generalizing right with
  | nil => exact ⟨.eq, rfl⟩
  | cons leftEntry left ih =>
    cases right with
    | nil => exact ⟨.eq, rfl⟩
    | cons rightEntry right =>
      obtain ⟨leftHere, leftKnown⟩ := List.forall_mem_cons.mp leftKnown
      obtain ⟨rightHere, rightKnown⟩ := List.forall_mem_cons.mp rightKnown
      obtain ⟨leftKey, leftValue, leftWord, leftKeyKnown, leftForced, leftWordKnown⟩ := leftHere
      obtain ⟨rightKey, rightValue, rightWord, rightKeyKnown, rightForced, rightWordKnown⟩ :=
        rightHere
      obtain ⟨keys, keysKnown⟩ := compares _ _ _ _ leftKeyKnown rightKeyKnown
      obtain ⟨values, valuesKnown⟩ :=
        thunkOrder?_of_forced? compares leftForced rightForced leftWordKnown rightWordKnown
      obtain ⟨rest, restKnown⟩ := ih leftKnown rightKnown
      cases keys with
      | lt => exact ⟨.lt, by simp [entriesOrder?, keysKnown]⟩
      | gt => exact ⟨.gt, by simp [entriesOrder?, keysKnown]⟩
      | eq =>
        cases values with
        | eq => exact ⟨rest, by simp [entriesOrder?, keysKnown, valuesKnown, restKnown]⟩
        | lt => exact ⟨.lt, by simp [entriesOrder?, keysKnown, valuesKnown]⟩
        | gt => exact ⟨.gt, by simp [entriesOrder?, keysKnown, valuesKnown]⟩

theorem dictionaryOrder?_of_entriesHash?
    (leftKnown : store.entriesHash? hash left.toList 0 = some leftSum)
    (rightKnown : store.entriesHash? hash right.toList 0 = some rightSum) :
    ∃ outcome, store.dictionaryOrder? order left right = some outcome := by
  have leftDigests := hashesEntry_of_entriesHash? leftKnown
  have rightDigests := hashesEntry_of_entriesHash? rightKnown
  unfold dictionaryOrder?
  split
  · split
    · exact ⟨.eq, rfl⟩
    · have keysCompare : ∀ {entries : List (Value × Thunk)},
          (∀ entry ∈ entries, store.HashesEntry hash entry) →
          ∃ sorted, sortEntries? order [] entries = some sorted := by
        intro entries digests
        refine exists_sortEntries? fun first firstMember second secondMember => ?_
        obtain ⟨firstHash, -, -, firstKnown, -⟩ := digests first firstMember
        obtain ⟨secondHash, -, -, secondKnown, -⟩ := digests second secondMember
        exact compares first.1 second.1 firstHash secondHash firstKnown secondKnown
      obtain ⟨leftSorted, leftSorts⟩ := keysCompare leftDigests
      obtain ⟨rightSorted, rightSorts⟩ := keysCompare rightDigests
      rw [leftSorts, rightSorts]
      refine exists_entriesOrder? compares ?_ ?_
      · exact fun entry mem =>
          leftDigests entry ((sortEntries?_perm leftSorts).mem_iff.mp mem)
      · exact fun entry mem =>
          rightDigests entry ((sortEntries?_perm rightSorts).mem_iff.mp mem)
  · exact ⟨_, rfl⟩

theorem valueOrder?_of_valueHash?
    (comparesLists : ∀ left right leftHashes rightHashes, hashes left = some leftHashes →
      hashes right = some rightHashes →
        ∃ outcome, order (.list left) (.list right) = some outcome) :
    Compares (store.valueOrder? order) (store.valueHash? hash hashes) := by
  intro left right leftHash rightHash leftKnown rightKnown
  cases left with
  | error failure => cases leftKnown
  | list left =>
    cases right with
    | error failure => cases rightKnown
    | list right =>
      obtain ⟨leftWords, leftKnown, -⟩ := bind_eq_some_iff.mp leftKnown
      obtain ⟨rightWords, rightKnown, -⟩ := bind_eq_some_iff.mp rightKnown
      exact listOrder?_of_listHashes? compares comparesLists leftKnown rightKnown
    | _ => exact ⟨_, rfl⟩
  | dictionary left =>
    cases right with
    | error failure => cases rightKnown
    | dictionary right =>
      obtain ⟨leftSum, leftKnown, -⟩ := bind_eq_some_iff.mp leftKnown
      obtain ⟨rightSum, rightKnown, -⟩ := bind_eq_some_iff.mp rightKnown
      exact dictionaryOrder?_of_entriesHash? compares leftKnown rightKnown
    | _ => exact ⟨_, rfl⟩
  | _ =>
    cases right with
    | error failure => cases rightKnown
    | _ => exact ⟨_, rfl⟩

end

end Compares
end Parts

/-- A value that has a hash is evaluated all the way down. -/
theorem solid_of_hash? (store : Store) (bound : Nat) :
    (∀ {value word}, store.hash? bound value = some word → store.Solid value) ∧
      ∀ {list words}, store.hashes? bound list = some words → store.Solid (.list list) := by
  induction bound with
  | zero => exact ⟨fun known => (by cases known), fun known => (by cases known)⟩
  | succ bound ih =>
    obtain ⟨solid, solidLists⟩ := ih
    exact ⟨solid_of_valueHash? solid solidLists, solid_of_listHashes? solid solidLists⟩

/-- Values that have a hash compare, however far down they are read. -/
theorem order?_of_hash? (store : Store) (bound : Nat) :
    Compares (store.order? bound) (store.hash? bound) ∧
      ∀ left right leftHashes rightHashes, store.hashes? bound left = some leftHashes →
        store.hashes? bound right = some rightHashes →
          ∃ outcome, store.order? bound (.list left) (.list right) = some outcome := by
  induction bound with
  | zero => exact ⟨fun _ _ _ _ known => (by cases known), fun _ _ _ _ known => (by cases known)⟩
  | succ bound ih =>
    obtain ⟨compares, comparesLists⟩ := ih
    exact ⟨valueOrder?_of_valueHash? compares comparesLists,
      fun _ _ _ _ => listOrder?_of_listHashes? compares comparesLists⟩

end Store
end ByNeed
