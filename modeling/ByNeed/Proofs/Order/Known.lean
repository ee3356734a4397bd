import ByNeed.Proofs.Dictionary.Settled
import ByNeed.Proofs.Order.Reading

/-!
# What can be read is returned

Where an order or a hash can be read off a store, comparing and hashing return it and evaluate
nothing.  A value that is no error equals itself in every store.
-/

namespace ByNeed

open LazyList Option Store

variable {self : Nat} {store : Store}
variable {outcome : Ordering} {value : Value} {entries : List (Value × Thunk)}

namespace Attempt

theorem returns_force_of_forced? (known : store.forced? thunk = some value) :
    Returns self (ExceptT.lift (force thunk)) store value store := by
  unfold forced? at known
  split at known
  · rename_i held
    cases known
    exact returns_force (slot_eq_of_slot? held)
  · contradiction

theorem returns_forceList_of_forcedList? (known : store.forcedList? thunk = some cells) :
    (forceList thunk).Returns self store cells store := by
  unfold forcedList? at known
  split at known
  · rename_i forced
    cases known
    exact (returns_force_of_forced? forced).bind (returns_pure cells store)
  · contradiction

end Attempt

open Attempt

/-! ## Comparing -/

section Compare

variable {order : Value → Value → Option Ordering}
  (compares : ∀ {left right outcome}, order left right = some outcome →
    (compareValues left right).Returns self store outcome store)

include compares

theorem compareThunks_returns (known : store.thunkOrder? order left right = some outcome) :
    (compareThunks left right).Returns self store outcome store := by
  unfold thunkOrder? at known
  unfold compareThunks
  by_cases same : left = right
  · rw [if_pos same] at known ⊢
    cases known
    exact returns_pure _ store
  · rw [if_neg same] at known ⊢
    obtain ⟨leftValue, leftForced, known⟩ := bind_eq_some_iff.mp known
    obtain ⟨rightValue, rightForced, known⟩ := bind_eq_some_iff.mp known
    exact (returns_force_of_forced? leftForced).bind
      ((returns_force_of_forced? rightForced).bind (compares known))

theorem LazyList.compare_returns
    (comparesLists : ∀ {left right outcome}, order (.list left) (.list right) = some outcome →
      Returns self (.ofCode (.call (.compareLists left right) .done)) store outcome store)
    (known : store.listOrder? order left right = some outcome) :
    (left.compare right).Returns self store outcome store := by
  cases left with
  | empty =>
    cases right <;> cases known <;> exact returns_pure _ store
  | cons leftHead leftTail =>
    cases right with
    | empty =>
      cases known
      exact returns_pure _ store
    | cons rightHead rightTail =>
      obtain ⟨headOutcome, headKnown, known⟩ := bind_eq_some_iff.mp known
      refine (compareThunks_returns compares headKnown).bind ?_
      cases headOutcome with
      | eq =>
        dsimp only [tailOrder?] at known ⊢
        by_cases same : leftTail = rightTail
        · rw [if_pos same] at known ⊢
          cases known
          exact returns_pure _ store
        · rw [if_neg same] at known ⊢
          obtain ⟨leftList, leftForced, known⟩ := bind_eq_some_iff.mp known
          obtain ⟨rightList, rightForced, known⟩ := bind_eq_some_iff.mp known
          exact (returns_forceList_of_forcedList? leftForced).bind
            ((returns_forceList_of_forcedList? rightForced).bind (comparesLists known))
      | _ =>
        cases known
        exact returns_pure _ store

namespace Dictionary

theorem insertSorted_returns
    (known : insertSorted? order entry passed entries = some result) :
    (insertSorted entry passed entries).Returns self store result store := by
  induction entries generalizing passed with
  | nil =>
    cases known
    exact returns_pure _ store
  | cons other rest ih =>
    obtain ⟨outcome, keyKnown, known⟩ := bind_eq_some_iff.mp known
    refine (compares keyKnown).bind ?_
    cases outcome with
    | gt =>
      cases known
      exact returns_pure _ store
    | lt | eq => exact ih known

theorem sortEntries_returns (known : sortEntries? order sorted entries = some result) :
    (sortEntries sorted entries).Returns self store result store := by
  induction entries generalizing sorted with
  | nil =>
    cases known
    exact returns_pure _ store
  | cons entry rest ih =>
    obtain ⟨between, inserted, known⟩ := bind_eq_some_iff.mp known
    exact (insertSorted_returns compares inserted).bind (ih known)

theorem compareEntries_returns (known : store.entriesOrder? order left right = some outcome) :
    (compareEntries left right).Returns self store outcome store := by
  induction left generalizing right with
  | nil =>
    cases known
    exact returns_pure _ store
  | cons leftEntry left ih =>
    cases right with
    | nil =>
      cases known
      exact returns_pure _ store
    | cons rightEntry right =>
      obtain ⟨keyOutcome, keyKnown, known⟩ := bind_eq_some_iff.mp known
      refine (compares keyKnown).bind ?_
      cases keyOutcome with
      | eq =>
        obtain ⟨valueOutcome, valueKnown, known⟩ := bind_eq_some_iff.mp known
        refine (compareThunks_returns compares valueKnown).bind ?_
        cases valueOutcome with
        | eq => exact ih known
        | _ =>
          cases known
          exact returns_pure _ store
      | _ =>
        cases known
        exact returns_pure _ store

theorem compare_returns (known : store.dictionaryOrder? order left right = some outcome) :
    (left.compare right).Returns self store outcome store := by
  unfold dictionaryOrder? at known
  unfold Dictionary.compare
  generalize Ord.compare left.size right.size = sizes at known ⊢
  cases sizes with
  | eq =>
    dsimp only at known ⊢
    by_cases same : left.isSame right = true
    · rw [if_pos same] at known ⊢
      cases known
      exact returns_pure _ store
    · rw [if_neg same] at known ⊢
      obtain ⟨leftEntries, leftSorts, known⟩ := bind_eq_some_iff.mp known
      obtain ⟨rightEntries, rightSorts, known⟩ := bind_eq_some_iff.mp known
      exact (sortEntries_returns compares leftSorts).bind
        ((sortEntries_returns compares rightSorts).bind (compareEntries_returns compares known))
  | _ =>
    cases known
    exact returns_pure _ store

end Dictionary

theorem Value.compare_returns
    (comparesLists : ∀ {left right outcome}, order (.list left) (.list right) = some outcome →
      Returns self (.ofCode (.call (.compareLists left right) .done)) store outcome store)
    (known : store.valueOrder? order left right = some outcome) :
    (left.compare right).Returns self store outcome store := by
  cases left with
  | list left =>
    cases right with
    | list right => exact left.compare_returns compares comparesLists known
    | error => cases known
    | _ =>
      cases known
      exact returns_pure _ store
  | dictionary left =>
    cases right with
    | dictionary right => exact Dictionary.compare_returns compares known
    | error => cases known
    | _ =>
      cases known
      exact returns_pure _ store
  | error => cases known
  | _ => cases right <;> cases known <;> exact returns_pure _ store

end Compare

/-- An order that can be read is returned. -/
theorem returns_of_order? (self : Nat) (store : Store) (bound : Nat) :
    (∀ {left right outcome}, store.order? bound left right = some outcome →
      (compareValues left right).Returns self store outcome store) ∧
    ∀ {left right outcome}, store.order? bound (.list left) (.list right) = some outcome →
      Returns self (.ofCode (.call (.compareLists left right) .done)) store outcome store := by
  induction bound with
  | zero => exact ⟨fun known => (by cases known), fun known => (by cases known)⟩
  | succ bound ih =>
    obtain ⟨compares, comparesLists⟩ := ih
    exact ⟨fun known =>
        returns_compareValues (Value.compare_returns compares comparesLists known),
      fun known =>
        returns_compareLists (compare_returns compares comparesLists known)⟩

theorem returns_compare_self [Ord α] [Std.ReflCmp (compare : α → α → Ordering)] (key : α) :
    (pure (compare key key) : Attempt Ordering).Returns self store .eq store := by
  rw [show compare key key = .eq from Std.ReflCmp.compare_self]
  exact returns_pure _ store

/-- A value that is no error equals itself, and nothing is evaluated to tell. -/
theorem compareValues_self_returns (self : Nat) (store : Store)
    (noError : ∀ failure, value ≠ .error failure) :
    (compareValues value value).Returns self store .eq store := by
  apply returns_compareValues
  cases value with
  | error failure => exact absurd rfl (noError failure)
  | list cells =>
    cases cells with
    | empty => exact returns_pure _ store
    | cons head tail =>
      have heads : (compareThunks head head).Returns self store .eq store := by
        unfold compareThunks
        rw [if_pos rfl]
        exact returns_pure _ store
      refine heads.bind ?_
      dsimp only
      rw [if_pos rfl]
      exact returns_pure _ store
  | dictionary entries =>
    change (Dictionary.compare entries entries).Returns self store .eq store
    unfold Dictionary.compare
    rw [Nat.compare_eq_eq.mpr rfl]
    dsimp only
    rw [if_pos entries.isSame_self]
    exact returns_pure _ store
  | nil => exact returns_pure _ store
  | boolean truth => exact returns_compare_self truth
  | number x => exact returns_compare_self (Number.key x)
  | string text => exact returns_compare_self text
  | function callee => exact returns_compare_self callee.identity
  | effect identity payload => exact returns_compare_self identity

/-! ## Hashing -/

section Hash

variable {hash : Value → Option UInt64} {hashes : LazyList → Option (List UInt64)}
  (digests : ∀ {value word}, hash value = some word →
    (hashValue value).Returns self store word store)

include digests

theorem Dictionary.hashEntries_returns (known : store.entriesHash? hash entries sum = some total) :
    (hashEntries entries sum).Returns self store total store := by
  induction entries generalizing sum with
  | nil =>
    cases known
    exact returns_pure _ store
  | cons entry rest ih =>
    obtain ⟨entryHash, entryKnown, known⟩ := bind_eq_some_iff.mp known
    obtain ⟨keyHash, keyKnown, entryKnown⟩ := bind_eq_some_iff.mp entryKnown
    obtain ⟨valueHash, valueKnown, entryKnown⟩ := bind_eq_some_iff.mp entryKnown
    obtain ⟨value, forced, valueKnown⟩ := bind_eq_some_iff.mp valueKnown
    cases entryKnown
    exact (digests keyKnown).bind ((returns_force_of_forced? forced).bind
      ((digests valueKnown).bind ((Value.Has.digest_returns _).bind (ih known))))

variable (digestsLists : ∀ {list words}, hashes list = some words →
  Returns self (.ofCode (.call (.hashElements list) .done)) store words store)

include digestsLists

theorem LazyList.hashes_returns (known : store.listHashes? hash hashes list = some words) :
    list.hashes.Returns self store words store := by
  cases list with
  | empty =>
    cases known
    exact returns_pure _ store
  | cons head tail =>
    obtain ⟨headHash, headKnown, known⟩ := bind_eq_some_iff.mp known
    obtain ⟨value, forced, headKnown⟩ := bind_eq_some_iff.mp headKnown
    obtain ⟨rest, restForced, known⟩ := bind_eq_some_iff.mp known
    obtain ⟨tailHashes, tailKnown, known⟩ := bind_eq_some_iff.mp known
    cases known
    exact (returns_force_of_forced? forced).bind ((digests headKnown).bind
      ((returns_forceList_of_forcedList? restForced).bind
        ((digestsLists tailKnown).bind (returns_pure _ store))))

theorem Value.hash_returns (known : store.valueHash? hash hashes value = some word) :
    value.hash.Returns self store word store := by
  cases value with
  | list cells =>
    obtain ⟨words, wordsKnown, known⟩ := bind_eq_some_iff.mp known
    cases known
    exact (hashes_returns digests digestsLists wordsKnown).bind
      (Value.Has.digest_returns _)
  | dictionary entries =>
    obtain ⟨total, totalKnown, known⟩ := bind_eq_some_iff.mp known
    cases known
    exact (Dictionary.hashEntries_returns digests totalKnown).bind (Value.Has.digest_returns _)
  | error failure => cases known
  | _ =>
    cases known
    exact Value.Has.digest_returns _

end Hash

/-- A hash that can be read is returned. -/
theorem returns_of_hash? (self : Nat) (store : Store) (bound : Nat) :
    (∀ {value word}, store.hash? bound value = some word →
      (hashValue value).Returns self store word store) ∧
    ∀ {list words}, store.hashes? bound list = some words →
      Returns self (.ofCode (.call (.hashElements list) .done)) store words store := by
  induction bound with
  | zero => exact ⟨fun known => (by cases known), fun known => (by cases known)⟩
  | succ bound ih =>
    obtain ⟨digests, digestsLists⟩ := ih
    exact ⟨fun known => returns_hashValue (Value.hash_returns digests digestsLists known),
      fun known => returns_hashElements (hashes_returns digests digestsLists known)⟩

end ByNeed
