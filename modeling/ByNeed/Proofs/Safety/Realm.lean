import Mathlib.Order.Basic
import ByNeed.Proofs.Dictionary.Trie
import ByNeed.Proofs.Order.Reading
import ByNeed.Proofs.Safety.Mentions

/-!
# What can be reached

The body of an effectful call is suspended in a thunk that only the effect refers to: it is sealed.
All other thunks can be seen, and seeing is kept for good.

A realm is a store together with the nodes of all dictionaries ever made.  In a sound realm
everything leads only to thunks that can be seen, a stamp belongs to one node, and every key has the
hash of its bucket and differs from the others.
-/

namespace ByNeed

open Dictionary (bucket isSame toList)

variable {thunk : Thunk} {value : Value}

/-- Whether a computation is the body of an effectful call. -/
def Suspension.isBody : Suspension → Bool
  | .invoke .. => true
  | _ => false

/-- Whether a slot holds the body of an effectful call that has not begun. -/
def Slot.isSealed : Slot → Bool
  | .suspended computation => computation.isBody
  | _ => false

/-- The moves of a slot, any number of them. -/
inductive Slot.Becomes : Slot → Slot → Prop
  | stay (slot : Slot) : Becomes slot slot
  | claimed (computation : Suspension) (owner : Nat) :
      Becomes (.suspended computation) (.evaluating owner)
  | computed (computation : Suspension) (value : Value) :
      Becomes (.suspended computation) (.evaluated value)
  | published (owner : Nat) (value : Value) :
      Becomes (.evaluating owner) (.evaluated value)

namespace Slot.Becomes

theorem trans {first second third : Slot} (left : first.Becomes second)
    (right : second.Becomes third) : first.Becomes third := by
  cases left with
  | stay => exact right
  | claimed computation owner =>
    cases right with
    | stay => exact .claimed computation owner
    | published => exact .computed computation _
  | computed computation value =>
    cases right
    exact .computed computation value
  | published owner value =>
    cases right
    exact .published owner value

theorem isSealed_eq_false {slot next : Slot} (becomes : slot.Becomes next)
    (unsealed : slot.isSealed = false) : next.isSealed = false := by
  cases becomes with
  | stay => exact unsealed
  | _ => rfl

theorem eq_of_evaluated (becomes : (evaluated value).Becomes next) : next = .evaluated value := by
  cases becomes
  rfl

end Slot.Becomes

namespace Store

/-- A thunk is held, and not as the body of an effectful call that has not begun. -/
def Sees (store : Store) (thunk : Thunk) : Prop :=
  ∃ slot, store.slot? thunk = some slot ∧ slot.isSealed = false

/-- A thunk is held. -/
def Holds (store : Store) (thunk : Thunk) : Prop :=
  ∃ slot, store.slot? thunk = some slot

theorem Sees.holds {store : Store} (sees : store.Sees thunk) : store.Holds thunk :=
  sees.imp fun _ found => found.1

theorem sees_of_evaluated {store : Store}
    (evaluated : store.slot? thunk = some (.evaluated value)) : store.Sees thunk :=
  ⟨_, evaluated, rfl⟩

/-- Two values are known to be unequal. -/
def Differ (store : Store) (left right : Value) : Prop :=
  ∃ bound outcome, store.order? bound left right = some outcome ∧ outcome ≠ .eq

/-- Entries may share a bucket: their keys are known to have its hash, and no two of the
keys are equal. -/
structure Files (store : Store) (hash : UInt64) (entries : List (Value × Thunk)) : Prop where
  hashes : ∀ entry ∈ entries, ∃ bound, store.hash? bound entry.1 = some hash
  apart : entries.Pairwise fun left right => store.Differ left.1 right.1

theorem Differ.mono {earlier later : Store} (differ : earlier.Differ left right)
    (recalls : earlier.Recalls later) : later.Differ left right := by
  obtain ⟨bound, outcome, known, unequal⟩ := differ
  exact ⟨bound, outcome, order?_refines recalls (Nat.le_refl bound) left right outcome known,
    unequal⟩

namespace Files

variable {store : Store} {hash : UInt64} {entries : List (Value × Thunk)}

theorem mono {later : Store} (files : store.Files hash entries) (recalls : store.Recalls later) :
    later.Files hash entries where
  hashes entry mem := by
    obtain ⟨bound, known⟩ := files.hashes entry mem
    exact ⟨bound, (hash?_refines recalls (Nat.le_refl bound)).1 entry.1 hash known⟩
  apart := files.apart.imp fun differ => differ.mono recalls

theorem sublist (files : store.Files hash entries) (sublist : fewer.Sublist entries) :
    store.Files hash fewer where
  hashes entry mem := files.hashes entry (sublist.mem mem)
  apart := files.apart.sublist sublist

theorem append (files : store.Files hash entries) {value : Thunk}
    (known : store.hash? bound key = some hash)
    (differs : ∀ entry ∈ entries, store.Differ entry.1 key) :
    store.Files hash (entries ++ [(key, value)]) where
  hashes := by
    intro entry mem
    rcases List.mem_append.mp mem with earlier | new
    · exact files.hashes entry earlier
    · rw [List.mem_singleton.mp new]
      exact ⟨bound, known⟩
  apart := by
    refine List.pairwise_append.mpr ⟨files.apart, List.pairwise_singleton _ _, ?_⟩
    intro entry mem new isNew
    rw [List.mem_singleton.mp isNew]
    exact differs entry mem

theorem congr {others : List (Value × Thunk)} (files : store.Files hash entries)
    (sameKeys : others.map Prod.fst = entries.map Prod.fst) : store.Files hash others where
  hashes := by
    intro other mem
    have isKey : other.1 ∈ others.map Prod.fst := List.mem_map_of_mem mem
    rw [sameKeys] at isKey
    obtain ⟨entry, entryMember, same⟩ := List.mem_map.mp isKey
    exact same ▸ files.hashes entry entryMember
  apart := by
    have keysApart : (entries.map Prod.fst).Pairwise store.Differ :=
      List.pairwise_map.mpr files.apart
    rw [← sameKeys] at keysApart
    exact List.pairwise_map.mp keysApart

end Files
end Store

/-- A store, with the nodes of the dictionaries made so far. -/
structure Realm where
  store : Store
  nodes : Trie Value Thunk → Prop

namespace Realm

/-- A later realm: slots have moved, and thunks and nodes have been added. -/
structure Later (earlier later : Realm) : Prop where
  slots : ∀ thunk slot, earlier.store.slot? thunk = some slot →
    ∃ next, later.store.slot? thunk = some next ∧ slot.Becomes next
  digest : later.store.digest = earlier.store.digest
  nodes : ∀ trie, earlier.nodes trie → later.nodes trie

instance : Preorder Realm where
  le := Later
  le_refl realm :=
    { slots := fun _ slot held => ⟨slot, held, .stay slot⟩
      digest := rfl
      nodes := fun _ made => made }
  le_trans first second third left right :=
    { slots := fun thunk slot held => by
        obtain ⟨between, betweenHeld, moved⟩ := left.slots thunk slot held
        obtain ⟨next, nextHeld, movedOn⟩ := right.slots thunk between betweenHeld
        exact ⟨next, nextHeld, moved.trans movedOn⟩
      digest := right.digest.trans left.digest
      nodes := fun trie made => right.nodes trie (left.nodes trie made) }

/-- Every thunk of a list can be seen. -/
def SeesAll (realm : Realm) (thunks : List Thunk) : Prop :=
  ∀ thunk ∈ thunks, realm.store.Sees thunk

/-- A dictionary was made in the realm, and its size is the number of its entries. -/
def AdmitsDictionary (realm : Realm) (dict : Dict) : Prop :=
  dict.size = dict.toList.length ∧
    ∀ trie, dict.root = some trie → realm.nodes trie

/-- A value leads only to thunks that can be seen, but an effect may hold a body. -/
def Admits (realm : Realm) : Value → Prop
  | .list cells => realm.SeesAll cells.thunks
  | .dictionary entries => realm.AdmitsDictionary entries
  | .function callee => realm.SeesAll callee.thunks
  | .effect _ payload => realm.store.Holds payload
  | _ => True

/-- What is known of a node of a dictionary. -/
structure IsNode (realm : Realm) (trie : Trie Value Thunk) : Prop where
  stamp_lt : trie.stamp < realm.store.nextIdentity
  wellFormed : trie.WellFormed
  admits_key : ∀ entry ∈ trie.toList, realm.Admits entry.1
  sees_value : ∀ entry ∈ trie.toList, realm.store.Sees entry.2
  files : ∀ hash, realm.store.Files hash (trie.bucket hash)
  sides : ∀ {stamp stem mask low high}, trie = .bin stamp stem mask low high →
    realm.nodes low ∧ realm.nodes high

/-- Everything leads only to thunks that can be seen, and nodes are told apart. -/
structure Sound (realm : Realm) : Prop where
  evaluated : ∀ {thunk value},
    realm.store.slot? thunk = some (.evaluated value) → realm.Admits value
  suspended : ∀ {thunk computation},
    realm.store.slot? thunk = some (.suspended computation) → realm.SeesAll computation.thunks
  mentioned : ∀ {thunk}, realm.store.Mentions thunk → realm.store.Sees thunk
  isNode : ∀ {trie}, realm.nodes trie → realm.IsNode trie
  alike : ∀ {left right}, realm.nodes left → realm.nodes right →
    left.stamp = right.stamp → left = right

section Later

variable {earlier later : Realm}

theorem slot?_of_le (le : earlier ≤ later)
    (evaluated : earlier.store.slot? thunk = some (.evaluated value)) :
    later.store.slot? thunk = some (.evaluated value) := by
  obtain ⟨next, held, becomes⟩ := le.slots thunk _ evaluated
  rwa [becomes.eq_of_evaluated] at held

theorem recalls (le : earlier ≤ later) : earlier.store.Recalls later.store where
  evaluated _ _ evaluated := slot?_of_le le evaluated
  digest := le.digest

end Later
end Realm

theorem Store.Sees.mono {earlier later : Realm} (sees : earlier.store.Sees thunk)
    (le : earlier ≤ later) : later.store.Sees thunk := by
  obtain ⟨slot, held, unsealed⟩ := sees
  obtain ⟨next, nextHeld, becomes⟩ := le.slots thunk slot held
  exact ⟨next, nextHeld, becomes.isSealed_eq_false unsealed⟩

theorem Store.Holds.mono {earlier later : Realm} (holds : earlier.store.Holds thunk)
    (le : earlier ≤ later) : later.store.Holds thunk := by
  obtain ⟨slot, held⟩ := holds
  obtain ⟨next, nextHeld, -⟩ := le.slots thunk slot held
  exact ⟨next, nextHeld⟩

namespace Realm

variable {realm earlier later : Realm}
variable {thunks : List Thunk} {value : Value}

theorem SeesAll.mono (sees : earlier.SeesAll thunks) (le : earlier ≤ later) :
    later.SeesAll thunks :=
  fun thunk mem => (sees thunk mem).mono le

@[simp] theorem seesAll_nil : realm.SeesAll [] := by
  simp [SeesAll]

@[simp] theorem seesAll_cons :
    realm.SeesAll (thunk :: thunks) ↔ realm.store.Sees thunk ∧ realm.SeesAll thunks := by
  simp [SeesAll]

@[simp] theorem seesAll_append :
    realm.SeesAll (left ++ right) ↔ realm.SeesAll left ∧ realm.SeesAll right := by
  simp only [SeesAll, List.mem_append]
  grind

@[simp] theorem seesAll_empty : realm.SeesAll LazyList.empty.thunks :=
  seesAll_nil

@[simp] theorem seesAll_cell : realm.SeesAll (LazyList.cons head tail).thunks ↔
      realm.store.Sees head ∧ realm.store.Sees tail := by
  simp [LazyList.thunks]

theorem SeesAll.subset (sees : realm.SeesAll thunks) (subset : others ⊆ thunks) :
    realm.SeesAll others :=
  fun thunk mem => sees thunk (subset mem)

/-- Names bound to thunks that can be seen bring only such thunks into sight. -/
theorem SeesAll.bindAll {scope : Scope} (sees : realm.SeesAll scope.thunks)
    (seesBound : realm.SeesAll bound) (names : List String) :
    realm.SeesAll (scope.bindAll names bound).thunks := by
  intro thunk mem
  rcases Scope.mem_thunks_bindAll mem with inScope | inBound
  · exact sees thunk inScope
  · exact seesBound thunk inBound

theorem AdmitsDictionary.mono (admits : earlier.AdmitsDictionary dict) (le : earlier ≤ later) :
    later.AdmitsDictionary dict :=
  ⟨admits.1, fun trie root => le.nodes trie (admits.2 trie root)⟩

theorem admitsDictionary_empty : realm.AdmitsDictionary .empty :=
  ⟨rfl, fun _ root => by cases root⟩

theorem Admits.mono (admits : earlier.Admits value) (le : earlier ≤ later) :
    later.Admits value := by
  cases value with
  | list | function => exact SeesAll.mono admits le
  | dictionary entries => exact AdmitsDictionary.mono admits le
  | effect identity payload => exact Store.Holds.mono admits le
  | _ => trivial

/-- An effect that is refused leaves an error, and any other value is kept. -/
theorem Admits.purely (admits : realm.Admits value) : realm.Admits value.purely := by
  cases value <;> first | exact admits | trivial

theorem Admits.through (admits : realm.Admits value) (site : Option Site) :
    realm.Admits (value.through site) := by
  unfold Value.through
  split
  · trivial
  · exact admits

/-- The key of an entry is admitted, and its value can be seen. -/
def AdmitsEntry (realm : Realm) (entry : Value × Thunk) : Prop :=
  realm.Admits entry.1 ∧ realm.store.Sees entry.2

theorem AdmitsEntry.mono {entry : Value × Thunk} (admits : earlier.AdmitsEntry entry)
    (le : earlier ≤ later) : later.AdmitsEntry entry :=
  ⟨admits.1.mono le, admits.2.mono le⟩

namespace AdmitsDictionary

variable {dict : Dict}
variable {entry : Value × Thunk}

section

variable (admits : realm.AdmitsDictionary dict) (sound : realm.Sound)

include admits sound

theorem isNode (root : dict.root = some trie) : realm.IsNode trie :=
  sound.isNode (admits.2 trie root)

theorem wellFormed : ∀ trie, dict.root = some trie → trie.WellFormed :=
  fun _ root => (admits.isNode sound root).wellFormed

theorem entries (mem : entry ∈ dict.toList) : realm.AdmitsEntry entry := by
  unfold toList at mem
  cases root : dict.root with
  | none => simp [root] at mem
  | some trie =>
    rw [root] at mem
    have isNode := admits.isNode sound root
    exact ⟨isNode.admits_key entry mem, isNode.sees_value entry mem⟩

theorem mem_toList_of_mem_bucket
    {hash : UInt64} (mem : entry ∈ dict.bucket hash) : entry ∈ dict.toList := by
  unfold bucket at mem
  unfold toList
  cases root : dict.root with
  | none => simp [root] at mem
  | some trie =>
    rw [root] at mem
    exact (Trie.mem_toList (admits.wellFormed sound trie root) entry).mpr ⟨hash, mem⟩

theorem bucketEntries {hash : UInt64} (mem : entry ∈ dict.bucket hash) : realm.AdmitsEntry entry :=
  admits.entries sound (admits.mem_toList_of_mem_bucket sound mem)

theorem files (hash : UInt64) : realm.store.Files hash (dict.bucket hash) := by
  unfold bucket
  cases root : dict.root with
  | none => exact ⟨fun _ mem => absurd mem List.not_mem_nil, .nil⟩
  | some trie => exact (admits.isNode sound root).files hash

end

/-- Dictionaries that pass for the very same are equal. -/
theorem eq_of_isSame (sound : realm.Sound) (leftAdmits : realm.AdmitsDictionary left)
    (rightAdmits : realm.AdmitsDictionary right) (sameSize : left.size = right.size)
    (same : left.isSame right = true) : left = right := by
  obtain ⟨leftSize, leftRoot⟩ := left
  obtain ⟨rightSize, rightRoot⟩ := right
  obtain rfl : leftSize = rightSize := sameSize
  cases leftRoot with
  | none =>
    cases rightRoot with
    | none => rfl
    | some rightTrie => simp [isSame] at same
  | some leftTrie =>
    cases rightRoot with
    | none => simp [isSame] at same
    | some rightTrie =>
      simp only [isSame, Trie.isSame, beq_iff_eq] at same
      rw [sound.alike (leftAdmits.2 leftTrie rfl) (rightAdmits.2 rightTrie rfl) same]

end AdmitsDictionary
end Realm
end ByNeed
