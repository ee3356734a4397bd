import ByNeed.Proofs.Dictionary.Refinement
import ByNeed.Proofs.Dictionary.Union

/-!
# The shape of tries

Where a trie branches is settled by the hashes that are stored, so how it was built cannot be told
from its skeleton.
-/

namespace ByNeed
namespace Trie

variable {κ ν : Type} {space : KeySpace κ} {trie : Trie κ ν}

/-- Hashes have the bits of a stem above a place, and there the bit of their side. -/
def Continue (stem : UInt64) (place : Nat) (side : Bool) (hashes : List UInt64) : Prop :=
  ∀ hash ∈ hashes, (∀ i, place < i → hash.toNat.testBit i = stem.toNat.testBit i) ∧
    hash.toNat.testBit place = side

/-- Tips hold entries of their hash, no two with equal keys.  The mask of a branch is one bit, and
the stem has only bits above it.  The hashes on either side continue the stem, with the bit at the
mask clear on the one and set on the other. -/
inductive Shaped (space : KeySpace κ) : Trie κ ν → Prop
  | tip (stamp : Nat) {hash : UInt64} {entries : List (κ × ν)} (nonempty : entries ≠ [])
      (hash_eq : ∀ entry ∈ entries, space.hash entry.1 = hash) (apart : space.Apart entries) :
      Shaped space (.tip stamp hash entries)
  | bin (stamp : Nat) {stem mask : UInt64} {low high : Trie κ ν} {place : Nat}
      (bit : place < 64 ∧ mask.toNat = 2 ^ place)
      (clear : ∀ i ≤ place, stem.toNat.testBit i = false)
      (lowSide : Continue stem place false low.hashes)
      (highSide : Continue stem place true high.hashes)
      (lowShaped : Shaped space low) (highShaped : Shaped space high) :
      Shaped space (.bin stamp stem mask low high)

/-- Entries are in the bucket of their hash, and no two there have equal keys. -/
def Filed (space : KeySpace κ) (trie : Trie κ ν) : Prop :=
  ∀ hash, (∀ entry ∈ trie.bucket hash, space.hash entry.1 = hash) ∧ space.Apart (trie.bucket hash)

theorem above_eq_iff (bit : IsBitAt mask place) (hash stem : UInt64) :
    above hash mask = stem ↔ (∀ i ≤ place, stem.toNat.testBit i = false) ∧
      ∀ i, place < i → hash.toNat.testBit i = stem.toNat.testBit i := by
  constructor
  · rintro rfl
    simp only [testBit_above bit]
    grind
  · rintro ⟨clear, shares⟩
    apply UInt64.toNat_inj.mp
    apply Nat.eq_of_testBit_eq
    intro i
    rw [testBit_above bit]
    by_cases less : place < i
    · simp [less, shares i less]
    · simp [less, clear i (by omega)]

theorem onSide_iff (bit : IsBitAt mask place) :
    trie.OnSide stem mask side ↔
      (∀ i ≤ place, stem.toNat.testBit i = false) ∧ Continue stem place side trie.hashes := by
  simp only [OnSide, above_eq_iff bit, hasBit_eq_testBit bit]
  obtain ⟨found, present⟩ := exists_mem_hashes trie
  exact ⟨fun onSide => ⟨(onSide found present).1.1, fun hash mem => (onSide hash mem).imp_left
    And.right⟩, fun ⟨clear, continues⟩ hash mem => (continues hash mem).imp_left (⟨clear, ·⟩)⟩

theorem shaped_iff : trie.Shaped space ↔ trie.WellFormed ∧ trie.Filed space := by
  constructor
  · intro shaped
    induction shaped with
    | tip stamp nonempty hash_eq apart =>
      refine ⟨.tip stamp _ nonempty, fun hash => ?_⟩
      rw [bucket_tip]
      split
      · rename_i same
        exact same ▸ ⟨hash_eq, apart⟩
      · exact ⟨by simp, .nil⟩
    | bin stamp bit clear lowSide highSide _ _ lowIh highIh =>
      refine ⟨.bin stamp ⟨_, bit⟩ ((onSide_iff bit).mpr ⟨clear, lowSide⟩)
        ((onSide_iff bit).mpr ⟨clear, highSide⟩) lowIh.1 highIh.1, fun hash => ?_⟩
      rw [bucket]
      split
      · split
        · exact highIh.2 hash
        · exact lowIh.2 hash
      · exact ⟨by simp, .nil⟩
  · rintro ⟨formed, filed⟩
    induction formed with
    | tip stamp hash nonempty =>
      obtain ⟨hash_eq, apart⟩ := filed hash
      rw [bucket_tip, if_pos rfl] at hash_eq apart
      exact .tip stamp nonempty hash_eq apart
    | bin stamp bit lowSide highSide _ _ lowIh highIh =>
      simp only [Filed, bucket_bin lowSide highSide, List.mem_append] at filed
      obtain ⟨place, bit⟩ := bit
      rw [onSide_iff bit] at lowSide highSide
      refine .bin stamp bit lowSide.1 lowSide.2 highSide.2 (lowIh fun hash => ?_)
        (highIh fun hash => ?_)
      · exact ⟨fun entry mem => (filed hash).1 entry (.inl mem),
          (filed hash).2.sublist (List.sublist_append_left _ _)⟩
      · exact ⟨fun entry mem => (filed hash).1 entry (.inr mem),
          (filed hash).2.sublist (List.sublist_append_right _ _)⟩

/-! ## Skeletons -/

/-- The tips and branches of a trie. -/
inductive Skeleton where
  | tip (hash : UInt64)
  | bin (stem mask : UInt64) (low high : Skeleton)

def skeleton : Trie κ ν → Skeleton
  | .tip _ hash _ => .tip hash
  | .bin _ stem mask low high => .bin stem mask low.skeleton high.skeleton

theorem Shaped.mem_hashes_iff (shaped : trie.Shaped space) (hash : UInt64) :
    hash ∈ trie.hashes ↔ ∃ entry ∈ trie.toList, space.hash entry.1 = hash := by
  induction shaped with
  | tip stamp nonempty hash_eq =>
    obtain ⟨first, present⟩ := List.exists_mem_of_ne_nil _ nonempty
    rw [hashes_tip, List.mem_singleton, toList_tip]
    constructor
    · rintro rfl
      exact ⟨first, present, hash_eq first present⟩
    · rintro ⟨entry, mem, rfl⟩
      exact hash_eq entry mem
  | bin _ _ _ _ _ _ _ lowIh highIh =>
    simp only [hashes_bin, toList_bin, List.mem_append, lowIh, highIh, or_and_right,
      exists_or]

section Sides

variable {low high : Trie κ ν} {stem other : UInt64} {place bound : Nat}
variable (lowSide : Continue stem place false low.hashes)
  (highSide : Continue stem place true high.hashes)

include lowSide highSide

theorem mem_hashes_side (hash : UInt64) :
    (hash ∈ low.hashes ↔ hash ∈ low.hashes ++ high.hashes ∧ hash.toNat.testBit place = false) ∧
    (hash ∈ high.hashes ↔ hash ∈ low.hashes ++ high.hashes ∧ hash.toNat.testBit place = true) := by
  have onLow := lowSide hash
  have onHigh := highSide hash
  grind

/-- Hashes that agree above a place do not branch above it. -/
theorem place_le (agree : ∀ hash ∈ low.hashes ++ high.hashes, ∀ i, bound < i →
      hash.toNat.testBit i = other.toNat.testBit i) : place ≤ bound := by
  obtain ⟨left, inLow⟩ := exists_mem_hashes low
  obtain ⟨right, inHigh⟩ := exists_mem_hashes high
  by_contra less
  have leftAgrees := agree left (List.mem_append_left _ inLow) place (by omega)
  have rightAgrees := agree right (List.mem_append_right _ inHigh) place (by omega)
  rw [(lowSide left inLow).2] at leftAgrees
  rw [(highSide right inHigh).2, ← leftAgrees] at rightAgrees
  contradiction

theorem agree_above {hash : UInt64} (mem : hash ∈ low.hashes ++ high.hashes) (i : Nat)
    (less : place < i) : hash.toNat.testBit i = stem.toNat.testBit i := by
  rcases List.mem_append.mp mem with mem | mem
  · exact (lowSide hash mem).1 i less
  · exact (highSide hash mem).1 i less

/-- The hashes on two sides are not all the same. -/
theorem hashes_ne_singleton (hash : UInt64) :
    ¬ ∀ found, found ∈ low.hashes ++ high.hashes ↔ found = hash := by
  intro single
  have agree : ∀ found ∈ low.hashes ++ high.hashes, found = hash := fun _ => (single _).mp
  obtain ⟨left, inLow⟩ := exists_mem_hashes low
  obtain ⟨right, inHigh⟩ := exists_mem_hashes high
  have clear := (lowSide left inLow).2
  rw [agree left (List.mem_append_left _ inLow), ← agree right (List.mem_append_right _ inHigh),
    (highSide right inHigh).2] at clear
  contradiction

end Sides

/-- Where a trie branches is settled by its hashes. -/
theorem Shaped.skeleton_eq {left right : Trie κ ν} (leftShaped : left.Shaped space)
    (rightShaped : right.Shaped space) (same : ∀ hash, hash ∈ left.hashes ↔ hash ∈ right.hashes) :
    left.skeleton = right.skeleton := by
  induction leftShaped generalizing right with
  | @tip _ hash =>
    simp only [hashes_tip, List.mem_singleton] at same
    cases rightShaped with
    | tip => rw [skeleton, skeleton, List.mem_singleton.mp ((same hash).mp rfl)]
    | bin _ _ _ lowSide highSide =>
      exact absurd (fun found => (same found).symm) (hashes_ne_singleton lowSide highSide hash)
  | @bin _ stem _ low high place bit clear lowSide highSide _ _ lowIh highIh =>
    cases rightShaped with
    | @tip _ hash =>
      simp only [hashes_tip, List.mem_singleton] at same
      exact absurd same (hashes_ne_singleton lowSide highSide hash)
    | @bin _ otherStem _ _ _ _ otherBit otherClear otherLow otherHigh lowShaped highShaped =>
      simp only [hashes_bin] at same
      -- Each place is the highest one where two of the hashes differ.
      obtain rfl := Nat.le_antisymm
        (place_le lowSide highSide fun hash mem =>
          agree_above otherLow otherHigh ((same hash).mp mem))
        (place_le otherLow otherHigh fun hash mem =>
          agree_above lowSide highSide ((same hash).mpr mem))
      have sameMask := UInt64.toNat_inj.mp (bit.2.trans otherBit.2.symm)
      obtain ⟨found, mem⟩ := exists_mem_hashes (.bin 0 stem 0 low high)
      have sameStem : stem = otherStem :=
        ((above_eq_iff bit found stem).mpr ⟨clear, agree_above lowSide highSide mem⟩).symm.trans
          ((above_eq_iff bit found otherStem).mpr
            ⟨otherClear, agree_above otherLow otherHigh ((same found).mp mem)⟩)
      have sides := mem_hashes_side lowSide highSide
      have otherSides := mem_hashes_side otherLow otherHigh
      rw [skeleton, skeleton, sameMask, sameStem,
        lowIh lowShaped fun hash => by rw [(sides hash).1, (otherSides hash).1, same],
        highIh highShaped fun hash => by rw [(sides hash).2, (otherSides hash).2, same]]

end Trie

namespace Dictionary

variable {κ ν : Type} {space : KeySpace κ} {dict later other : Dictionary κ ν}

/-- The trie of a dictionary is shaped, and the size is the number of its entries. -/
def Shaped (space : KeySpace κ) (dict : Dictionary κ ν) : Prop :=
  (∀ trie ∈ dict.root, trie.Shaped space) ∧ dict.size = dict.toList.length

theorem shaped_iff : dict.Shaped space ↔ dict.Valid space := by
  obtain ⟨size, root⟩ := dict
  cases root with
  | none =>
    refine ⟨fun shaped => ⟨by simp, by simp [bucket], fun _ => .nil, shaped.2⟩,
      fun valid => ⟨by simp, valid.size_eq⟩⟩
  | some trie =>
    simp only [Shaped, Option.mem_some_iff, forall_eq', Trie.shaped_iff, Trie.Filed]
    constructor
    · rintro ⟨⟨formed, filed⟩, size_eq⟩
      exact ⟨by simpa using formed, fun hash => (filed hash).1, fun hash => (filed hash).2, size_eq⟩
    · exact fun valid => ⟨⟨valid.wellFormed trie rfl, fun hash =>
        ⟨valid.hash_eq hash, valid.apart hash⟩⟩, valid.size_eq⟩

theorem Shaped.skeleton_eq (shaped : dict.Shaped space) (otherShaped : other.Shaped space)
    (same : ∀ hash, (∃ entry ∈ dict.toList, space.hash entry.1 = hash) ↔
      ∃ entry ∈ other.toList, space.hash entry.1 = hash) :
    dict.root.map Trie.skeleton = other.root.map Trie.skeleton := by
  obtain ⟨size, root⟩ := dict
  obtain ⟨otherSize, otherRoot⟩ := other
  obtain ⟨shaped, -⟩ := shaped
  obtain ⟨otherShaped, -⟩ := otherShaped
  cases root with
  | none =>
    cases otherRoot with
    | none => rfl
    | some trie =>
      obtain ⟨hash, mem⟩ := trie.exists_mem_hashes
      have present := (same hash).mpr (((otherShaped trie rfl).mem_hashes_iff hash).mp mem)
      simp [toList] at present
  | some trie =>
    have mem_iff := (shaped trie rfl).mem_hashes_iff
    cases otherRoot with
    | none =>
      obtain ⟨hash, mem⟩ := trie.exists_mem_hashes
      have present := (same hash).mp ((mem_iff hash).mp mem)
      simp [toList] at present
    | some otherTrie =>
      have otherMem_iff := (otherShaped otherTrie rfl).mem_hashes_iff
      have skeletons := (shaped trie rfl).skeleton_eq (otherShaped otherTrie rfl)
        fun hash => (mem_iff hash).trans ((same hash).trans (otherMem_iff hash).symm)
      exact congrArg some skeletons

section Valid

variable (valid : dict.Valid space)

include valid

/-- A valid dictionary is what writing its entries leaves. -/
theorem Valid.represents_toList :
    dict.Represents space (History.empty.writeAll dict.toList) where
  valid := valid
  entriesFor_eq key := by
    have apart : space.Apart dict.toList := by
      obtain ⟨size, root⟩ := dict
      cases root with
      | none => exact .nil
      | some trie =>
        refine Trie.pairwise_toList (valid.wellFormed trie rfl) valid.apart ?_
        intro left right hash other leftMember rightMember ne
        rw [← Bool.not_eq_true]
        intro equal
        have same := space.hash_eq equal
        rw [valid.hash_eq hash left leftMember, valid.hash_eq other right rightMember] at same
        exact ne same
    rw [History.toList_lookup_writeAll apart, entriesFor]

theorem Valid.size_eq_zero_iff : dict.size = 0 ↔ dict.root = none := by
  obtain ⟨size, root⟩ := dict
  cases root with
  | none => exact iff_of_true valid.size_eq rfl
  | some trie =>
    obtain ⟨hash, mem⟩ := trie.exists_mem_hashes
    obtain ⟨shaped, -⟩ := shaped_iff.mpr valid
    obtain ⟨entry, present, -⟩ := ((shaped trie rfl).mem_hashes_iff hash).mp mem
    have positive := List.length_pos_of_mem present
    have size_eq : size = trie.toList.length := valid.size_eq
    simp only [reduceCtorEq, iff_false]
    omega

/-- Discarding a key that is there makes a dictionary smaller by one and gives it another root. -/
theorem Valid.discards_cases (discards : dict.Discards space key later) :
    (∀ entry ∈ dict.toList, space.equal entry.1 key = false) ∧ later = dict ∨
      (∃ entry ∈ dict.toList, space.equal entry.1 key = true) ∧ later.size + 1 = dict.size ∧
        later.isSame dict = false := by
  have represents := valid.represents_toList
  have present_iff := represents.isSome_lookup_iff key
  rw [Discards] at discards
  cases found : (dict.bucket (space.hash key)).findIdx? (space.isFor key) with
  | none =>
    rw [found] at discards
    rw [represents.lookup_eq_none found] at present_iff
    refine .inl ⟨fun entry mem => ?_, discards⟩
    rw [← Bool.not_eq_true]
    exact fun equal => by simpa using present_iff.mpr ⟨_, List.mem_map_of_mem mem, equal⟩
  | some position =>
    rw [found] at discards
    obtain ⟨-, entry, -, -, -, -, lookup_eq⟩ := represents.lookup_eq_some found
    obtain ⟨mem, equal⟩ := represents.exists_of_lookup lookup_eq
    exact .inr ⟨⟨entry, mem, equal⟩, discards.2⟩

end Valid
end Dictionary

namespace Keys

/-- A dictionary is shaped, its keys are hashable, and its nodes were made in the store. -/
structure Shaped (keys : Keys number) (store : Store) (dict : Dict) : Prop where
  shaped : dict.Shaped keys.toKeySpace
  hashable : ∀ entry ∈ dict.toList, keys.Hashable entry.1
  stamped : dict.Stamped store.nextIdentity

variable {number : Nat} {keys : Keys number} {dict : Dict} {history : History Value Thunk}
variable {store : Store}

theorem Shaped.holds (shaped : keys.Shaped store dict) :
    keys.Holds dict (History.empty.writeAll dict.toList) where
  represents := (Dictionary.shaped_iff.mp shaped.shaped).represents_toList
  hashable := History.All.writeAll trivial shaped.hashable

theorem Holds.shaped (holds : keys.Holds dict history) (stamped : dict.Stamped store.nextIdentity) :
    keys.Shaped store dict where
  shaped := Dictionary.shaped_iff.mpr holds.represents.valid
  hashable _ mem := holds.hashable_toList mem
  stamped := stamped

end Keys

/-- Assigning and removing keep tries in shape, whatever the hashes of the keys are.  The size is
the number of entries, and it is zero just when there is no root.  Removing a key leaves the same
root just when the key is absent, and otherwise one entry less.  Dictionaries whose keys have the
same hashes have the same skeleton. -/
theorem tries_keep_their_shape (keys : Keys number) {store : Store} {dictionary : Dict}
    (usable : keys.Usable store)
    (shaped : keys.Shaped store dictionary) :
    keys.Shaped store .empty ∧
    (∀ key value, keys.Hashable key →
      keys.Yields store (dictionary.insert key value) keys.Shaped) ∧
    (∀ key, keys.Hashable key →
      keys.Yields store (dictionary.remove key) fun after later =>
        keys.Shaped after later ∧
        (later.isSame dictionary = true ↔
          ∀ entry ∈ dictionary.toList, keys.equal entry.1 key = false) ∧
        (later.root = dictionary.root ↔
          ∀ entry ∈ dictionary.toList, keys.equal entry.1 key = false) ∧
        ((∃ entry ∈ dictionary.toList, keys.equal entry.1 key = true) →
          later.size + 1 = dictionary.size)) ∧
    (∀ after, store.nextIdentity ≤ after.nextIdentity → keys.Shaped after dictionary) ∧
    (dictionary.size = dictionary.toList.length ∧
      (dictionary.size = 0 ↔ dictionary.root = none)) ∧
    ∀ other after, keys.Shaped after other →
      (∀ hash, (∃ entry ∈ dictionary.toList, keys.hash entry.1 = hash) ↔
        ∃ entry ∈ other.toList, keys.hash entry.1 = hash) →
      dictionary.root.map Trie.skeleton = other.root.map Trie.skeleton := by
  have holds := shaped.holds
  have valid := holds.represents.valid
  have emptyHolds : keys.Holds .empty .empty := ⟨.empty keys.toKeySpace, trivial⟩
  refine ⟨emptyHolds.shaped Dictionary.stamped_empty, ?_, ?_, ?_,
    ⟨valid.size_eq, valid.size_eq_zero_iff⟩, ?_⟩
  · intro key value hashable
    apply (holds.yields_insert usable hashable value).mono
    rintro after later - ⟨laterHolds, laterStamped⟩
    exact laterHolds.shaped (laterStamped shaped.stamped)
  · intro key hashable
    apply (Keys.yields_discards usable valid holds.hashable_bucket hashable shaped.stamped).mono
    rintro after later - ⟨discards, laterStamped⟩
    have laterHolds : keys.Holds later _ :=
      ⟨holds.represents.discards discards, hashable, holds.hashable⟩
    refine ⟨laterHolds.shaped laterStamped, ?_⟩
    rcases valid.discards_cases discards with ⟨absent, rfl⟩ | ⟨present, smaller, differs⟩
    · refine ⟨iff_of_true later.isSame_self absent, iff_of_true rfl absent, ?_⟩
      rintro ⟨entry, mem, equal⟩
      simp [absent entry mem] at equal
    · have notAbsent : ¬∀ entry ∈ dictionary.toList, keys.equal entry.1 key = false := by
        simpa using present
      refine ⟨iff_of_false (by simp [differs]) notAbsent, iff_of_false ?_ notAbsent,
        fun _ => smaller⟩
      intro sameRoot
      have sizes := laterHolds.represents.valid.size_eq
      rw [Dictionary.toList, sameRoot, ← Dictionary.toList, ← valid.size_eq] at sizes
      omega
  · exact fun after le => holds.shaped (shaped.stamped.mono le)
  · intro other after otherShaped
    exact shaped.shaped.skeleton_eq otherShaped.shaped

/-- A store whose digest has the highest bit for all keys but one. -/
def partedStore : Store where
  nextIdentity := 3
  digest pieces := if pieces = [.word 0] then 0 else 0x8000000000000000

/-- Two keys share a hash, and a branch at the highest bit tells them from a third one. -/
def partedDictionary : Dict where
  size := 3
  root := some (.bin 2 0 0x8000000000000000 (.tip 0 0 [(.nil, ⟨0⟩)])
    (.tip 1 0x8000000000000000 [(.boolean true, ⟨1⟩), (.boolean false, ⟨2⟩)]))

theorem partedDictionary_keeps_its_shape :
    (partedStore.settledKeys 0).Shaped partedStore partedDictionary ∧
      (partedStore.settledKeys 0).Yields partedStore (partedDictionary.remove .nil)
        fun after later =>
          (partedStore.settledKeys 0).Shaped after later ∧
          later.isSame partedDictionary = false ∧
          later.size = 2 := by
  have nilShape : partedStore.shape? .nil = some .nil := Store.shape?_eq_some .nil
  have truthShape : ∀ truth, partedStore.shape? (.boolean truth) = some (.boolean truth) :=
    fun truth => Store.shape?_eq_some (.boolean truth)
  have digest_eq : ∀ pieces, partedStore.digest pieces =
      if pieces = [.word 0] then 0 else 0x8000000000000000 := fun _ => rfl
  have usable : (partedStore.settledKeys 0).Usable partedStore := ⟨.refl partedStore, rfl⟩
  have shaped : (partedStore.settledKeys 0).Shaped partedStore partedDictionary := by
    refine ⟨⟨?_, rfl⟩, ?_, ?_⟩
    · rintro _ ⟨⟩
      have bit : 63 < 64 ∧ (0x8000000000000000 : UInt64).toNat = 2 ^ 63 := by decide
      refine .bin 2 bit (by simp) ?_ ?_ (.tip 0 (by simp) ?_ ?_) (.tip 1 (by simp) ?_ ?_)
      · simp [Trie.Continue]
      · intro hash mem
        rw [List.mem_singleton.mp mem, bit.2]
        refine ⟨fun i less => ?_, Nat.testBit_two_pow_self⟩
        exact (Nat.testBit_two_pow_of_ne (Nat.ne_of_lt less)).trans (Nat.zero_testBit i).symm
      · simp [Store.settledKeys, nilShape, Shape.hash, digest_eq]
      · simp [KeySpace.Apart]
      · simp [Store.settledKeys, truthShape, Shape.hash, digest_eq]
      · simp [KeySpace.Apart, Store.settledKeys, truthShape]
    · intro entry mem
      simp only [partedDictionary, Dictionary.toList, Trie.toList_bin, Trie.toList_tip,
        List.mem_append, List.mem_cons, List.not_mem_nil, or_false] at mem
      rcases mem with rfl | rfl | rfl
      · exact ⟨_, .nil⟩
      · exact ⟨_, .boolean _⟩
      · exact ⟨_, .boolean _⟩
    · rintro _ ⟨⟩
      simp [Trie.Stamped, partedStore]
  obtain ⟨-, -, removes, -⟩ := tries_keep_their_shape (partedStore.settledKeys 0) usable shaped
  refine ⟨shaped, (removes .nil ⟨_, .nil⟩).mono ?_⟩
  rintro after later - ⟨laterShaped, same_iff, -, smaller⟩
  have present : (Value.nil, (⟨0⟩ : Thunk)) ∈ partedDictionary.toList := by
    simp [partedDictionary, Dictionary.toList]
  have equal := (partedStore.settledKeys 0).equal_refl .nil
  refine ⟨laterShaped, ?_, Nat.succ_injective (smaller ⟨_, present, equal⟩)⟩
  rw [← Bool.not_eq_true, same_iff]
  intro absent
  simp [absent _ present] at equal

end ByNeed
