import ByNeed.Dictionary.Operations
import ByNeed.Proofs.Dictionary.Bits

/-!
# Well-formed tries

The hashes below a branch share its stem, and the mask bit tells its sides apart.  So a trie is the
finite map that its tips spell out, and updates are those of a finite map.
-/

namespace ByNeed
namespace Trie

open List

variable {κ ν : Type}
variable {trie : Trie κ ν} {hash stem mask : UInt64} {stamp : Nat} {entries : List (κ × ν)}
variable {side : Bool}

/-- The hashes of the tips. -/
def hashes : Trie κ ν → List UInt64
  | .tip _ hash _ => [hash]
  | .bin _ _ _ low high => low.hashes ++ high.hashes

@[simp] theorem hashes_tip (stamp : Nat) (hash : UInt64) (entries : List (κ × ν)) :
    (tip stamp hash entries).hashes = [hash] := rfl

@[simp] theorem hashes_bin (stamp : Nat) (stem mask : UInt64) (low high : Trie κ ν) :
    (bin stamp stem mask low high).hashes = low.hashes ++ high.hashes := rfl

@[simp] theorem toList_tip (stamp : Nat) (hash : UInt64) (entries : List (κ × ν)) :
    (tip stamp hash entries).toList = entries := rfl

@[simp] theorem toList_bin (stamp : Nat) (stem mask : UInt64) (low high : Trie κ ν) :
    (bin stamp stem mask low high).toList = low.toList ++ high.toList := rfl

theorem bucket_tip (stamp : Nat) (hash other : UInt64) (entries : List (κ × ν)) :
    (tip stamp hash entries).bucket other = if hash = other then entries else [] := rfl

theorem exists_mem_hashes (trie : Trie κ ν) : ∃ hash, hash ∈ trie.hashes := by
  induction trie with
  | tip stamp hash entries => exact ⟨hash, by simp⟩
  | bin stamp stem mask low high lowIh _ =>
    obtain ⟨hash, mem⟩ := lowIh
    exact ⟨hash, by simp [mem]⟩

theorem bucket_of_not_mem (absent : hash ∉ trie.hashes) : trie.bucket hash = [] := by
  induction trie with
  | tip stamp found entries =>
    have ne : found ≠ hash := by
      rintro rfl
      simp at absent
    rw [bucket, if_neg ne]
  | bin stamp stem mask low high lowIh highIh =>
    simp only [hashes_bin, mem_append, not_or] at absent
    rw [bucket]
    split
    · split
      · exact highIh absent.2
      · exact lowIh absent.1
    · rfl

/-- The hashes of a trie lie on one side of a branch. -/
def OnSide (stem mask : UInt64) (side : Bool) (trie : Trie κ ν) : Prop :=
  ∀ hash ∈ trie.hashes, above hash mask = stem ∧ hasBit hash mask = side

/-- Every bucket has entries, and every branch tells its sides apart. -/
inductive WellFormed : Trie κ ν → Prop
  | tip (stamp : Nat) (hash : UInt64) {entries : List (κ × ν)}
      (nonempty : entries ≠ []) :
      WellFormed (.tip stamp hash entries)
  | bin (stamp : Nat) {stem mask : UInt64} {low high : Trie κ ν}
      (bit : IsBit mask)
      (lowSide : low.OnSide stem mask false)
      (highSide : high.OnSide stem mask true)
      (lowFormed : WellFormed low)
      (highFormed : WellFormed high) :
      WellFormed (.bin stamp stem mask low high)

theorem bucket_bin (lowSide : low.OnSide stem mask false) (highSide : high.OnSide stem mask true)
    (hash : UInt64) :
    (bin stamp stem mask low high).bucket hash = low.bucket hash ++ high.bucket hash := by
  rw [bucket]
  by_cases shares : above hash mask = stem
  · rw [if_pos shares]
    by_cases set : hasBit hash mask = true
    · have absent : hash ∉ low.hashes := by
        intro mem
        have clear := (lowSide hash mem).2
        rw [set] at clear
        contradiction
      rw [if_pos set, bucket_of_not_mem absent, nil_append]
    · have absent : hash ∉ high.hashes := fun mem => set (highSide hash mem).2
      rw [if_neg set, bucket_of_not_mem absent, append_nil]
  · have absentLow : hash ∉ low.hashes := fun mem => shares (lowSide hash mem).1
    have absentHigh : hash ∉ high.hashes := fun mem => shares (highSide hash mem).1
    rw [if_neg shares, bucket_of_not_mem absentLow, bucket_of_not_mem absentHigh, append_nil]

theorem mem_toList (formed : trie.WellFormed) (entry : κ × ν) :
    entry ∈ trie.toList ↔ ∃ hash, entry ∈ trie.bucket hash := by
  induction formed with
  | tip stamp hash _ =>
    constructor
    · intro mem
      exact ⟨hash, by simpa [bucket_tip] using mem⟩
    · rintro ⟨other, mem⟩
      rw [bucket_tip] at mem
      split at mem
      · exact mem
      · contradiction
  | bin stamp bit lowSide highSide _ _ lowIh highIh =>
    simp only [toList_bin, mem_append, lowIh, highIh,
      bucket_bin lowSide highSide, exists_or]

/-- What holds within every bucket and between any two holds between all entries. -/
theorem pairwise_toList (formed : trie.WellFormed)
    (within : ∀ hash, (trie.bucket hash).Pairwise related)
    (across : ∀ {left right hash other}, left ∈ trie.bucket hash → right ∈ trie.bucket other →
      hash ≠ other → related left right) : trie.toList.Pairwise related := by
  induction formed with
  | tip stamp hash _ => simpa [bucket_tip] using within hash
  | bin stamp bit lowSide highSide lowFormed highFormed lowIh highIh =>
    simp only [bucket_bin lowSide highSide, mem_append] at within across
    rw [toList_bin, pairwise_append]
    refine ⟨lowIh (fun hash => (pairwise_append.mp (within hash)).1)
        fun left right => across (.inl left) (.inl right),
      highIh (fun hash => (pairwise_append.mp (within hash)).2.1)
        fun left right => across (.inr left) (.inr right), fun left inLow right inHigh => ?_⟩
    obtain ⟨hash, leftMember⟩ := (mem_toList lowFormed left).mp inLow
    obtain ⟨other, rightMember⟩ := (mem_toList highFormed right).mp inHigh
    by_cases same : hash = other
    · subst same
      exact (pairwise_append.mp (within hash)).2.2 left leftMember right rightMember
    · exact across (.inl leftMember) (.inr rightMember) same

theorem filter_toList (formed : trie.WellFormed)
    (elsewhere : ∀ other, other ≠ hash → ∀ entry ∈ trie.bucket other, wanted entry = false) :
    trie.toList.filter wanted = (trie.bucket hash).filter wanted := by
  induction formed with
  | tip stamp found _ =>
    rw [toList_tip, bucket_tip]
    split
    · rfl
    · rename_i entries _ ne
      rw [filter_nil, filter_eq_nil_iff]
      intro entry mem
      simp [elsewhere found ne entry (by simpa [bucket_tip] using mem)]
  | bin stamp bit lowSide highSide _ _ lowIh highIh =>
    rw [bucket_bin lowSide highSide, toList_bin, filter_append, filter_append,
      lowIh, highIh]
    · intro other ne entry mem
      apply elsewhere other ne entry
      rw [bucket_bin lowSide highSide]
      exact mem_append_right _ mem
    · intro other ne entry mem
      apply elsewhere other ne entry
      rw [bucket_bin lowSide highSide]
      exact mem_append_left _ mem

/-! ## Sides -/

/-- A branch, with one side told apart from the other. -/
def branch (stamp : Nat) (stem mask : UInt64) (side : Bool) (near far : Trie κ ν) : Trie κ ν :=
  if side then .bin stamp stem mask far near else .bin stamp stem mask near far

theorem join_eq_branch (stamp : Nat) (leftStem : UInt64) (left : Trie κ ν) (rightStem : UInt64)
    (right : Trie κ ν) :
    join stamp leftStem left rightStem right =
      branch stamp (above leftStem (branchingBit leftStem rightStem))
        (branchingBit leftStem rightStem) (hasBit leftStem (branchingBit leftStem rightStem))
        left right := rfl

section Branch

variable {near far : Trie κ ν}

@[simp] theorem stamp_branch : (branch stamp stem mask side near far).stamp = stamp := by
  cases side <;> rfl

theorem mem_hashes_branch :
    hash ∈ (branch stamp stem mask side near far).hashes ↔
      hash ∈ near.hashes ∨ hash ∈ far.hashes := by
  cases side <;> simp [branch, or_comm]

theorem mem_toList_branch {entry : κ × ν} :
    entry ∈ (branch stamp stem mask side near far).toList ↔
      entry ∈ near.toList ∨ entry ∈ far.toList := by
  cases side <;> simp [branch, or_comm]

theorem forall_mem_branch {holds : κ × ν → Prop} :
    (∀ entry ∈ (branch stamp stem mask side near far).toList, holds entry) ↔
      (∀ entry ∈ near.toList, holds entry) ∧ ∀ entry ∈ far.toList, holds entry := by
  simp only [mem_toList_branch, or_imp, forall_and]

theorem length_toList_branch :
    (branch stamp stem mask side near far).toList.length =
      near.toList.length + far.toList.length := by
  cases side <;> simp [branch, Nat.add_comm]

theorem wellFormed_branch :
    (branch stamp stem mask side near far).WellFormed ↔
      IsBit mask ∧ near.OnSide stem mask side ∧ far.OnSide stem mask (!side) ∧
        near.WellFormed ∧ far.WellFormed := by
  constructor
  · intro formed
    cases side <;> rcases formed with _ | ⟨_, bit, lowSide, highSide, lowFormed, highFormed⟩
    · exact ⟨bit, lowSide, highSide, lowFormed, highFormed⟩
    · exact ⟨bit, highSide, lowSide, highFormed, lowFormed⟩
  · rintro ⟨bit, nearSide, farSide, nearFormed, farFormed⟩
    cases side
    · exact .bin stamp bit nearSide farSide nearFormed farFormed
    · exact .bin stamp bit farSide nearSide farFormed nearFormed

/-- A hash with the stem of a branch has its bucket on its side. -/
theorem bucket_branch (shares : above hash mask = stem) :
    (branch stamp stem mask (hasBit hash mask) near far).bucket hash = near.bucket hash := by
  cases side_eq : hasBit hash mask <;> simp [branch, bucket, shares, side_eq]

theorem bucket_branch_of_nil (formed : (branch stamp stem mask side near far).WellFormed)
    (empty : near.bucket hash = []) :
    (branch stamp stem mask side near far).bucket hash = far.bucket hash := by
  obtain ⟨-, nearSide, farSide, -⟩ := wellFormed_branch.mp formed
  cases side
  · exact (bucket_bin nearSide farSide hash).trans (by rw [empty, nil_append])
  · exact (bucket_bin farSide nearSide hash).trans (by rw [empty, append_nil])

/-- Induction along the way of a hash. -/
theorem walk_induction (hash : UInt64) {motive : Trie κ ν → Prop}
    (tip : ∀ stamp found bucket, motive (.tip stamp found bucket))
    (branch : ∀ stamp stem mask near far, above hash mask = stem → motive near →
      motive (branch stamp stem mask (hasBit hash mask) near far))
    (apart : ∀ stamp stem mask low high, above hash mask ≠ stem →
      motive (.bin stamp stem mask low high))
    (trie : Trie κ ν) : motive trie := by
  induction trie with
  | tip stamp found bucket => exact tip stamp found bucket
  | bin stamp stem mask low high lowIh highIh =>
    by_cases shares : above hash mask = stem
    · cases side_eq : hasBit hash mask with
      | true => simpa [Trie.branch, side_eq] using branch stamp stem mask high low shares highIh
      | false => simpa [Trie.branch, side_eq] using branch stamp stem mask low high shares lowIh
    · exact apart stamp stem mask low high shares

end Branch

section Walks

variable {near far : Trie Value Thunk} (shares : above hash mask = stem) (key : Value)

include shares

theorem insert_branch (value : Thunk) :
    (branch stamp stem mask (hasBit hash mask) near far).insert hash key value = (do
      let result ← near.insert hash key value
      return (← make (branch · stem mask (hasBit hash mask) result.1 far), result.2)) := by
  cases side_eq : hasBit hash mask <;> simp [branch, insert, shares, side_eq]

theorem remove_branch :
    (branch stamp stem mask (hasBit hash mask) near far).remove hash key = (do
      let rest ← near.remove hash key
      return some (← replaceSide (branch stamp stem mask (hasBit hash mask) near far) near far
        (fun node stamp => branch stamp stem mask (hasBit hash mask) node far) rest)) := by
  cases side_eq : hasBit hash mask <;> simp [branch, remove, shares, side_eq]

end Walks

/-! ## Setting a bucket -/

/-- A later trie differs from a former one in the bucket of a hash. -/
structure SetsBucket (former : Trie κ ν) (hash : UInt64) (entries : List (κ × ν))
    (later : Trie κ ν) : Prop where
  wellFormed : later.WellFormed
  mem_hashes : ∀ other ∈ later.hashes, other = hash ∨ other ∈ former.hashes
  bucket_eq : ∀ other, later.bucket other = if other = hash then entries else former.bucket other
  length_eq : later.toList.length + (former.bucket hash).length =
    former.toList.length + entries.length

theorem SetsBucket.onSide (sets : trie.SetsBucket hash entries rest)
    (onSide : trie.OnSide (above hash mask) mask (hasBit hash mask)) :
    rest.OnSide (above hash mask) mask (hasBit hash mask) := by
  intro other mem
  rcases sets.mem_hashes other mem with rfl | mem
  · exact ⟨rfl, rfl⟩
  · exact onSide other mem

theorem onSide_tip (stamp : Nat) (hash mask : UInt64) (entries : List (κ × ν)) :
    (tip stamp hash entries).OnSide (above hash mask) mask (hasBit hash mask) := by
  intro other mem
  rw [mem_singleton.mp mem]
  exact ⟨rfl, rfl⟩

theorem apart_of_wellFormed (formed : (bin stamp stem mask low high).WellFormed)
    (differs : above hash mask ≠ stem) :
    hash ≠ stem ∧ hash ∉ (bin stamp stem mask low high).hashes ∧
      (bin stamp stem mask low high).OnSide (above stem (branchingBit hash stem))
        (branchingBit hash stem) (hasBit stem (branchingBit hash stem)) := by
  cases formed with
  | bin _ bit lowSide highSide _ _ =>
    have shares : ∀ other ∈ (bin stamp stem mask low high).hashes, above other mask = stem := by
      intro other mem
      rcases mem_append.mp mem with mem | mem
      · exact (lowSide other mem).1
      · exact (highSide other mem).1
    obtain ⟨other, mem⟩ := exists_mem_hashes (bin stamp stem mask low high)
    refine ⟨(branch_of_above_ne bit (shares other mem) differs).1, ?_, ?_⟩
    · exact fun isHash => differs (shares hash isHash)
    · intro other mem
      exact (branch_of_above_ne bit (shares other mem) differs).2

theorem SetsBucket.of_join (formed : trie.WellFormed) (nonempty : entries ≠ [])
    (ne : hash ≠ stem) (absent : hash ∉ trie.hashes)
    (onSide : trie.OnSide (above stem (branchingBit hash stem)) (branchingBit hash stem)
      (hasBit stem (branchingBit hash stem))) :
    trie.SetsBucket hash entries (join stamp hash (.tip new hash entries) stem trie) := by
  have joined : (join stamp hash (.tip new hash entries) stem trie).WellFormed := by
    rw [← above_branchingBit ne, hasBit_branchingBit ne] at onSide
    exact wellFormed_branch.mpr ⟨⟨_, isBitAt_branchingBit ne⟩, onSide_tip _ _ _ _, onSide,
      .tip new hash nonempty, formed⟩
  rw [join_eq_branch] at joined ⊢
  refine ⟨joined, fun other mem => ?_, fun other => ?_, ?_⟩
  · exact (mem_hashes_branch.mp mem).imp_left mem_singleton.mp
  · by_cases same : other = hash
    · rw [if_pos same, same, bucket_branch rfl, bucket_tip, if_pos rfl]
    · rw [if_neg same, bucket_branch_of_nil joined (if_neg (Ne.symm same))]
  · rw [length_toList_branch, bucket_of_not_mem absent, toList_tip, length_nil]
    omega

theorem setsBucket_tip (former stamp : Nat) (hash : UInt64) (bucket : List (κ × ν))
    (nonempty : entries ≠ []) :
    (tip former hash bucket).SetsBucket hash entries (.tip stamp hash entries) where
  wellFormed := .tip stamp hash nonempty
  mem_hashes _ mem := .inr mem
  bucket_eq other := by
    rw [bucket_tip, bucket_tip]
    by_cases same : other = hash
    · rw [if_pos same.symm, if_pos same]
    · rw [if_neg (Ne.symm same), if_neg same, if_neg (Ne.symm same)]
  length_eq := by rw [bucket_tip, if_pos rfl, toList_tip, toList_tip, Nat.add_comm]

/-- A tip of another hash is joined. -/
theorem SetsBucket.of_join_tip (former stamp : Nat) {found : UInt64} {bucket : List (κ × ν)}
    (bucketNonempty : bucket ≠ []) (nonempty : entries ≠ []) (ne : found ≠ hash) :
    (tip former found bucket).SetsBucket hash entries
      (join stamp hash (.tip new hash entries) found (.tip former found bucket)) :=
  .of_join (.tip former found bucketNonempty) nonempty (Ne.symm ne)
    (fun mem => ne (mem_singleton.mp mem).symm) (onSide_tip _ _ _ _)

/-- A branch whose hashes have another stem is joined. -/
theorem SetsBucket.of_join_bin (formed : (bin former stem mask low high).WellFormed)
    (nonempty : entries ≠ []) (differs : above hash mask ≠ stem) :
    (bin former stem mask low high).SetsBucket hash entries
      (join stamp hash (.tip new hash entries) stem (.bin former stem mask low high)) := by
  obtain ⟨ne, absent, onSide⟩ := apart_of_wellFormed formed differs
  exact .of_join formed nonempty ne absent onSide

/-- What is left of a trie when the bucket of a hash becomes some entries.  Nothing is left only of
a tip. -/
def Leaves (former : Trie κ ν) (hash : UInt64) (entries : List (κ × ν)) : Option (Trie κ ν) → Prop
  | some later => former.SetsBucket hash entries later
  | none => entries = [] ∧ ∃ stamp bucket, former = .tip stamp hash bucket

section Near

variable {former : Nat} {near far : Trie κ ν}

/-- The bucket is set on the side of its hash. -/
theorem SetsBucket.of_near (sets : near.SetsBucket hash entries rest)
    (formed : (branch former stem mask (hasBit hash mask) near far).WellFormed)
    (shares : above hash mask = stem) :
    (branch former stem mask (hasBit hash mask) near far).SetsBucket hash entries
      (branch stamp stem mask (hasBit hash mask) rest far) where
  wellFormed := by
    subst shares
    obtain ⟨bit, nearSide, farSide, -, farFormed⟩ := wellFormed_branch.mp formed
    exact wellFormed_branch.mpr ⟨bit, sets.onSide nearSide, farSide, sets.wellFormed, farFormed⟩
  mem_hashes other mem := by
    rw [mem_hashes_branch] at mem ⊢
    exact or_assoc.mp (mem.imp_left (sets.mem_hashes other))
  bucket_eq other := by
    by_cases same : other = hash
    · rw [if_pos same, same, bucket_branch shares, sets.bucket_eq, if_pos rfl]
    · cases hasBit hash mask <;>
        simp only [branch, bucket, sets.bucket_eq, if_neg same, Bool.false_eq_true, if_true,
          if_false]
  length_eq := by
    have length_eq := sets.length_eq
    rw [bucket_branch shares, length_toList_branch, length_toList_branch]
    omega

/-- The bucket was a tip, and the other side is left. -/
theorem SetsBucket.of_near_tip
    (formed : (branch former stem mask (hasBit hash mask) (.tip stamp hash entries) far).WellFormed)
    (shares : above hash mask = stem) :
    (branch former stem mask (hasBit hash mask) (.tip stamp hash entries) far).SetsBucket hash []
      far := by
  obtain ⟨-, -, farSide, -, farFormed⟩ := wellFormed_branch.mp formed
  have absent : hash ∉ far.hashes := fun mem => by simpa using (farSide hash mem).2
  refine ⟨farFormed, fun _ mem => .inr (mem_hashes_branch.mpr (.inr mem)), fun other => ?_, ?_⟩
  · by_cases same : other = hash
    · rw [if_pos same, same, bucket_of_not_mem absent]
    · rw [if_neg same, bucket_branch_of_nil formed (if_neg (Ne.symm same))]
  · rw [bucket_branch shares, bucket_tip, if_pos rfl, length_toList_branch, toList_tip,
      Nat.add_comm, length_nil, Nat.add_zero]

theorem Leaves.of_near {rest : Option (Trie κ ν)} (leaves : near.Leaves hash entries rest)
    (formed : (branch former stem mask (hasBit hash mask) near far).WellFormed)
    (shares : above hash mask = stem) (stamp : Nat) :
    (branch former stem mask (hasBit hash mask) near far).SetsBucket hash entries
      (rest.elim far (branch stamp stem mask (hasBit hash mask) · far)) := by
  cases rest with
  | none =>
    obtain ⟨rfl, _, _, rfl⟩ := leaves
    exact .of_near_tip formed shares
  | some node => exact SetsBucket.of_near leaves formed shares

end Near

/-- What is left of a trie when a key is removed that stands at a position of its bucket, or nowhere
in it.  Then the trie is the same. -/
def Removes (former : Trie κ ν) (hash : UInt64) (located : Option Nat)
    (rest : Option (Trie κ ν)) : Prop :=
  match located with
  | none => rest = some former
  | some position =>
    former.Leaves hash ((former.bucket hash).eraseIdx position) rest ∧
      ∀ later ∈ rest, later.isSame former = false

/-! ## Stamps -/

/-- Stamps are below a bound, and those below a branch are less than its own. -/
def Stamped (taken : Nat) : Trie κ ν → Prop
  | .tip stamp _ _ => stamp < taken
  | .bin stamp _ _ low high => stamp < taken ∧ low.Stamped stamp ∧ high.Stamped stamp

theorem Stamped.stamp_lt {taken : Nat} (stamped : trie.Stamped taken) : trie.stamp < taken := by
  cases trie with
  | tip => exact stamped
  | bin => exact stamped.1

theorem Stamped.mono {taken more : Nat} (stamped : trie.Stamped taken) (le : taken ≤ more) :
    trie.Stamped more := by
  cases trie with
  | tip => exact Nat.lt_of_lt_of_le stamped le
  | bin => exact ⟨Nat.lt_of_lt_of_le stamped.1 le, stamped.2⟩

theorem stamped_branch {taken : Nat} :
    (branch stamp stem mask side near far).Stamped taken ↔
      stamp < taken ∧ near.Stamped stamp ∧ far.Stamped stamp := by
  cases side <;> simp [branch, Stamped, and_comm]

/-- Every trie has an entry. -/
theorem length_toList_pos (formed : trie.WellFormed) : 0 < trie.toList.length := by
  induction formed with
  | tip stamp hash nonempty => exact length_pos_iff.mpr nonempty
  | bin stamp bit lowSide highSide lowFormed highFormed lowIh _ =>
    rw [toList_bin, length_append]
    omega

end Trie
end ByNeed
