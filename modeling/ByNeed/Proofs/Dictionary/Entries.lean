import ByNeed.Dictionary.Basic
import ByNeed.Proofs.Dictionary.Trie

/-!
# Entries of dictionaries

What a dictionary holds for a key, when keys have a hash and an equality that go together.  Which
keys share a bucket is of no consequence.
-/

namespace ByNeed

open List

/-- Keys with an equality, and a hash that is the same for equal keys. -/
structure KeySpace (κ : Type) where
  hash : κ → UInt64
  equal : κ → κ → Bool
  equal_refl : ∀ key, equal key key = true
  equal_symm : ∀ {left right}, equal left right = true → equal right left = true
  equal_trans : ∀ {first second third},
    equal first second = true → equal second third = true → equal first third = true
  hash_eq : ∀ {left right}, equal left right = true → hash left = hash right

namespace KeySpace

variable {κ ν : Type} (space : KeySpace κ)

theorem equal_congr_left (same : space.equal left right = true) (key : κ) :
    space.equal left key = space.equal right key := by
  rw [Bool.eq_iff_iff]
  constructor
  · exact space.equal_trans (space.equal_symm same)
  · exact space.equal_trans same

theorem equal_congr_right (same : space.equal left right = true) (key : κ) :
    space.equal key left = space.equal key right := by
  rw [Bool.eq_iff_iff]
  constructor
  · intro equal
    exact space.equal_trans equal same
  · intro equal
    exact space.equal_trans equal (space.equal_symm same)

/-- Whether an entry is an entry of a key. -/
def isFor (key : κ) (entry : κ × ν) : Bool :=
  space.equal entry.1 key

/-- No two entries have equal keys. -/
def Apart (entries : List (κ × ν)) : Prop :=
  entries.Pairwise fun left right => space.equal left.1 right.1 = false

variable {space}

theorem isFor_self (entry : κ × ν) : space.isFor entry.1 entry = true :=
  space.equal_refl entry.1

theorem isFor_congr (same : space.equal left right = true) :
    (space.isFor left : κ × ν → Bool) = space.isFor right := by
  funext entry
  exact space.equal_congr_right same entry.1

/-- Among entries with different keys, those of a key are none or one. -/
theorem filter_isFor_of_split (apart : space.Apart (before ++ entry :: later))
    (same : space.equal entry.1 key = true) :
    before.filter (space.isFor key) = [] ∧ later.filter (space.isFor key) = [] := by
  rw [Apart, pairwise_append, pairwise_cons] at apart
  obtain ⟨-, ⟨entryApart, -⟩, beforeApart⟩ := apart
  constructor
  · rw [filter_eq_nil_iff]
    intro other mem isFor
    have equal := space.equal_trans isFor (space.equal_symm same)
    rw [beforeApart other mem entry mem_cons_self] at equal
    contradiction
  · rw [filter_eq_nil_iff]
    intro other mem isFor
    have equal := space.equal_trans same (space.equal_symm isFor)
    rw [entryApart other mem] at equal
    contradiction

end KeySpace

namespace Dictionary

variable {κ ν : Type}

/-- The trie of a dictionary is well-formed, each entry is in the bucket of its hash, no
two have equal keys, and the size is their number. -/
structure Valid (space : KeySpace κ) (dict : Dictionary κ ν) : Prop where
  wellFormed : ∀ trie, dict.root = some trie → trie.WellFormed
  hash_eq : ∀ hash, ∀ entry ∈ dict.bucket hash, space.hash entry.1 = hash
  apart : ∀ hash, space.Apart (dict.bucket hash)
  size_eq : dict.size = dict.toList.length

/-- The entries of a key. -/
def entriesFor (space : KeySpace κ) (dict : Dictionary κ ν) (key : κ) : List (κ × ν) :=
  dict.toList.filter (space.isFor key)

theorem valid_empty (space : KeySpace κ) : (empty : Dictionary κ ν).Valid space where
  wellFormed trie root := by contradiction
  hash_eq hash entry mem := by contradiction
  apart hash := List.Pairwise.nil
  size_eq := rfl

namespace Valid

variable {space : KeySpace κ} {dict : Dictionary κ ν}

theorem mem_toList (valid : dict.Valid space) (entry : κ × ν) :
    entry ∈ dict.toList ↔ ∃ hash, entry ∈ dict.bucket hash := by
  rw [toList]
  unfold bucket
  cases root : dict.root with
  | none => simp
  | some trie => exact Trie.mem_toList (valid.wellFormed trie root) entry

theorem entriesFor_eq (valid : dict.Valid space) (key : κ) : dict.entriesFor space key =
      (dict.bucket (space.hash key)).filter (space.isFor key) := by
  have elsewhere : ∀ other, other ≠ space.hash key →
      ∀ entry ∈ dict.bucket other, space.isFor key entry = false := by
    intro other ne entry mem
    rw [← Bool.not_eq_true]
    intro isFor
    apply ne
    rw [← valid.hash_eq other entry mem, space.hash_eq isFor]
  rw [entriesFor, toList]
  unfold bucket at elsewhere ⊢
  cases root : dict.root with
  | none => rfl
  | some trie =>
    rw [root] at elsewhere
    exact Trie.filter_toList (valid.wellFormed trie root) elsewhere

end Valid

/-- The nodes of a dictionary have stamps in order, below a bound. -/
def Stamped (taken : Nat) (dict : Dictionary κ ν) : Prop :=
  ∀ trie, dict.root = some trie → trie.Stamped taken

theorem stamped_empty {taken : Nat} : (empty : Dictionary κ ν).Stamped taken :=
  fun _ root => by contradiction

theorem Stamped.mono {taken more : Nat} {dict : Dictionary κ ν} (stamped : dict.Stamped taken)
    (le : taken ≤ more) : dict.Stamped more :=
  fun trie root => (stamped trie root).mono le

/-! ## Updates of one bucket -/

/-- A later dictionary differs from a former one in the bucket of a hash. -/
structure SetsBucket (former : Dictionary κ ν) (hash : UInt64) (entries : List (κ × ν))
    (later : Dictionary κ ν) : Prop where
  wellFormed : ∀ trie, later.root = some trie → trie.WellFormed
  bucket_eq : ∀ other, later.bucket other = if other = hash then entries else former.bucket other
  length_eq : later.toList.length + (former.bucket hash).length =
    former.toList.length + entries.length

namespace SetsBucket

variable {space : KeySpace κ} {former later : Dictionary κ ν} {hash : UInt64}
  {entries : List (κ × ν)}

/-- The first bucket of a dictionary. -/
theorem of_root_eq_none (root : former.root = none) (size stamp : Nat) (nonempty : entries ≠ []) :
    former.SetsBucket hash entries { size, root := some (.tip stamp hash entries) } where
  wellFormed trie isTip := by
    cases isTip
    exact .tip stamp hash nonempty
  bucket_eq other := by simp only [bucket, root, Trie.bucket_tip, eq_comm]
  length_eq := by simp [toList, bucket, root]

/-- What is left of the trie is the root. -/
theorem of_leaves {trie : Trie κ ν} (root : former.root = some trie) (size : Nat)
    (leaves : trie.Leaves hash entries rest) :
    former.SetsBucket hash entries { size, root := rest } := by
  cases rest with
  | none =>
    obtain ⟨rfl, stamp, formerEntries, rfl⟩ := leaves
    exact
      { wellFormed := fun trie root => by contradiction
        bucket_eq := fun other => by
          by_cases same : other = hash
          · rw [if_pos same]
            rfl
          · simp [bucket, root, Trie.bucket_tip, same, Ne.symm same]
        length_eq := by simp [toList, bucket, root, Trie.bucket_tip] }
  | some later =>
    have sets : trie.SetsBucket hash entries later := leaves
    exact
      { wellFormed := fun found isLater => by
          cases isLater
          exact sets.wellFormed
        bucket_eq := fun other => by simpa [bucket, root] using sets.bucket_eq other
        length_eq := by simpa [toList, bucket, root] using sets.length_eq }

section

variable (sets : former.SetsBucket hash entries later) (formerValid : former.Valid space)

include sets formerValid

/-- A dictionary stays valid when a bucket is set to entries that belong there, and the
size changes with it. -/
theorem valid (hash_eq : ∀ entry ∈ entries, space.hash entry.1 = hash) (apart : space.Apart entries)
    (size_eq : later.size + (former.bucket hash).length = former.size + entries.length) :
    later.Valid space where
  wellFormed := sets.wellFormed
  hash_eq other entry mem := by
    rw [sets.bucket_eq] at mem
    split at mem
    · rename_i same
      rw [same, hash_eq entry mem]
    · exact formerValid.hash_eq other entry mem
  apart other := by
    rw [sets.bucket_eq]
    split
    · exact apart
    · exact formerValid.apart other
  size_eq := by
    have length_eq := sets.length_eq
    have formerSize := formerValid.size_eq
    omega

theorem entriesFor_eq (laterValid : later.Valid space) (key : κ) :
    later.entriesFor space key = if space.hash key = hash then entries.filter (space.isFor key)
      else former.entriesFor space key := by
  rw [laterValid.entriesFor_eq, formerValid.entriesFor_eq, sets.bucket_eq]
  split <;> rfl

end

end SetsBucket

/-! ## Updates of one entry -/

/-- A later dictionary differs from a former one in the entries of a key. -/
structure Updates (space : KeySpace κ) (former : Dictionary κ ν) (key : κ) (entries : List (κ × ν))
    (later : Dictionary κ ν) : Prop where
  valid : later.Valid space
  entriesFor_eq : ∀ other, later.entriesFor space other =
    if space.equal key other = true then entries else former.entriesFor space other

variable {space : KeySpace κ} {dict : Dictionary κ ν} {key : κ}

theorem SetsBucket.updates {former later : Dictionary κ ν} {bucket entries : List (κ × ν)}
    (sets : former.SetsBucket (space.hash key) bucket later) (formerValid : former.Valid space)
    (laterValid : later.Valid space) (filter_eq : bucket.filter (space.isFor key) = entries)
    (others : ∀ other, space.equal key other = false → bucket.filter (space.isFor other) =
        (former.bucket (space.hash key)).filter (space.isFor other)) :
    former.Updates space key entries later where
  valid := laterValid
  entriesFor_eq other := by
    rw [sets.entriesFor_eq formerValid laterValid]
    by_cases same : space.equal key other = true
    · rw [if_pos same, if_pos (space.hash_eq same).symm, ← KeySpace.isFor_congr same, filter_eq]
    · rw [if_neg same]
      split
      · rename_i hash_eq
        rw [others other (Bool.not_eq_true _ ▸ same), formerValid.entriesFor_eq, hash_eq]
      · rfl

@[simp] theorem assignAt_eq_nil_iff {entries : List (κ × ν)} {position : Option Nat} {value : ν} :
    assignAt key value entries position = [] ↔ position.isSome = true ∧ entries = [] := by
  cases position <;> simp [assignAt]

theorem assignAt_append (key : κ) (value : ν) (before later : List (κ × ν)) (entry : κ × ν) :
    assignAt key value (before ++ entry :: later) (some before.length) =
      before ++ (entry.1, value) :: later := by
  rw [assignAt, modify_eq_take_cons_drop (by simp)]
  simp

theorem length_assignAt (key : κ) (value : ν) (entries : List (κ × ν)) (position : Option Nat) :
    (assignAt key value entries position).length = entries.length + position.isNone.toNat := by
  cases position <;> simp [assignAt]

/-- An entry was there, or it has the value and a key that was there or is new. -/
theorem mem_assignAt {entries : List (κ × ν)} {position : Option Nat} {value : ν}
    (mem : entry ∈ assignAt key value entries position) :
    entry ∈ entries ∨
      entry.2 = value ∧ (entry.1 = key ∨ ∃ former ∈ entries, entry.1 = former.1) := by
  cases position with
  | none =>
    rcases mem_append.mp mem with mem | mem
    · exact .inl mem
    · rw [mem_singleton.mp mem]
      exact .inr ⟨rfl, .inl rfl⟩
  | some position =>
    obtain ⟨place, found⟩ := mem_iff_getElem?.mp mem
    rw [assignAt, getElem?_modify, Option.map_eq_map, Option.map_eq_some_iff] at found
    obtain ⟨former, held, rfl⟩ := found
    split
    · exact .inr ⟨rfl, .inr ⟨former, mem_of_getElem? held, rfl⟩⟩
    · exact .inl (mem_of_getElem? held)

section Append

variable {made : Dictionary κ ν} {value : ν} (valid : dict.Valid space)

include valid

/-- An entry of a key that is absent is appended to its bucket. -/
theorem Valid.append (absent : dict.entriesFor space key = [])
    (sets : dict.SetsBucket (space.hash key) (dict.bucket (space.hash key) ++ [(key, value)]) made)
    (size_eq : made.size = dict.size + 1) : dict.Updates space key [(key, value)] made := by
  have absentInBucket := absent
  rw [valid.entriesFor_eq, filter_eq_nil_iff] at absentInBucket
  have madeValid : made.Valid space := by
    apply sets.valid valid
    · intro entry mem
      rcases mem_append.mp mem with mem | mem
      · exact valid.hash_eq _ entry mem
      · rw [mem_singleton.mp mem]
    · rw [KeySpace.Apart, pairwise_append]
      refine ⟨valid.apart _, pairwise_singleton _ _, ?_⟩
      intro entry mem other otherMember
      rw [mem_singleton.mp otherMember]
      exact Bool.not_eq_true _ ▸ absentInBucket entry mem
    · rw [length_append, length_singleton]
      omega
  apply sets.updates valid madeValid
  · rw [filter_append, filter_eq_nil_iff.mpr absentInBucket, nil_append]
    simp [KeySpace.isFor, space.equal_refl]
  · intro other ne
    rw [filter_append]
    simp [KeySpace.isFor, ne]

variable {before later : List (κ × ν)} {entry : κ × ν}
  (split : dict.bucket (space.hash key) = before ++ entry :: later)
  (same : space.equal entry.1 key = true)

include split same

/-- The value of the entry of a key is replaced. -/
theorem Valid.replace
    (sets : dict.SetsBucket (space.hash key) (before ++ (entry.1, value) :: later) made)
    (size_eq : made.size = dict.size) : dict.Updates space key [(entry.1, value)] made := by
  have apart := valid.apart (space.hash key)
  rw [split] at apart
  have madeValid : made.Valid space := by
    apply sets.valid valid
    · intro other mem
      have inBucket := valid.hash_eq (space.hash key)
      rw [split] at inBucket
      simp only [mem_append, mem_cons] at mem inBucket
      rcases mem with mem | rfl | mem
      · exact inBucket other (.inl mem)
      · exact inBucket entry (.inr (.inl rfl))
      · exact inBucket other (.inr (.inr mem))
    · simpa [KeySpace.Apart, pairwise_append] using apart
    · simp [size_eq, split]
  obtain ⟨noneBefore, noneLater⟩ := KeySpace.filter_isFor_of_split apart same
  apply sets.updates valid madeValid
  · rw [filter_append, filter_cons_of_pos (by exact same), noneBefore, noneLater,
      nil_append]
  · intro other ne
    rw [← space.equal_congr_left same] at ne
    rw [split, filter_append, filter_append, filter_cons_of_neg (by simp
      [KeySpace.isFor, ne]), filter_cons_of_neg (by simp [KeySpace.isFor, ne])]

/-- The entry of a key is erased from its bucket. -/
theorem Valid.erase (sets : dict.SetsBucket (space.hash key) (before ++ later) made)
    (size_eq : made.size + 1 = dict.size) : dict.Updates space key [] made := by
  have apart := valid.apart (space.hash key)
  rw [split] at apart
  have sublist : List.Sublist (before ++ later) (dict.bucket (space.hash key)) := by
    rw [split]
    exact (List.Sublist.refl before).append (sublist_cons_self entry later)
  have madeValid : made.Valid space := by
    apply sets.valid valid
    · intro other mem
      exact valid.hash_eq _ other (sublist.mem mem)
    · exact (valid.apart _).sublist sublist
    · simp only [split, length_append, length_cons]
      omega
  obtain ⟨noneBefore, noneLater⟩ := KeySpace.filter_isFor_of_split apart same
  apply sets.updates valid madeValid
  · rw [filter_append, noneBefore, noneLater, nil_append]
  · intro other ne
    rw [← space.equal_congr_left same] at ne
    rw [split, filter_append, filter_append,
      filter_cons_of_neg (by simp [KeySpace.isFor, ne])]

end Append
end Dictionary
end ByNeed
