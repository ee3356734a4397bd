import Mathlib.Data.Nat.Bitwise
import ByNeed.Dictionary.Trie

/-!
# Bits of hashes

A branch of a trie looks at the bits of a hash above its mask, and at the bit of the mask.  Two
hashes that differ agree above their branching bit and differ there.
-/

namespace ByNeed
namespace Trie

variable {mask : UInt64} {place : Nat}

/-- A mask that consists of the bit at a place. -/
def IsBitAt (mask : UInt64) (place : Nat) : Prop :=
  place < 64 ∧ mask.toNat = 2 ^ place

/-- A mask of one bit. -/
def IsBit (mask : UInt64) : Prop :=
  ∃ place, IsBitAt mask place

theorem testBit_above (bit : IsBitAt mask place) (hash : UInt64) (i : Nat) :
    (above hash mask).toNat.testBit i = (hash.toNat.testBit i && decide (place < i)) := by
  obtain ⟨bound, mask_eq⟩ := bit
  have small : 2 ^ place < 2 ^ 64 := Nat.pow_lt_pow_right (by decide) bound
  have positive : 0 < 2 ^ place := Nat.two_pow_pos place
  have negated : (0 - mask).toNat = 2 ^ 64 - ((2 ^ place - 1) + 1) := by
    rw [UInt64.toNat_sub, mask_eq, UInt64.toNat_zero]
    omega
  have beyond : hash.toNat.testBit i = true → i < 64 := by
    intro set
    by_cases inside : i < 64
    · exact inside
    · have hash_lt : hash.toNat < 2 ^ i :=
        Nat.lt_of_lt_of_le hash.toNat_lt (Nat.pow_le_pow_right (by decide) (by omega))
      rw [Nat.testBit_lt_two_pow hash_lt] at set
      contradiction
  rw [above, UInt64.toNat_and, UInt64.toNat_xor, negated, mask_eq, Nat.testBit_and, Nat.testBit_xor,
    Nat.testBit_two_pow_sub_succ (by omega), Nat.testBit_two_pow_sub_one, Nat.testBit_two_pow]
  cases set : hash.toNat.testBit i with
  | false => simp
  | true =>
    have inside := beyond set
    by_cases same : place = i
    · subst i
      simp [inside]
    · by_cases less : place < i
      · simp [inside, same, less, Nat.not_lt_of_lt less]
      · have greater : i < place := by omega
        simp [inside, same, less, greater]

theorem hasBit_eq_testBit (bit : IsBitAt mask place) (hash : UInt64) :
    hasBit hash mask = hash.toNat.testBit place := by
  have masked : (hash &&& mask).toNat = (hash.toNat.testBit place).toNat * 2 ^ place := by
    rw [UInt64.toNat_and, bit.2, Nat.and_two_pow]
  have zero_iff : hash &&& mask = 0 ↔ hash.toNat.testBit place = false := by
    rw [← UInt64.toNat_inj, masked, UInt64.toNat_zero]
    cases hash.toNat.testBit place <;> simp
  cases set : hash.toNat.testBit place with
  | false => simp [hasBit, zero_iff.mpr set]
  | true =>
    have nonzero : hash &&& mask ≠ 0 := by
      rw [Ne, zero_iff, set]
      decide
    simp [hasBit, nonzero]

theorem above_above (bit : IsBit mask) (hash : UInt64) :
    above (above hash mask) mask = above hash mask := by
  obtain ⟨place, bit⟩ := bit
  apply UInt64.toNat_inj.mp
  apply Nat.eq_of_testBit_eq
  intro i
  simp only [testBit_above bit, Bool.and_assoc, Bool.and_self]

/-- Hashes agree above a mask when their bits there agree. -/
theorem above_eq_above_iff (bit : IsBitAt mask place) (left right : UInt64) :
    above left mask = above right mask ↔
      ∀ i, place < i → left.toNat.testBit i = right.toNat.testBit i := by
  constructor
  · intro same i less
    have bits := congrArg (fun word => word.toNat.testBit i) same
    simpa [testBit_above bit, less] using bits
  · intro agree
    apply UInt64.toNat_inj.mp
    apply Nat.eq_of_testBit_eq
    intro i
    rw [testBit_above bit, testBit_above bit]
    by_cases less : place < i
    · rw [agree i less]
    · simp [less]

section BranchingBit

variable {left right : UInt64}

theorem xor_ne_zero (ne : left ≠ right) : left.toNat ^^^ right.toNat ≠ 0 := by
  intro same
  exact ne (UInt64.toNat_inj.mp (Nat.xor_eq_zero_iff.mp same))

theorem isBitAt_branchingBit (ne : left ≠ right) :
    IsBitAt (branchingBit left right) (left.toNat ^^^ right.toNat).log2 := by
  have nonzero := xor_ne_zero ne
  have bound : (left.toNat ^^^ right.toNat).log2 < 64 := by
    rw [Nat.log2_lt nonzero]
    exact Nat.xor_lt_two_pow left.toNat_lt right.toNat_lt
  have differs : left ^^^ right ≠ 0 := by
    intro same
    apply nonzero
    rw [← UInt64.toNat_xor, same, UInt64.toNat_zero]
  have log_eq : (left ^^^ right).log2.toNat = (left.toNat ^^^ right.toNat).log2 := rfl
  refine ⟨bound, ?_⟩
  rw [branchingBit, if_neg differs, UInt64.toNat_shiftLeft, log_eq, Nat.mod_eq_of_lt bound,
    UInt64.toNat_one, Nat.one_shiftLeft]
  exact Nat.mod_eq_of_lt (Nat.pow_lt_pow_right (by decide) bound)

theorem testBit_eq_of_log2_lt {left right i : Nat} (less : (left ^^^ right).log2 < i) :
    left.testBit i = right.testBit i := by
  have small : left ^^^ right < 2 ^ i :=
    Nat.lt_of_lt_of_le Nat.lt_log2_self (Nat.pow_le_pow_right (by decide) less)
  have equal := Nat.testBit_lt_two_pow small
  rw [Nat.testBit_xor] at equal
  simpa using equal

theorem above_branchingBit (ne : left ≠ right) :
    above left (branchingBit left right) = above right (branchingBit left right) := by
  rw [above_eq_above_iff (isBitAt_branchingBit ne)]
  intro i less
  exact testBit_eq_of_log2_lt less

theorem hasBit_branchingBit (ne : left ≠ right) :
    hasBit right (branchingBit left right) = !hasBit left (branchingBit left right) := by
  have bit := isBitAt_branchingBit ne
  have differ := Nat.testBit_log2 (xor_ne_zero ne)
  rw [Nat.testBit_xor] at differ
  rw [hasBit_eq_testBit bit, hasBit_eq_testBit bit, Bool.eq_not_iff]
  intro same
  rw [same, Bool.xor_self] at differ
  contradiction

theorem branch_of_above_ne {stem hash other : UInt64} (bit : IsBit mask)
    (shares : above other mask = stem) (differs : above hash mask ≠ stem) :
    hash ≠ stem ∧ above other (branchingBit hash stem) = above stem (branchingBit hash stem) ∧
      hasBit other (branchingBit hash stem) = hasBit stem (branchingBit hash stem) := by
  have stem_eq : above stem mask = stem := by
    rw [← shares, above_above bit]
  have ne : hash ≠ stem := by
    rintro rfl
    exact differs stem_eq
  obtain ⟨place, bitAt⟩ := bit
  -- The branching bit is above the mask, for below it the stem has no say.
  have place_lt : place < (hash.toNat ^^^ stem.toNat).log2 := by
    by_cases less : place < (hash.toNat ^^^ stem.toNat).log2
    · exact less
    · exfalso
      apply differs
      rw [← stem_eq, above_eq_above_iff bitAt]
      intro i placeLess
      exact testBit_eq_of_log2_lt (by omega)
  have agree : ∀ i, place < i → other.toNat.testBit i = stem.toNat.testBit i := by
    rw [← above_eq_above_iff bitAt, shares, stem_eq]
  have branching := isBitAt_branchingBit ne
  refine ⟨ne, ?_, ?_⟩
  · rw [above_eq_above_iff branching]
    intro i less
    exact agree i (by omega)
  · rw [hasBit_eq_testBit branching, hasBit_eq_testBit branching]
    exact agree _ place_lt

end BranchingBit
end Trie
end ByNeed
