import Mathlib

/-!
Counters kept in machine words. A counter that only grows is a natural number seen
through `BitVec.ofNat`; two of its values less than a full turn apart are told apart
by their words, and a mask of `2 ^ bits - 1` selects the residue.
-/

namespace PulseMap

/-- `next_power_of_two` of a positive number. -/
def nextPowerOfTwo (number : Nat) : Nat := 2 ^ Nat.clog 2 number

theorem next_power_bits {number limit : Nat} (bound : number ≤ 2 ^ limit) :
    ∃ bits ≤ limit, nextPowerOfTwo (max number 1) = 2 ^ bits :=
  ⟨Nat.clog 2 (max number 1), Nat.clog_le_of_le_pow (max_le bound Nat.one_le_two_pow), rfl⟩

theorem le_next_power_of_two (number : Nat) : number ≤ nextPowerOfTwo number :=
  Nat.le_pow_clog (by decide) number

namespace Wrapping

variable {w : Nat}

theorem word_injective {low high : Nat} (ordered : low ≤ high) (near : high < low + 2 ^ w)
    (same : BitVec.ofNat w low = BitVec.ofNat w high) : low = high := by
  have residues : low % 2 ^ w = high % 2 ^ w := by
    simpa using congrArg BitVec.toNat same
  have turns : (high - low) % 2 ^ w = 0 := Nat.sub_mod_eq_zero_of_mod_eq residues.symm
  rw [Nat.mod_eq_of_lt (by omega)] at turns
  omega

theorem mask_index {bits : Nat} (bounded : bits ≤ w) (position : Nat) :
    (BitVec.ofNat w position &&& BitVec.ofNat w (2 ^ bits - 1)).toNat = position % 2 ^ bits := by
  have small : 2 ^ bits - 1 < 2 ^ w := by
    have monotone : 2 ^ bits ≤ 2 ^ w := Nat.pow_le_pow_right (by decide) bounded
    have positive : 0 < 2 ^ bits := by positivity
    omega
  rw [BitVec.toNat_and, BitVec.toNat_ofNat, BitVec.toNat_ofNat, Nat.mod_eq_of_lt small,
    Nat.and_two_pow_sub_one_eq_mod, Nat.mod_mod_of_dvd _ (Nat.pow_dvd_pow 2 bounded)]

/-- Two positions of one window of `size` positions that share a residue are equal. -/
theorem window_injective {size start left right : Nat}
    (leftIn : start ≤ left ∧ left < start + size) (rightIn : start ≤ right ∧ right < start + size)
    (same : left % size = right % size) : left = right := by
  rcases Nat.le_total left right with ordered | ordered
  · have turns := Nat.sub_mod_eq_zero_of_mod_eq same.symm
    rw [Nat.mod_eq_of_lt (by omega)] at turns
    omega
  · have turns := Nat.sub_mod_eq_zero_of_mod_eq same
    rw [Nat.mod_eq_of_lt (by omega)] at turns
    omega

end Wrapping

end PulseMap
