import ElektronPool.BlockSubmission

namespace ElektronPool.TargetComparison

open Lib Lib.Bytes Model Work BlockSubmission

variable {nBits : BitVec 32}

theorem quotient_le_quotient_iff {x y y' : ℚ} (hx : 0 < x) (hy : 0 < y) (hy' : 0 ≤ y') :
    quotient x y ≤ quotient x y' ↔ y' ≤ y := by
  rcases hy'.eq_or_lt with rfl | hpos
  · exact iff_of_true (by simp [quotient]) hy.le
  · rw [quotient, quotient, if_neg hy.ne', if_neg hpos.ne', WithTop.coe_le_coe]
    exact div_le_div_iff_of_pos_left hx hy hpos

theorem networkTarget_eq (hsize : 3 ≤ nBits.toNat / 2 ^ 24) :
    networkTarget nBits =
      (nBits.toNat % 2 ^ 23 * 256 ^ (nBits.toNat / 2 ^ 24 - 3) : ℕ) := by
  simp only [networkTarget, toInt_mantissa, toInt_exponent]
  have hsub : ((nBits.toNat / 2 ^ 24 : ℕ) : ℤ) - 3 = (nBits.toNat / 2 ^ 24 - 3 : ℕ) := by omega
  rw [hsub, zpow_natCast]
  push_cast
  rfl

/-- A hash has at least the difficulty of the network exactly when, as a number,
it is at most the target that the compact encoding stands for. -/
theorem networkDifficulty_le_iff (hashResult : Hash) (nBits : BitVec 32)
    (hmantissa : nBits.toNat % 2 ^ 23 ≠ 0) (hsize : 3 ≤ nBits.toNat / 2 ^ 24) :
    calculateNetworkDifficulty nBits ≤ hashDifficulty hashResult ↔
      ofLittleEndian hashResult.toList ≤
        nBits.toNat % 2 ^ 23 * 256 ^ (nBits.toNat / 2 ^ 24 - 3) := by
  have htarget : 0 < nBits.toNat % 2 ^ 23 * 256 ^ (nBits.toNat / 2 ^ 24 - 3) :=
    Nat.mul_pos (Nat.pos_of_ne_zero hmantissa) (by positivity)
  rw [calculateNetworkDifficulty, hashDifficulty, le256todouble_eq, trueDiffOne, mul_comm (2 ^ 208),
    networkTarget_eq hsize, quotient_le_quotient_iff (by norm_num) (by exact_mod_cast htarget)
      (Nat.cast_nonneg _), Nat.cast_le]

def easiest : Hash := ⟨List.replicate 26 0 ++ [0xff, 0xff, 0, 0, 0, 0], rfl⟩

theorem networkDifficulty_le_easiest :
    calculateNetworkDifficulty 0x1d00ffff#32 ≤ hashDifficulty easiest :=
  (networkDifficulty_le_iff easiest 0x1d00ffff#32 (by decide) (by decide)).mpr (by decide +kernel)

end ElektronPool.TargetComparison
