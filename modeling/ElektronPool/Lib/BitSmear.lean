import Mathlib.Tactic.Common
import Mathlib.Tactic.Ring

namespace ElektronPool.Lib.BitSmear

variable {w : ℕ} {x y : BitVec w} {m k i : ℕ}

def signedBit (x : BitVec w) (i : ℕ) : Bool := if i < w then x.getLsbD i else x.msb

/-- `y` has a bit set exactly where `x` has one set among the next `m`. -/
def Covers (m : ℕ) (x y : BitVec w) : Prop :=
  ∀ i, signedBit y i = true ↔ ∃ j < m, signedBit x (i + j) = true

theorem signedBit_sshiftRight : signedBit (x.sshiftRight k) i = signedBit x (i + k) := by
  simp only [signedBit, BitVec.getLsbD_sshiftRight, BitVec.msb_sshiftRight]
  by_cases hi : i < w
  · by_cases hk : i + k < w
    · have hk' : k + i < w := by omega
      have hi' : ¬ w ≤ i := by omega
      simp [hi, hk', hi', Nat.add_comm]
    · have hk' : ¬ k + i < w := by omega
      have hi' : ¬ w ≤ i := by omega
      simp [hi, hk, hk', hi']
  · have hk : ¬ i + k < w := by omega
    simp [hi, hk]

theorem signedBit_or : signedBit (x ||| y) i = (signedBit x i || signedBit y i) := by
  simp only [signedBit]
  split <;> simp

theorem covers_self : Covers 1 x x := fun i ↦
  ⟨fun h ↦ ⟨0, by omega, h⟩, fun ⟨j, hj, h⟩ ↦ by
    obtain rfl : j = 0 := by omega
    exact h⟩

/-- Or-ing in a copy shifted by `k` looks `k` places further. -/
theorem Covers.or_sshiftRight (h : Covers m x y) (hk : k ≤ m) :
    Covers (m + k) x (y ||| y.sshiftRight k) := by
  intro i
  rw [signedBit_or, signedBit_sshiftRight, Bool.or_eq_true, h, h]
  constructor
  · rintro (⟨j, hj, hx⟩ | ⟨j, hj, hx⟩)
    · exact ⟨j, by omega, hx⟩
    · exact ⟨k + j, by omega, by rwa [← Nat.add_assoc]⟩
  · rintro ⟨j, hj, hx⟩
    by_cases hjm : j < m
    · exact .inl ⟨j, hjm, hx⟩
    · refine .inr ⟨j - k, by omega, ?_⟩
      rwa [show i + k + (j - k) = i + j by omega]

theorem Covers.toNat_eq (h : Covers w x y) (hx : 0 < x.toInt) :
    y.toNat = 2 ^ (x.toNat.log2 + 1) - 1 := by
  have hmsb : x.msb = false := by
    rw [BitVec.msb_eq_toInt, decide_eq_false_iff_not]
    omega
  have hne : x.toNat ≠ 0 := by
    rw [BitVec.toInt_eq_toNat_of_msb hmsb] at hx
    omega
  have hlog : x.toNat.log2 < w := (Nat.log2_lt hne).mpr x.isLt
  apply Nat.eq_of_testBit_eq
  intro i
  rw [Nat.testBit_two_pow_sub_one]
  by_cases hi : i < w
  · have hbit := h i
    simp only [signedBit, if_pos hi, hmsb] at hbit
    change y.getLsbD i = _
    rw [Bool.eq_iff_iff, hbit, decide_eq_true_eq]
    constructor
    · rintro ⟨j, -, hj⟩
      split at hj
      · by_contra hlt
        have : x.toNat < 2 ^ (i + j) :=
          Nat.lt_log2_self.trans_le (Nat.pow_le_pow_right (by omega) (by omega))
        rw [BitVec.getLsbD, Nat.testBit_lt_two_pow this] at hj
        exact absurd hj (by simp)
      · exact absurd hj (by simp)
    · intro hle
      refine ⟨x.toNat.log2 - i, by omega, ?_⟩
      rw [show i + (x.toNat.log2 - i) = x.toNat.log2 by omega, if_pos hlog]
      exact Nat.testBit_log2 hne
  · have hy : y.toNat < 2 ^ i := y.isLt.trans_le (Nat.pow_le_pow_right (by omega) (by omega))
    rw [Nat.testBit_lt_two_pow hy]
    simp only [Bool.false_eq, decide_eq_false_iff_not]
    omega

/-- A negative word covered over its whole width is all ones. -/
theorem Covers.eq_allOnes (h : Covers w x y) (hx : x.msb = true) : y = BitVec.allOnes w := by
  apply BitVec.eq_of_getLsbD_eq
  intro i hi
  have hbit := (h i).mpr ⟨w - 1 - i, by omega, by
    rw [show i + (w - 1 - i) = w - 1 by omega, signedBit, if_pos (by omega)]
    simpa [BitVec.msb_eq_getLsbD_last] using hx⟩
  simpa [signedBit, hi] using hbit

end ElektronPool.Lib.BitSmear
