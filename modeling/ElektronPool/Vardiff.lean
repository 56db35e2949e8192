import ElektronPool.Lib.BitSmear
import ElektronPool.ShareAccounting

namespace ElektronPool.Vardiff

open Lib.Runs Lib.BitSmear Lib.FloatingPoint Model Model.StratumV1ClientStatistics
  ShareAccounting
open Lib.FloatingPoint.Arithmetic (binary64)

section HighestBit

variable {x : BitVec 32}

/-- The five shifts of the source reach over the whole word. -/
theorem highestBit_eq (x : BitVec 32) :
    ∃ y, Covers 32 x y ∧ highestBit x = y.toInt - (y.sshiftRight 1).toInt := by
  have h := ((((covers_self (x := x)).or_sshiftRight (k := 1) (by omega)).or_sshiftRight (k := 2)
    (by omega)).or_sshiftRight (k := 4) (by omega)).or_sshiftRight (k := 8) (by omega)
    |>.or_sshiftRight (k := 16) (by omega)
  refine ⟨_, h, ?_⟩
  simp only [highestBit, BitVec.sshiftRight_zero, BitVec.or_self]

theorem highestBit_of_pos (h : 0 < x.toInt) : highestBit x = 2 ^ x.toNat.log2 := by
  obtain ⟨y, hy, hres⟩ := highestBit_eq x
  have hlog : x.toNat.log2 < 31 := by
    have hmsb : x.msb = false := by
      rw [BitVec.msb_eq_toInt, decide_eq_false_iff_not]
      omega
    have hlt := BitVec.toNat_lt_of_msb_false hmsb
    refine (Nat.log2_lt ?_).mpr (by simpa using hlt)
    rw [BitVec.toInt_eq_toNat_of_msb hmsb] at h
    omega
  have hnat := hy.toNat_eq h
  have hpow : 2 ^ (x.toNat.log2 + 1) ≤ 2 ^ 31 := Nat.pow_le_pow_right (by omega) (by omega)
  have hpos : 0 < 2 ^ x.toNat.log2 := Nat.two_pow_pos _
  rw [pow_succ] at hnat hpow
  have hint : y.toInt = y.toNat := BitVec.toInt_eq_toNat_of_lt (by omega)
  rw [hres, BitVec.toInt_sshiftRight, Int.shiftRight_eq_div_pow, hint, hnat]
  push_cast [Nat.cast_sub (show 1 ≤ 2 ^ x.toNat.log2 * 2 by omega)]
  omega

theorem highestBit_of_nonpos (h : x.toInt ≤ 0) : highestBit x = 0 := by
  rcases h.lt_or_eq with h | h
  · obtain ⟨y, hy, hres⟩ := highestBit_eq x
    have hmsb : x.msb = true := by rw [BitVec.msb_eq_toInt]; exact decide_eq_true h
    rw [hres, hy.eq_allOnes hmsb]
    rfl
  · obtain rfl : x = 0#32 := BitVec.eq_of_toInt_eq (by simpa using h)
    rfl

end HighestBit

section Rounding

variable (A : Arithmetic)

def multiplied (val : ℚ) (k : ℕ) : ℚ := (fun v ↦ A.round (v * 100))^[k] val

def divided (r : ℚ) (k : ℕ) : ℚ := (fun r ↦ A.round (r / 100))^[k] r

def truncated (val : ℚ) (k : ℕ) : ℤ := (BitVec.ofInt 32 ⌊multiplied A val k⌋).toInt

/-- `k` multiplications by a hundred make the value positive as a 32-bit integer, and no fewer. -/
def PositiveAfter (val : ℚ) (k : ℕ) : Prop :=
  (∀ j < k, truncated A val j ≤ 0) ∧ 0 < truncated A val k

/-- No multiplication by a hundred before the `k`th gives an infinite value. -/
def FiniteUpTo (val : ℚ) (k : ℕ) : Prop := ∀ j < k, A.overflows (multiplied A val (j + 1)) = false

/-- What a value the code holds and does not replace by the minimum satisfies. -/
structure Rounded (val : ℚ) : Prop where
  pos : 0 < A.round minDiff
  le : A.round minDiff ≤ val
  round : A.round val = val

variable {A} {val : ℚ} {k stack : ℕ}

theorem PositiveAfter.unique {k' : ℕ} (h : PositiveAfter A val k) (h' : PositiveAfter A val k') :
    k = k' := by
  rcases lt_trichotomy k k' with hlt | heq | hlt
  · exact absurd (h'.1 k hlt) (not_le.mpr h.2)
  · exact heq
  · exact absurd (h.1 k' hlt) (not_le.mpr h'.2)

theorem truncated_succ (j : ℕ) :
    truncated A (A.round (val * 100)) j = truncated A val (j + 1) := rfl

theorem divided_succ (r : ℚ) (k : ℕ) :
    divided A r (k + 1) = A.round (divided A r k / 100) :=
  Function.iterate_succ_apply' (fun r ↦ A.round (r / 100)) k r

theorem Rounded.nonneg (h : Rounded A val) : 0 ≤ val := h.pos.le.trans h.le

theorem Rounded.le_multiply (h : Rounded A val) : val ≤ A.round (val * 100) :=
  calc val = A.round val := h.round.symm
    _ ≤ A.round (val * 100) := A.round_mono (by linarith [h.nonneg])

theorem Rounded.multiply (h : Rounded A val) : Rounded A (A.round (val * 100)) :=
  ⟨h.pos, h.le.trans h.le_multiply, A.round_round _⟩

theorem toInt_toInt32 (h : 0 ≤ val) : (toInt32 (val : Difficulty)).toInt = truncated A val 0 := by
  simp only [toInt32, truncated, if_pos h, multiplied, Function.iterate_zero, id_eq]

theorem highestBit_toInt32 (hval : 0 ≤ val) (h : 0 < truncated A val 0) :
    highestBit (toInt32 (val : Difficulty)) = 2 ^ (truncated A val 0).toNat.log2 := by
  rw [← toInt_toInt32 hval] at h ⊢
  have hmsb : (toInt32 (val : Difficulty)).msb = false := by
    rw [BitVec.msb_eq_toInt, decide_eq_false_iff_not]
    omega
  rw [highestBit_of_pos h, BitVec.toInt_eq_toNat_of_msb hmsb, Int.toNat_natCast]

theorem nearestPowerOfTwo_succ (h : Rounded A val) :
    nearestPowerOfTwo A (stack + 1) (val : Difficulty) =
      if highestBit (toInt32 (val : Difficulty)) = 0 then
        if A.number (val * 100 : ℚ) < (A.round minDiff : ℚ) then .ok (some (A.round minDiff))
        else (nearestPowerOfTwo A stack (A.number (val * 100 : ℚ))).map fun r ↦
          some (A.round (r.getD 0 / 100))
      else .ok (some (highestBit (toInt32 (val : Difficulty)) : ℚ)) := by
  have hne : (val : Difficulty) ≠ 0 := by
    rw [ne_eq, WithTop.coe_eq_zero]
    exact (h.pos.trans_le h.le).ne'
  have hlt : ¬ (val : Difficulty) < (A.round minDiff : ℚ) := by
    rw [WithTop.coe_lt_coe]
    exact not_lt.mpr h.le
  have hmul : (val : Difficulty) * 100 = ((val * 100 : ℚ) : Difficulty) := by
    rw [WithTop.coe_mul, WithTop.coe_ofNat]
  simp only [nearestPowerOfTwo, hmul, if_neg hne, if_neg hlt]
  by_cases hbit : highestBit (toInt32 (val : Difficulty)) = 0
  · simp only [hbit, true_and, if_true]
  · simp only [hbit, false_and, if_false]

theorem nearestPowerOfTwo_of_pos (h : Rounded A val) (hpos : 0 < truncated A val 0) :
    nearestPowerOfTwo A (stack + 1) (val : Difficulty) =
      .ok (some (2 ^ (truncated A val 0).toNat.log2)) := by
  have hpow : (2 : ℤ) ^ (truncated A val 0).toNat.log2 ≠ 0 := by positivity
  rw [nearestPowerOfTwo_succ h, highestBit_toInt32 h.nonneg hpos, if_neg hpow]
  push_cast
  rfl

theorem nearestPowerOfTwo_of_nonpos (h : Rounded A val) (hnonpos : truncated A val 0 ≤ 0)
    (hfinite : A.overflows (A.round (val * 100)) = false) :
    nearestPowerOfTwo A (stack + 1) (val : Difficulty) =
      (nearestPowerOfTwo A stack (A.round (val * 100) : ℚ)).map fun r ↦
        some (A.round (r.getD 0 / 100)) := by
  rw [← toInt_toInt32 h.nonneg] at hnonpos
  have hlt : ¬ ((A.round (val * 100) : ℚ) : Difficulty) < (A.round minDiff : ℚ) := by
    rw [WithTop.coe_lt_coe]
    exact not_lt.mpr h.multiply.le
  rw [nearestPowerOfTwo_succ h, highestBit_of_nonpos hnonpos, if_pos rfl,
    Arithmetic.number_coe hfinite, if_neg hlt]

theorem nearestPowerOfTwo_of_positiveAfter (h : Rounded A val) (hpos : PositiveAfter A val k)
    (hfinite : FiniteUpTo A val k) (hstack : k < stack) :
    nearestPowerOfTwo A stack (val : Difficulty) =
      .ok (some (divided A (2 ^ (truncated A val k).toNat.log2) k)) := by
  induction k generalizing val stack with
  | zero =>
    obtain ⟨stack, rfl⟩ := Nat.exists_eq_add_of_lt hstack
    rw [Nat.zero_add, nearestPowerOfTwo_of_pos h hpos.2]
    rfl
  | succ k ih =>
    obtain ⟨stack, rfl⟩ : ∃ m, stack = m + 1 := ⟨stack - 1, by omega⟩
    have hnext : PositiveAfter A (A.round (val * 100)) k :=
      ⟨fun j hj ↦ hpos.1 (j + 1) (by omega), hpos.2⟩
    have hfinite' : FiniteUpTo A (A.round (val * 100)) k := fun j hj ↦ hfinite (j + 1) (by omega)
    rw [nearestPowerOfTwo_of_nonpos h (hpos.1 0 (by omega)) (hfinite 0 (by omega)),
      ih h.multiply hnext hfinite' (by omega), truncated_succ, divided_succ]
    rfl

theorem nearestPowerOfTwo_of_forall_nonpos (h : Rounded A val)
    (hnonpos : ∀ j < stack, truncated A val j ≤ 0) (hfinite : FiniteUpTo A val stack) :
    nearestPowerOfTwo A stack (val : Difficulty) = .error .maximumCallStackSizeExceeded := by
  induction stack generalizing val with
  | zero => rfl
  | succ stack ih =>
    rw [nearestPowerOfTwo_of_nonpos h (hnonpos 0 (by omega)) (hfinite 0 (by omega)),
      ih h.multiply (fun j hj ↦ hnonpos (j + 1) (by omega)) fun j hj ↦ hfinite (j + 1) (by omega)]
    rfl

/-- Whatever the call stack is, the quotient of a division by zero exhausts it. -/
theorem nearestPowerOfTwo_top :
    nearestPowerOfTwo A stack ⊤ = .error .maximumCallStackSizeExceeded := by
  induction stack with
  | zero => rfl
  | succ stack ih =>
    have hbit : highestBit (toInt32 ⊤) = 0 := rfl
    have hmul : (⊤ : Difficulty) * 100 = ⊤ := WithTop.top_mul (by norm_num)
    simp [nearestPowerOfTwo, hbit, hmul, ih, Except.map]

theorem nearestPowerOfTwo_of_lt (hne : val ≠ 0) (hlt : val < A.round minDiff) :
    nearestPowerOfTwo A (stack + 1) (val : Difficulty) = .ok (some (A.round minDiff)) := by
  have hne' : (val : Difficulty) ≠ 0 := by rwa [ne_eq, WithTop.coe_eq_zero]
  simp only [nearestPowerOfTwo, if_neg hne', if_pos (WithTop.coe_lt_coe.mpr hlt)]

end Rounding

section Below

structure HoldsHundred (A : Arithmetic) : Prop where
  round : A.round 100 = 100
  finite : ∀ x ≤ 100, A.overflows x = false

variable {A : Arithmetic} {val : ℚ} {k m : ℕ}

theorem multiplied_mono (A : Arithmetic) (k : ℕ) : Monotone fun val ↦ multiplied A val k := by
  have hstep : Monotone fun v : ℚ ↦ A.round (v * 100) := fun v v' h ↦
    A.round_mono (by linarith)
  exact hstep.iterate k

theorem Rounded.multiplied (h : Rounded A val) (k : ℕ) : Rounded A (multiplied A val k) := by
  induction k generalizing val with
  | zero => exact h
  | succ k ih => exact ih h.multiply

theorem multiplied_le_hundred (hA : HoldsHundred A) (hbelow : multiplied A val k < 1) :
    multiplied A val (k + 1) ≤ 100 := by
  have hsucc : multiplied A val (k + 1) = A.round (multiplied A val k * 100) :=
    Function.iterate_succ_apply' (fun v ↦ A.round (v * 100)) k val
  calc multiplied A val (k + 1) = A.round (multiplied A val k * 100) := hsucc
    _ ≤ A.round 100 := A.round_mono (by linarith)
    _ = 100 := hA.round

/-- The first multiplication that reaches one, with the highest bit of what it gives. -/
structure Reaches (A : Arithmetic) (val : ℚ) (k m : ℕ) : Prop where
  below : ∀ j < k, multiplied A val j < 1
  low : 2 ^ m ≤ multiplied A val k
  high : multiplied A val k < 2 ^ (m + 1)

theorem Reaches.positiveAfter (h : Reaches A val k m) (hA : HoldsHundred A) (hval : Rounded A val)
    (hlt : val < 2 ^ 31) :
    PositiveAfter A val k ∧ FiniteUpTo A val k ∧ (truncated A val k).toNat.log2 = m := by
  have hword {j : ℕ} (hj : multiplied A val j < 2 ^ 31) :
      truncated A val j = ⌊multiplied A val j⌋ := by
    have hfloor : 0 ≤ ⌊multiplied A val j⌋ := Int.floor_nonneg.mpr (hval.multiplied j).nonneg
    have hfloor' : ⌊multiplied A val j⌋ < 2 ^ 31 := Int.floor_lt.mpr (by exact_mod_cast hj)
    rw [truncated, BitVec.toInt_ofInt, Int.bmod_eq_of_le (by omega) (by omega)]
  have hbound : multiplied A val k < 2 ^ 31 := by
    cases k with
    | zero => exact hlt
    | succ k => linarith [multiplied_le_hundred hA (h.below k (by omega))]
  have htrunc := hword hbound
  have hlow : (2 : ℤ) ^ m ≤ ⌊multiplied A val k⌋ := Int.le_floor.mpr (by exact_mod_cast h.low)
  have hhigh : ⌊multiplied A val k⌋ < 2 ^ (m + 1) := Int.floor_lt.mpr (by exact_mod_cast h.high)
  have hone : (1 : ℤ) ≤ 2 ^ m := one_le_pow₀ one_le_two
  refine ⟨⟨fun j hj ↦ ?_, by omega⟩, fun j hj ↦ ?_, ?_⟩
  · have hj := h.below j hj
    rw [hword (by linarith)]
    exact Int.lt_add_one_iff.mp (Int.floor_lt.mpr (by exact_mod_cast hj))
  · exact hA.finite _ (multiplied_le_hundred hA (h.below j hj))
  · rw [htrunc]
    obtain ⟨n, hn⟩ : ∃ n : ℕ, ⌊multiplied A val k⌋ = n := ⟨_, (Int.toNat_of_nonneg (by omega)).symm⟩
    rw [hn] at hlow hhigh ⊢
    rw [Int.toNat_natCast, Nat.log2_eq_iff (by omega)]
    exact ⟨by exact_mod_cast hlow, by exact_mod_cast hhigh⟩

theorem exists_reaches (h : 1 ≤ multiplied A val 3) : ∃ k ≤ 3, ∃ m, Reaches A val k m := by
  have hex : ∃ k, 1 ≤ multiplied A val k := ⟨3, h⟩
  classical
  have hfirst := Nat.find_spec hex
  have hne : ⌊multiplied A val (Nat.find hex)⌋.toNat ≠ 0 := by
    have : 1 ≤ ⌊multiplied A val (Nat.find hex)⌋ := Int.le_floor.mpr (by exact_mod_cast hfirst)
    omega
  have hfloor : ((⌊multiplied A val (Nat.find hex)⌋.toNat : ℤ) : ℚ) =
      ⌊multiplied A val (Nat.find hex)⌋ := by
    rw [Int.toNat_of_nonneg (by omega)]
  refine ⟨_, Nat.find_min' hex h, ⌊multiplied A val (Nat.find hex)⌋.toNat.log2,
    fun j hj ↦ not_le.mp (Nat.find_min hex hj), ?_, ?_⟩
  · refine le_trans ?_ (Int.floor_le _)
    rw [← hfloor]
    exact_mod_cast Nat.log2_self_le hne
  · refine (Int.lt_floor_add_one _).trans_le ?_
    rw [← hfloor]
    exact_mod_cast Nat.lt_log2_self

end Below

section Doubles

variable {x v : ℚ} {j : ℤ} {k m : ℕ}

theorem represents_of_round (hv : binary64.round v = v) : Format.binary64.Represents v :=
  hv ▸ Format.represents_round v

theorem represents_intCast {n : ℤ} (h : |n| ≤ 2 ^ 53) : Format.binary64.Represents n :=
  ⟨n, 0, h, by decide, by simp⟩

theorem round_intCast {n : ℤ} (h : |n| ≤ 2 ^ 53) : binary64.round n = n :=
  Format.round_of_represents (represents_intCast h)

theorem overflows_of_le (h : x ≤ 2 ^ 40) : binary64.overflows x = false := by
  have hpow : (2 : ℚ) ^ (40 : ℤ) < 2 ^ (1024 : ℤ) := zpow_lt_zpow_right₀ one_lt_two (by norm_num)
  exact decide_eq_false (not_le.mpr (lt_of_le_of_lt (by exact_mod_cast h) hpow))

theorem number_of_le (h : x ≤ 2 ^ 40) : binary64.number (x : ℚ) = (binary64.round x : ℚ) := by
  apply Arithmetic.number_coe
  apply overflows_of_le
  have hle := Format.round_le (represents_intCast (n := 2 ^ 40) (by decide)) (x := x)
    (by exact_mod_cast h)
  exact_mod_cast hle

theorem holdsHundred_binary64 : HoldsHundred binary64 :=
  ⟨round_intCast (n := 100) (by decide), fun x hx ↦ overflows_of_le (by linarith)⟩

theorem le_minDiff : 1 / 2 ^ 17 ≤ binary64.round minDiff :=
  Format.le_round ⟨1, -17, by decide, by decide, by norm_num⟩ (by norm_num [minDiff])

theorem minDiff_le : binary64.round minDiff ≤ 1 / 2 ^ 16 :=
  Format.round_le ⟨1, -16, by decide, by decide, by norm_num⟩ (by norm_num [minDiff])

theorem normal_of_le (h : 1 / 10 ^ 12 ≤ x) : Format.binary64.Normal x := by
  have hpow : (2 : ℚ) ^ (-1022 : ℤ) ≤ 2 ^ (-40 : ℤ) := zpow_le_zpow_right₀ one_le_two (by norm_num)
  have hsmall : (2 : ℚ) ^ (-40 : ℤ) ≤ 1 / 10 ^ 12 := by norm_num
  exact (hpow.trans (hsmall.trans h)).trans (le_abs_self x)

theorem round_two_zpow_mul (hj : -1 ≤ j) (h : 1 / 10 ^ 11 ≤ x) :
    binary64.round (2 ^ j * x) = 2 ^ j * binary64.round x := by
  have hhalf : (2 : ℚ) ^ (-1 : ℤ) ≤ 2 ^ j := zpow_le_zpow_right₀ one_le_two hj
  have hpos : (0 : ℚ) < 1 / 10 ^ 11 := by norm_num
  have hmul : 1 / 10 ^ 12 ≤ 2 ^ j * x :=
    calc (1 : ℚ) / 10 ^ 12 ≤ 2 ^ (-1 : ℤ) * (1 / 10 ^ 11) := by norm_num
      _ ≤ 2 ^ j * x := mul_le_mul hhalf h hpos.le (by positivity)
  exact Format.round_two_zpow_mul (normal_of_le (by linarith)) (normal_of_le hmul)

/-- One divided by a hundred up to three times, and each quotient multiplied by a hundred again:
the first two give what was divided, the third gives less. -/
theorem hundredths :
    (∀ k < 4, 1 / 10 ^ 7 ≤ divided binary64 1 k) ∧
    (∀ k < 3, binary64.round (divided binary64 1 (k + 1) * 100) ≤ divided binary64 1 k) ∧
    ∀ k < 2, divided binary64 1 k ≤ binary64.round (divided binary64 1 (k + 1) * 100) := by
  decide +kernel

/-- The minimum lies between eight and sixteen of the smallest quotients; sixteen of them are the
double for sixteen millionths, which three multiplications do not bring back to sixteen. -/
theorem sixteenMillionths :
    (∀ k < 3, binary64.round minDiff ≤ divided binary64 1 k) ∧
    (∀ k < 3, multiplied binary64 (binary64.round (16 / 1000000)) k < 1) ∧
    multiplied binary64 (binary64.round (16 / 1000000)) 3 < 2 ^ 4 ∧
    2 ^ 3 * divided binary64 1 3 < binary64.round minDiff ∧
    binary64.round minDiff ≤ 2 ^ 4 * divided binary64 1 3 ∧
    binary64.round (16 / 1000000) = 2 ^ 4 * divided binary64 1 3 := by
  decide +kernel

theorem round_divided_one (k : ℕ) : binary64.round (divided binary64 1 k) = divided binary64 1 k := by
  cases k with
  | zero =>
    have hone := round_intCast (n := 1) (by decide)
    rwa [Int.cast_one] at hone
  | succ k => rw [divided_succ, Arithmetic.round_round]

theorem divided_two_pow (m : ℕ) (hk : k ≤ 3) :
    divided binary64 (2 ^ m) k = 2 ^ m * divided binary64 1 k := by
  induction k with
  | zero => exact (mul_one _).symm
  | succ k ih =>
    have hle := hundredths.1 k (by omega)
    have hround := round_two_zpow_mul (j := m) (x := divided binary64 1 k / 100) (by omega)
      (by linarith)
    rw [zpow_natCast] at hround
    rw [divided_succ, divided_succ, ih (by omega), ← hround, mul_div_assoc]

theorem multiplied_le (hj : -1 ≤ j) (hk : k ≤ 3) (h : v ≤ 2 ^ j * divided binary64 1 k) :
    multiplied binary64 v k ≤ 2 ^ j := by
  induction k generalizing v with
  | zero => exact h.trans (mul_one _).le
  | succ k ih =>
    apply ih (by omega)
    have hscale : (0 : ℚ) < 2 ^ j := by positivity
    have hle := hundredths.1 (k + 1) (by omega)
    calc binary64.round (v * 100)
        ≤ binary64.round (2 ^ j * (divided binary64 1 (k + 1) * 100)) :=
          binary64.round_mono (by linarith)
      _ = 2 ^ j * binary64.round (divided binary64 1 (k + 1) * 100) :=
          round_two_zpow_mul hj (by linarith)
      _ ≤ 2 ^ j * divided binary64 1 k :=
          mul_le_mul_of_nonneg_left (hundredths.2.1 k (by omega)) hscale.le

theorem le_multiplied_of_le (hj : -1 ≤ j) (hk : k ≤ 2) (h : 2 ^ j * divided binary64 1 k ≤ v) :
    2 ^ j ≤ multiplied binary64 v k := by
  induction k generalizing v with
  | zero => exact (mul_one _).symm.le.trans h
  | succ k ih =>
    apply ih (by omega)
    have hscale : (0 : ℚ) < 2 ^ j := by positivity
    have hle := hundredths.1 (k + 1) (by omega)
    calc 2 ^ j * divided binary64 1 k
        ≤ 2 ^ j * binary64.round (divided binary64 1 (k + 1) * 100) :=
          mul_le_mul_of_nonneg_left (hundredths.2.2 k (by omega)) hscale.le
      _ = binary64.round (2 ^ j * (divided binary64 1 (k + 1) * 100)) :=
          (round_two_zpow_mul hj (by linarith)).symm
      _ ≤ binary64.round (v * 100) := binary64.round_mono (by linarith)

theorem le_multiplied_of_lt (hv : binary64.round v = v) (hj : -1 ≤ j) (hk : k ≤ 3)
    (h : 2 ^ j * divided binary64 1 k < v) : 2 ^ j ≤ multiplied binary64 v k := by
  cases k with
  | zero => exact (mul_one _).symm.le.trans h.le
  | succ k =>
    have hle := hundredths.1 k (by omega)
    apply le_multiplied_of_le (v := binary64.round (v * 100)) hj (by omega)
    rw [divided_succ, ← round_two_zpow_mul hj (by linarith)] at h
    have hlt := Format.lt_of_round_lt (represents_of_round hv) h
    calc 2 ^ j * divided binary64 1 k
        = 2 ^ j * binary64.round (divided binary64 1 k) := by rw [round_divided_one]
      _ = binary64.round (2 ^ j * divided binary64 1 k) :=
          (round_two_zpow_mul hj (by linarith)).symm
      _ ≤ binary64.round (v * 100) := binary64.round_mono (by linarith)

/-- What is returned is less than a factor of two above the value and at most one below it. -/
theorem Reaches.bounds (h : Reaches binary64 v k m) (hv : binary64.round v = v) (hk : k ≤ 3) :
    v ≤ 2 * divided binary64 (2 ^ m) k ∧ divided binary64 (2 ^ m) k < 2 * v := by
  rw [divided_two_pow m hk]
  constructor
  · by_contra hlt
    have hscale : 2 ^ ((m + 1 : ℕ) : ℤ) * divided binary64 1 k < v := by
      rw [zpow_natCast, pow_succ]
      linarith
    have hreached := le_multiplied_of_lt hv (by omega) hk hscale
    rw [zpow_natCast] at hreached
    exact absurd h.high (not_lt.mpr hreached)
  · by_contra hle
    have hhalf : (2 : ℚ) ^ ((m : ℤ) - 1) = 2 ^ m / 2 := by
      rw [zpow_sub_one₀ two_ne_zero, zpow_natCast, div_eq_mul_inv]
    have hscale : v ≤ 2 ^ ((m : ℤ) - 1) * divided binary64 1 k := by
      rw [hhalf]
      linarith
    have hreached := multiplied_le (by omega) hk hscale
    have hpos : (0 : ℚ) < 2 ^ m := by positivity
    rw [hhalf] at hreached
    linarith [h.low]

theorem rounded_of_le (hv : binary64.round v = v) (h : binary64.round minDiff ≤ v) :
    Rounded binary64 v :=
  ⟨lt_of_lt_of_le (by norm_num) le_minDiff, h, hv⟩

theorem one_le_multiplied (hv : binary64.round v = v) (h : binary64.round minDiff ≤ v) :
    1 ≤ multiplied binary64 v 3 := by
  have hpos := hundredths.1 3 (by omega)
  have hlt : divided binary64 1 3 < v := by linarith [sixteenMillionths.2.2.2.1]
  have hreached := le_multiplied_of_lt (j := 0) hv (by omega) le_rfl (by simpa using hlt)
  simpa using hreached

/-- Below `2 ^ 31` four frames of the call stack are enough, and what is returned
is within a factor of two. -/
theorem nearestPowerOfTwo_binary64 (hv : binary64.round v = v) (hmin : binary64.round minDiff ≤ v)
    (hlt : v < 2 ^ 31) : ∃ k ≤ 3, ∃ m, Reaches binary64 v k m ∧
      (∀ stack, nearestPowerOfTwo binary64 stack (v : Difficulty) =
        if k < stack then .ok (some (divided binary64 (2 ^ m) k))
        else .error .maximumCallStackSizeExceeded) := by
  obtain ⟨k, hk, m, hreaches⟩ := exists_reaches (one_le_multiplied hv hmin)
  have hrounded := rounded_of_le hv hmin
  obtain ⟨hpos, hfinite, hlog⟩ := hreaches.positiveAfter holdsHundred_binary64 hrounded hlt
  refine ⟨k, hk, m, hreaches, fun stack ↦ ?_⟩
  split_ifs with hstack
  · rw [nearestPowerOfTwo_of_positiveAfter hrounded hpos hfinite hstack, hlog]
  · exact nearestPowerOfTwo_of_forall_nonpos hrounded (fun j hj ↦ hpos.1 j (by omega))
      fun j hj ↦ hfinite j (by omega)

theorem Reaches.minDiff_le_iff (h : Reaches binary64 v k m) (hv : binary64.round v = v)
    (hk : k ≤ 3) :
    binary64.round minDiff ≤ divided binary64 (2 ^ m) k ↔ binary64.round (16 / 1000000) < v := by
  obtain ⟨hquotient, hbelow, hfifteen, height, hsixteen, heq⟩ := sixteenMillionths
  have hone : (1 : ℚ) ≤ 2 ^ m := one_le_pow₀ one_le_two
  have hpos := hundredths.1 k (by omega)
  rw [divided_two_pow m hk]
  constructor
  · intro hle
    by_contra hsmall
    have hmono (i : ℕ) := multiplied_mono binary64 i (not_lt.mp hsmall)
    obtain rfl : k = 3 := by
      by_contra hne
      have hlt := (hmono k).trans_lt (hbelow k (by omega))
      linarith [h.low]
    have hm : m < 4 :=
      (pow_lt_pow_iff_right₀ one_lt_two).mp ((h.low.trans (hmono 3)).trans_lt hfifteen)
    have hpow : (2 : ℚ) ^ m ≤ 2 ^ 3 := pow_le_pow_right₀ one_le_two (by omega)
    nlinarith
  · intro hlt
    rcases hk.lt_or_eq with hk | rfl
    · have hle := hquotient k (by omega)
      nlinarith
    · rw [heq, ← zpow_natCast] at hlt
      have hreached := le_multiplied_of_lt hv (by omega) le_rfl hlt
      rw [zpow_natCast] at hreached
      have hm : 4 < m + 1 := (pow_lt_pow_iff_right₀ one_lt_two).mp (hreached.trans_lt h.high)
      have hpow : (2 : ℚ) ^ 4 ≤ 2 ^ m := pow_le_pow_right₀ one_le_two (by omega)
      nlinarith

end Doubles

/-- No division by zero, a result, and one that is `null` or not below the minimum. -/
def Sane (statistics : StratumV1ClientStatistics) (clientDifficulty : ℚ) (now : ℕ) : Prop :=
  (5 ≤ statistics.submissionCache.length → statistics.diffSeconds ≠ 0) ∧
    ∃ stack suggested, statistics.getSuggestedDifficulty stack clientDifficulty now =
      .ok suggested ∧ ∀ d ∈ suggested, binary64.round minDiff ≤ d

def span (cache : List CachedSubmission) : ℤ :=
  (cache.getLast?.elim 0 fun cached ↦ (cached.time : ℤ)) -
    cache.head?.elim 0 fun cached ↦ (cached.time : ℤ)

def rate (cache : List CachedSubmission) : Difficulty :=
  let work := cache.foldl (fun pre cur ↦ binary64.number (pre + cur.difficulty)) 0
  binary64.number
    (binary64.number (divide work (binary64.round (span cache / 1000))) * (10 : ℚ))

/-- Below the minimum, or above sixteen millionths and below `2 ^ 31`. -/
def Sensible (val : Difficulty) : Prop :=
  val < (binary64.round minDiff : ℚ) ∨
    (binary64.round (16 / 1000000) : ℚ) < val ∧ val < (2 ^ 31 : ℚ)

/-- When a difficulty is announced for want of shares, a sixth of the session's satisfies `P`; when
there are shares, the first and the last cached one differ in time, and their rate satisfies `P` if
it is off the session's difficulty by more than a factor of two. -/
def Calls (P : Difficulty → Prop) (statistics : StratumV1ClientStatistics) (clientDifficulty : ℚ)
    (now : ℕ) : Prop :=
  let cache := statistics.submissionCache
  if cache.length < 5 then
    60 < ((now : ℚ) - statistics.submissionCacheStart) / 1000 →
      P (binary64.number (clientDifficulty / 6 : ℚ))
  else
    span cache ≠ 0 ∧
      (binary64.number (clientDifficulty * 2 : ℚ) < rate cache ∨
          rate cache < binary64.number (clientDifficulty / 2 : ℚ) →
        P (rate cache))

section Suggestion

variable {val : Difficulty} {statistics : StratumV1ClientStatistics} {P Q : Difficulty → Prop}
  {d : ℚ} {now : ℕ}

theorem lt_round_iff (ms : ℤ) : 60 < binary64.round (ms / 1000) ↔ (60 : ℚ) < ms / 1000 := by
  constructor
  · intro h
    exact Format.lt_of_lt_round (represents_intCast (n := 60) (by decide)) h
  · intro h
    have hms : (60000 : ℚ) < ms := by linarith
    have hms' : (60001 : ℚ) ≤ ms := by exact_mod_cast hms
    have hbetween : Format.binary64.Represents (61441 / 1024) :=
      ⟨61441, -10, by decide, by decide, by norm_num⟩
    have hround := Format.le_round hbetween (x := ms / 1000) (by linarith)
    exact lt_of_lt_of_le (by norm_num) hround

theorem round_ne_zero_iff (ms : ℤ) : binary64.round (ms / 1000) ≠ 0 ↔ ms ≠ 0 := by
  constructor
  · rintro h rfl
    apply h
    simpa using round_intCast (n := 0) (by decide)
  · intro h
    rcases lt_or_gt_of_ne h with hneg | hpos
    · have hms : (ms : ℚ) ≤ -1 := by exact_mod_cast Int.le_sub_one_of_lt hneg
      have hsmall : Format.binary64.Represents (-1 / 1024) :=
        ⟨-1, -10, by decide, by decide, by norm_num⟩
      have hround := Format.round_le hsmall (x := ms / 1000) (by linarith)
      exact (lt_of_le_of_lt hround (by norm_num)).ne
    · have hms : (1 : ℚ) ≤ ms := by exact_mod_cast hpos
      have hsmall : Format.binary64.Represents (1 / 1024) :=
        ⟨1, -10, by decide, by decide, by norm_num⟩
      have hround := Format.le_round hsmall (x := ms / 1000) (by linarith)
      exact (lt_of_lt_of_le (by norm_num) hround).ne'

theorem diffSeconds_eq (statistics : StratumV1ClientStatistics) :
    statistics.diffSeconds = binary64.round (span statistics.submissionCache / 1000) := by
  rw [diffSeconds]
  cases hcache : statistics.submissionCache with
  | nil => simpa [span] using (round_intCast (n := 0) (by decide)).symm
  | cons first rest =>
    cases hlast : (first :: rest).getLast? with
    | none => simp at hlast
    | some last => simp [span, hlast]

theorem targetDifficulty_eq (statistics : StratumV1ClientStatistics) :
    statistics.targetDifficulty = rate statistics.submissionCache := by
  rw [targetDifficulty, diffSeconds_eq]
  rfl

theorem late_iff (statistics : StratumV1ClientStatistics) (now : ℕ) :
    60 < binary64.round (((now : ℚ) - statistics.submissionCacheStart) / 1000) ↔
      60 < ((now : ℚ) - statistics.submissionCacheStart) / 1000 := by
  have h := lt_round_iff ((now : ℤ) - statistics.submissionCacheStart)
  push_cast at h
  exact h

def Announces (val : Difficulty) : Prop :=
  ∃ stack suggested, nearestPowerOfTwo binary64 stack val = .ok suggested ∧
    ∀ d ∈ suggested, binary64.round minDiff ≤ d

theorem sane_iff_calls : Sane statistics d now ↔ Calls Announces statistics d now := by
  have hnull : ∃ stack suggested, (Except.ok none : Except RangeError (Option ℚ)) =
      .ok suggested ∧ ∀ d ∈ suggested, binary64.round minDiff ≤ d := ⟨0, none, rfl, by simp⟩
  by_cases hfew : statistics.submissionCache.length < 5
  · have hfive : ¬ 5 ≤ statistics.submissionCache.length := by omega
    simp only [Sane, Calls, getSuggestedDifficulty, if_pos hfew, hfive, false_imp_iff, true_and,
      late_iff]
    by_cases hlate : 60 < ((now : ℚ) - statistics.submissionCacheStart) / 1000
    · simp only [hlate, true_imp_iff]
      exact Iff.rfl
    · simp only [hlate, false_imp_iff, iff_true]
      exact hnull
  · have hfive : 5 ≤ statistics.submissionCache.length := by omega
    simp only [Sane, Calls, getSuggestedDifficulty, if_neg hfew, hfive, true_imp_iff,
      targetDifficulty_eq, diffSeconds_eq, round_ne_zero_iff]
    apply and_congr_right
    intro hne
    split_ifs with hoff
    · simp only [hoff, true_imp_iff]
      exact Iff.rfl
    · simp only [hoff, false_imp_iff, iff_true]
      exact hnull

theorem Calls.imp
    (h : ∀ val, (∀ v : ℚ, val = (v : Difficulty) → binary64.round v = v) → P val → Q val)
    (hcalls : Calls P statistics d now) : Calls Q statistics d now := by
  rw [Calls] at hcalls ⊢
  split_ifs at hcalls ⊢
  · intro hlate
    exact h _ (fun v hv ↦ Arithmetic.round_of_number_eq hv) (hcalls hlate)
  · refine ⟨hcalls.1, fun hoff ↦ ?_⟩
    exact h _ (fun v hv ↦ Arithmetic.round_of_number_eq hv) (hcalls.2 hoff)

theorem announces_of_sensible (hval : ∀ v : ℚ, val = (v : Difficulty) → binary64.round v = v)
    (h : Sensible val) : Announces val := by
  obtain ⟨v, rfl⟩ : ∃ v : ℚ, val = v := by
    rcases h with h | ⟨-, h⟩
    · exact ⟨_, (WithTop.coe_untop _ h.ne_top).symm⟩
    · exact ⟨_, (WithTop.coe_untop _ h.ne_top).symm⟩
  have hv := hval v rfl
  rw [Sensible] at h
  simp only [WithTop.coe_lt_coe] at h
  by_cases hmin : v < binary64.round minDiff
  · by_cases hzero : v = 0
    · exact ⟨1, none, by simp [nearestPowerOfTwo, hzero], by simp⟩
    · exact ⟨1, _, nearestPowerOfTwo_of_lt hzero hmin, by simp⟩
  · obtain ⟨hsixteen, hlt⟩ := h.resolve_left hmin
    obtain ⟨k, hk, m, hreaches, hresult⟩ := nearestPowerOfTwo_binary64 hv (not_lt.mp hmin) hlt
    refine ⟨k + 1, _, (hresult (k + 1)).trans (if_pos (by omega)), ?_⟩
    rintro d ⟨⟩
    exact (hreaches.minDiff_le_iff hv hk).mpr hsixteen

theorem sensible_of_announces (hval : ∀ v : ℚ, val = (v : Difficulty) → binary64.round v = v)
    (h : Announces val) : Sensible val ∨ ((2 ^ 31 : ℚ) : Difficulty) ≤ val := by
  by_contra hnot
  rw [not_or, not_le] at hnot
  obtain ⟨hnot, hlt⟩ := hnot
  obtain ⟨v, rfl⟩ : ∃ v : ℚ, val = v := ⟨_, (WithTop.coe_untop _ hlt.ne_top).symm⟩
  have hv := hval v rfl
  rw [Sensible] at hnot
  simp only [WithTop.coe_lt_coe] at hnot hlt
  rw [not_or, not_lt] at hnot
  obtain ⟨stack, suggested, hstack, hmin⟩ := h
  obtain ⟨k, hk, m, hreaches, hresult⟩ := nearestPowerOfTwo_binary64 hv hnot.1 hlt
  rw [hresult] at hstack
  split_ifs at hstack
  cases hstack
  exact hnot.2 ⟨(hreaches.minDiff_le_iff hv hk).mp (hmin _ rfl), hlt⟩

end Suggestion

section Runs

/-- The difficulty of every share is finite and positive. -/
def Positive (_ : State) : ShareAccounting.Event → Prop
  | .start _ submissionDifficulty => 0 < submissionDifficulty ∧ submissionDifficulty < ⊤
  | .resume _ _ => True

instance (s : State) : ∀ e, Decidable (Positive s e)
  | .start _ _ => inferInstanceAs (Decidable (_ ∧ _))
  | .resume _ _ => inferInstanceAs (Decidable True)

end Runs

end ElektronPool.Vardiff
