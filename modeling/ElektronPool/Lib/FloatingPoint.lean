import Mathlib.Algebra.Order.Field.Power
import Mathlib.Data.Int.Log
import Mathlib.Data.Rat.Floor
import Mathlib.Tactic.Linarith
import Mathlib.Tactic.FieldSimp
import Mathlib.Tactic.Positivity

namespace ElektronPool.Lib.FloatingPoint

variable {x y v : ℚ} {n e j : ℤ}

/-- The nearest integer, of two the even one. -/
def nearestEven (x : ℚ) : ℤ :=
  if x - ⌊x⌋ < 1 / 2 ∨ x - ⌊x⌋ = 1 / 2 ∧ ⌊x⌋ % 2 = 0 then ⌊x⌋ else ⌊x⌋ + 1

theorem abs_sub_nearestEven_le (x : ℚ) : |x - nearestEven x| ≤ 1 / 2 := by
  have hlow := Int.floor_le x
  have hhigh := Int.lt_floor_add_one x
  rw [nearestEven, abs_le]
  split_ifs with h
  · constructor
    · linarith
    · rcases h with h | ⟨h, -⟩ <;> linarith
  · push Not at h
    push_cast
    constructor
    · linarith [h.1]
    · linarith

theorem nearestEven_mono (h : x ≤ y) : nearestEven x ≤ nearestEven y := by
  by_contra hlt
  have hx := abs_le.mp (abs_sub_nearestEven_le x)
  have hy := abs_le.mp (abs_sub_nearestEven_le y)
  have hstep : (nearestEven y : ℚ) + 1 ≤ nearestEven x := by exact_mod_cast not_le.mp hlt
  -- both are half way between the two integers, so they are one number
  obtain rfl : x = y := by linarith [hx.1, hy.2]
  exact hlt le_rfl

theorem nearestEven_intCast (n : ℤ) : nearestEven n = n := by
  have h := abs_le.mp (abs_sub_nearestEven_le n)
  have hlow : (n : ℚ) - 1 < nearestEven n := by linarith [h.2]
  have hhigh : (nearestEven n : ℚ) < n + 1 := by linarith [h.1]
  have hlow' : n - 1 < nearestEven n := by exact_mod_cast hlow
  have hhigh' : nearestEven n < n + 1 := by exact_mod_cast hhigh
  omega

theorem le_nearestEven (h : (n : ℚ) ≤ x) : n ≤ nearestEven x :=
  (nearestEven_intCast n).symm.le.trans (nearestEven_mono h)

theorem nearestEven_le (h : x ≤ n) : nearestEven x ≤ n :=
  (nearestEven_mono h).trans (nearestEven_intCast n).le

/-- The bits of a significand, the least exponent of its last bit, and the exponent of the least
number that overflows. -/
structure Format where
  precision : ℕ
  minExponent : ℤ
  maxExponent : ℤ
  precision_pos : 0 < precision

namespace Format

def binary64 : Format := ⟨53, -1074, 1024, Nat.succ_pos 52⟩

variable (F : Format)

def exponent (x : ℚ) : ℤ :=
  if x = 0 then F.minExponent else max (Int.log 2 |x| + 1 - F.precision) F.minExponent

/-- The nearest number of the format, if its exponents had no upper bound. -/
def round (x : ℚ) : ℚ := nearestEven (x / 2 ^ F.exponent x) * 2 ^ F.exponent x

def Represents (x : ℚ) : Prop :=
  ∃ n e : ℤ, |n| ≤ 2 ^ F.precision ∧ F.minExponent ≤ e ∧ x = n * 2 ^ e

def Normal (x : ℚ) : Prop := 2 ^ (F.minExponent + F.precision - 1) ≤ |x|

variable {F}

theorem minExponent_le_exponent (x : ℚ) : F.minExponent ≤ F.exponent x := by
  rw [exponent]
  split_ifs
  · exact le_rfl
  · exact le_max_right _ _

theorem abs_lt_two_zpow (x : ℚ) : |x| < 2 ^ (F.exponent x + F.precision) := by
  by_cases hx : x = 0
  · rw [hx, abs_zero]
    positivity
  · have hlog := Int.lt_zpow_succ_log_self one_lt_two |x|
    refine hlog.trans_le ?_
    rw [exponent, if_neg hx]
    push_cast
    apply zpow_le_zpow_right₀ one_le_two
    omega

theorem two_zpow_le_abs (h : F.minExponent < F.exponent x) :
    2 ^ (F.exponent x + F.precision - 1) ≤ |x| := by
  by_cases hx : x = 0
  · rw [exponent, if_pos hx] at h
    exact absurd h (lt_irrefl _)
  · have hlog := Int.zpow_log_le_self (R := ℚ) one_lt_two (abs_pos.mpr hx)
    have hexp : F.exponent x + F.precision - 1 = Int.log 2 |x| := by
      rw [exponent, if_neg hx] at h ⊢
      omega
    rw [hexp]
    exact_mod_cast hlog

theorem exponent_eq (hmin : F.minExponent ≤ e) (hlow : 2 ^ (e + F.precision - 1) ≤ |x|)
    (hhigh : |x| < 2 ^ (e + F.precision)) : F.exponent x = e := by
  have hpos : (0 : ℚ) < |x| := lt_of_lt_of_le (by positivity) hlow
  have hlog : e + F.precision - 1 ≤ Int.log 2 |x| := by
    rw [← Int.zpow_le_iff_le_log one_lt_two hpos]
    exact_mod_cast hlow
  have hlog' : Int.log 2 |x| < e + F.precision := by
    rw [← Int.lt_zpow_iff_log_lt one_lt_two hpos]
    exact_mod_cast hhigh
  rw [exponent, if_neg (abs_pos.mp hpos)]
  omega

theorem le_round_of_le (h : n * 2 ^ F.exponent x ≤ x) : n * 2 ^ F.exponent x ≤ F.round x := by
  have hquantum : (0 : ℚ) < 2 ^ F.exponent x := by positivity
  rw [← le_div_iff₀ hquantum] at h
  have hn : (n : ℚ) ≤ nearestEven (x / 2 ^ F.exponent x) := by exact_mod_cast le_nearestEven h
  exact mul_le_mul_of_nonneg_right hn hquantum.le

theorem round_le_of_le (h : x ≤ n * 2 ^ F.exponent x) : F.round x ≤ n * 2 ^ F.exponent x := by
  have hquantum : (0 : ℚ) < 2 ^ F.exponent x := by positivity
  rw [← div_le_iff₀ hquantum] at h
  have hn : (nearestEven (x / 2 ^ F.exponent x) : ℚ) ≤ n := by exact_mod_cast nearestEven_le h
  exact mul_le_mul_of_nonneg_right hn hquantum.le

theorem abs_round_le (x : ℚ) : |F.round x| ≤ 2 ^ (F.exponent x + F.precision) := by
  have h := abs_lt.mp (abs_lt_two_zpow (F := F) x)
  rw [zpow_add₀ two_ne_zero, mul_comm, zpow_natCast] at h ⊢
  rw [abs_le]
  constructor
  · have hlow := le_round_of_le (F := F) (x := x) (n := -2 ^ F.precision) (by push_cast; linarith)
    push_cast at hlow
    linarith
  · have hhigh := round_le_of_le (F := F) (x := x) (n := 2 ^ F.precision) (by push_cast; linarith)
    push_cast at hhigh
    linarith

theorem represents_round (x : ℚ) : F.Represents (F.round x) := by
  refine ⟨_, F.exponent x, ?_, minExponent_le_exponent x, rfl⟩
  have h := abs_round_le (F := F) x
  have hquantum : (0 : ℚ) < 2 ^ F.exponent x := by positivity
  rw [round, abs_mul, abs_of_pos hquantum, zpow_add₀ two_ne_zero, mul_comm,
    mul_le_mul_iff_right₀ hquantum, zpow_natCast] at h
  exact_mod_cast h

/-- Where the exponents differ, the power of two between the two numbers is exact. -/
theorem round_mono : Monotone F.round := by
  intro x y h
  have hsplit (k : ℤ) : (2 : ℚ) ^ (k + F.precision - 1) =
      ((2 ^ (F.precision - 1) : ℤ) : ℚ) * 2 ^ k := by
    have hpos := F.precision_pos
    push_cast
    rw [← zpow_natCast, ← zpow_add₀ two_ne_zero]
    congr 1
    omega
  have hbelow {k k' : ℤ} (hlt : k < k') :
      (2 : ℚ) ^ (k + F.precision) ≤ 2 ^ (k' + F.precision - 1) := by
    apply zpow_le_zpow_right₀ one_le_two
    omega
  rcases lt_trichotomy (F.exponent x) (F.exponent y) with hlt | heq | hlt
  · have hx := abs_lt.mp ((abs_lt_two_zpow (F := F) x).trans_le (hbelow hlt))
    have hround := abs_le.mp ((abs_round_le (F := F) x).trans (hbelow hlt))
    have hy := two_zpow_le_abs ((minExponent_le_exponent x).trans_lt hlt)
    rcases le_abs.mp hy with hy | hy
    · rw [hsplit] at hy hround
      exact hround.2.trans (le_round_of_le hy)
    · linarith
  · rw [round, round, heq]
    have hquantum : (0 : ℚ) < 2 ^ F.exponent y := by positivity
    have hle := nearestEven_mono (div_le_div_of_nonneg_right h hquantum.le)
    exact mul_le_mul_of_nonneg_right (by exact_mod_cast hle) hquantum.le
  · have hy := abs_lt.mp ((abs_lt_two_zpow (F := F) y).trans_le (hbelow hlt))
    have hround := abs_le.mp ((abs_round_le (F := F) y).trans (hbelow hlt))
    have hx := two_zpow_le_abs ((minExponent_le_exponent y).trans_lt hlt)
    rcases le_abs.mp hx with hx | hx
    · linarith
    · have hx' : x ≤ ((-2 ^ (F.precision - 1) : ℤ) : ℚ) * 2 ^ F.exponent x := by
        rw [hsplit] at hx
        push_cast at hx ⊢
        linarith
      have hle := round_le_of_le hx'
      rw [hsplit] at hround
      push_cast at hle hround
      linarith [hround.1]

/-- Only a significand of `2 ^ precision` has a last bit before the last one that is kept. -/
theorem exists_eq_mul_of_represents (h : F.Represents x) : ∃ m : ℤ, x = m * 2 ^ F.exponent x := by
  obtain ⟨n, e, hn, hmin, hx⟩ := h
  by_cases hle : F.exponent x ≤ e
  · obtain ⟨d, hd⟩ := Int.le.dest hle
    refine ⟨n * 2 ^ d, ?_⟩
    rw [hx] at hd ⊢
    nth_rewrite 1 [← hd]
    rw [zpow_add₀ two_ne_zero, zpow_natCast]
    push_cast
    ring
  · have hquantum : (0 : ℚ) < 2 ^ e := by positivity
    have habs : |x| = ((|n| : ℤ) : ℚ) * 2 ^ e := by
      rw [hx, abs_mul, abs_of_pos hquantum, Int.cast_abs]
    have hlow := two_zpow_le_abs (hmin.trans_lt (not_le.mp hle))
    have hhigh : |x| ≤ 2 ^ (e + F.precision) := by
      have hn' : ((|n| : ℤ) : ℚ) ≤ 2 ^ F.precision := by exact_mod_cast hn
      rw [habs, zpow_add₀ two_ne_zero, zpow_natCast, mul_comm ((2 : ℚ) ^ e)]
      exact mul_le_mul_of_nonneg_right hn' hquantum.le
    have hexp := (zpow_le_zpow_iff_right₀ one_lt_two).mp (hlow.trans hhigh)
    obtain hexp : F.exponent x = e + 1 := by omega
    have hge : 2 ^ F.precision ≤ |n| := by
      rw [hexp, habs, show e + 1 + F.precision - 1 = F.precision + e by ring,
        zpow_add₀ two_ne_zero, mul_le_mul_iff_left₀ hquantum, zpow_natCast] at hlow
      exact_mod_cast hlow
    have heven : (2 : ℤ) ∣ n := by
      rw [← dvd_abs, le_antisymm hn hge]
      exact dvd_pow_self 2 F.precision_pos.ne'
    obtain ⟨m, rfl⟩ := heven
    refine ⟨m, ?_⟩
    rw [hexp, hx, zpow_add_one₀ two_ne_zero]
    push_cast
    ring

theorem round_of_represents (h : F.Represents x) : F.round x = x := by
  obtain ⟨m, hm⟩ := exists_eq_mul_of_represents h
  have hne : (2 : ℚ) ^ F.exponent x ≠ 0 := by positivity
  rw [round, ← eq_div_of_mul_eq hne hm.symm, nearestEven_intCast]
  exact hm.symm

@[simp] theorem round_round (x : ℚ) : F.round (F.round x) = F.round x :=
  round_of_represents (represents_round x)

theorem represents_two_zpow (h : F.minExponent ≤ e) : F.Represents (2 ^ e) := by
  refine ⟨1, e, ?_, h, by push_cast; ring⟩
  rw [abs_one]
  exact one_le_pow₀ one_le_two

section Order

theorem le_round (hv : F.Represents v) (h : v ≤ x) : v ≤ F.round x :=
  (round_of_represents hv).symm.le.trans (round_mono h)

theorem round_le (hv : F.Represents v) (h : x ≤ v) : F.round x ≤ v :=
  (round_mono h).trans (round_of_represents hv).le

theorem lt_of_round_lt (hv : F.Represents v) (h : F.round x < v) : x < v := by
  by_contra hle
  exact absurd (le_round hv (not_lt.mp hle)) (not_le.mpr h)

theorem lt_of_lt_round (hv : F.Represents v) (h : v < F.round x) : v < x := by
  by_contra hle
  exact absurd (round_le hv (not_lt.mp hle)) (not_le.mpr h)

end Order

section Scale

theorem Normal.two_zpow_le_abs (h : F.Normal x) : 2 ^ (F.exponent x + F.precision - 1) ≤ |x| := by
  rcases (minExponent_le_exponent x).lt_or_eq with hlt | heq
  · exact Format.two_zpow_le_abs hlt
  · rw [← heq]
    exact h

theorem exponent_two_zpow_mul (h : F.Normal x) (hmul : F.Normal (2 ^ j * x)) :
    F.exponent (2 ^ j * x) = F.exponent x + j := by
  have hscale : (0 : ℚ) < 2 ^ j := by positivity
  have hlow := h.two_zpow_le_abs
  have hhigh := abs_lt_two_zpow (F := F) x
  have habs : |2 ^ j * x| = 2 ^ j * |x| := by rw [abs_mul, abs_of_pos hscale]
  apply exponent_eq
  · have hlt := hmul.trans_lt (habs.trans_lt (mul_lt_mul_of_pos_left hhigh hscale))
    rw [← zpow_add₀ two_ne_zero, zpow_lt_zpow_iff_right₀ one_lt_two] at hlt
    omega
  · rw [habs, show F.exponent x + j + F.precision - 1 = j + (F.exponent x + F.precision - 1) by ring,
      zpow_add₀ two_ne_zero]
    exact mul_le_mul_of_nonneg_left hlow hscale.le
  · rw [habs, show F.exponent x + j + F.precision = j + (F.exponent x + F.precision) by ring,
      zpow_add₀ two_ne_zero]
    exact mul_lt_mul_of_pos_left hhigh hscale

/-- Rounding commutes with a scaling by a power of two, away from the subnormal numbers. -/
theorem round_two_zpow_mul (h : F.Normal x) (hmul : F.Normal (2 ^ j * x)) :
    F.round (2 ^ j * x) = 2 ^ j * F.round x := by
  have hscale : (2 : ℚ) ^ j ≠ 0 := by positivity
  rw [round, round, exponent_two_zpow_mul h hmul, zpow_add₀ two_ne_zero, mul_comm (2 ^ F.exponent x),
    mul_div_mul_left _ _ hscale]
  ring

/-- The next power of two above a number is at most twice it. -/
theorem round_le_two_mul (hpos : 0 < x) (h : F.Normal x) : F.round x ≤ 2 * x := by
  have hlow := h.two_zpow_le_abs
  have hhigh := abs_lt_two_zpow (F := F) x
  rw [abs_of_pos hpos] at hlow hhigh
  have hmin := minExponent_le_exponent (F := F) x
  have hle := round_le (F := F) (represents_two_zpow (by omega)) hhigh.le
  rw [show F.exponent x + F.precision = F.exponent x + F.precision - 1 + 1 by ring,
    zpow_add_one₀ two_ne_zero] at hle
  linarith

end Scale

end Format

/-- How the results of the operations are rounded, and which of them are infinite. -/
structure Arithmetic where
  round : ℚ → ℚ
  overflows : ℚ → Bool
  round_mono : Monotone round
  round_round (x : ℚ) : round (round x) = round x

namespace Arithmetic

def exact : Arithmetic := ⟨id, fun _ ↦ false, monotone_id, fun _ ↦ rfl⟩

def ofFormat (F : Format) : Arithmetic :=
  ⟨F.round, fun x ↦ 2 ^ F.maxExponent ≤ x, Format.round_mono, Format.round_round⟩

def binary64 : Arithmetic := ofFormat Format.binary64

variable (A : Arithmetic)

def number : WithTop ℚ → WithTop ℚ
  | ⊤ => ⊤
  | (x : ℚ) => if A.overflows (A.round x) then ⊤ else (A.round x : ℚ)

variable {A}

@[simp] theorem number_top : A.number ⊤ = ⊤ := rfl

theorem number_coe (h : A.overflows (A.round x) = false) : A.number (x : ℚ) = (A.round x : ℚ) := by
  change (if A.overflows (A.round x) then ⊤ else ((A.round x : ℚ) : WithTop ℚ)) = _
  rw [h]
  rfl

@[simp] theorem number_exact (z : WithTop ℚ) : exact.number z = z := by
  cases z using WithTop.recTopCoe with
  | top => rfl
  | coe x => exact number_coe rfl

theorem round_of_number_eq {z : WithTop ℚ} (h : A.number z = v) : A.round v = v := by
  cases z using WithTop.recTopCoe with
  | top => cases h
  | coe x =>
    change (if A.overflows (A.round x) then ⊤ else ((A.round x : ℚ) : WithTop ℚ)) = _ at h
    split_ifs at h
    · cases h
    · rw [← WithTop.coe_inj.mp h, A.round_round]

end Arithmetic

end ElektronPool.Lib.FloatingPoint
