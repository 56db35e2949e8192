import Mathlib.Data.Vector.Defs
import Mathlib.Tactic.Ring
import Mathlib.Tactic.IntervalCases

namespace ElektronPool.Lib

abbrev Bytes := List UInt8

namespace Bytes

/-- The `w` bytes of `n`, least significant first; what does not fit is dropped. -/
def littleEndian : ℕ → ℕ → Bytes
  | 0, _ => []
  | w + 1, n => UInt8.ofNat n :: littleEndian w (n / 256)

/-- The number a byte string stands for, least significant byte first. -/
def ofLittleEndian : Bytes → ℕ
  | [] => 0
  | b :: bs => b.toNat + 256 * ofLittleEndian bs

@[simp] theorem length_littleEndian (w n : ℕ) : (littleEndian w n).length = w := by
  induction w generalizing n with
  | zero => rfl
  | succ w ih => simp only [littleEndian, List.length_cons, ih]

theorem ofLittleEndian_littleEndian {w n : ℕ} (h : n < 256 ^ w) :
    ofLittleEndian (littleEndian w n) = n := by
  induction w generalizing n with
  | zero =>
    simp only [pow_zero] at h
    simp only [littleEndian, ofLittleEndian]
    omega
  | succ w ih =>
    have hq : n / 256 < 256 ^ w := by
      rw [pow_succ] at h
      exact Nat.div_lt_of_lt_mul (by omega)
    simp only [littleEndian, ofLittleEndian, ih hq, UInt8.toNat_ofNat']
    omega

theorem littleEndian_inj {w m n : ℕ} (hm : m < 256 ^ w) (hn : n < 256 ^ w)
    (h : littleEndian w m = littleEndian w n) : m = n := by
  rw [← ofLittleEndian_littleEndian hm, h, ofLittleEndian_littleEndian hn]

def hexDigit (n : ℕ) : Char := Nat.digitChar n

def hexDigitValue (c : Char) : Option ℕ :=
  if '0' ≤ c ∧ c ≤ '9' then some (c.toNat - '0'.toNat)
  else if 'a' ≤ c ∧ c ≤ 'f' then some (c.toNat - 'a'.toNat + 10)
  else if 'A' ≤ c ∧ c ≤ 'F' then some (c.toNat - 'A'.toNat + 10)
  else none

theorem hexDigitValue_digitChar {n : ℕ} (h : n < 16) : hexDigitValue (Nat.digitChar n) = some n := by
  interval_cases n <;> rfl

/-- Two lower-case digits for each byte, high half first. -/
def toHex (bs : Bytes) : List Char :=
  bs.flatMap fun b ↦ [hexDigit (b.toNat / 16), hexDigit (b.toNat % 16)]

/-- Reading stops at the first pair that is not two digits. -/
def ofHex : List Char → Bytes
  | c :: d :: cs =>
    match hexDigitValue c, hexDigitValue d with
    | some m, some n => UInt8.ofNat (16 * m + n) :: ofHex cs
    | _, _ => []
  | _ => []

theorem ofHex_toHex (bs : Bytes) : ofHex (toHex bs) = bs := by
  induction bs with
  | nil => rfl
  | cons b bs ih =>
    have hb := b.toNat_lt
    have hhigh : b.toNat / 16 < 16 := by omega
    have hlow : b.toNat % 16 < 16 := by omega
    have hbyte : 16 * (b.toNat / 16) + b.toNat % 16 = b.toNat := by omega
    simp only [toHex, List.flatMap_cons, List.cons_append, List.nil_append, ofHex, hexDigit,
      hexDigitValue_digitChar hhigh, hexDigitValue_digitChar hlow, hbyte, UInt8.ofNat_toNat]
    exact congrArg (b :: ·) ih

theorem length_toHex (bytes : Bytes) : (toHex bytes).length = 2 * bytes.length := by
  induction bytes with
  | nil => rfl
  | cons b bytes ih =>
    rw [toHex, List.flatMap_cons, List.length_append, ← toHex, ih]
    simp only [List.length_cons, List.length_nil]
    omega

/-- The four-byte words of a byte string, each reversed. -/
def swapWords : Bytes → Bytes
  | a :: b :: c :: d :: rest => d :: c :: b :: a :: swapWords rest
  | _ => []

theorem swapWords_swapWords {bs : Bytes} {n : ℕ} (h : bs.length = 4 * n) :
    swapWords (swapWords bs) = bs := by
  induction n generalizing bs with
  | zero =>
    have : bs = [] := List.eq_nil_of_length_eq_zero (by omega)
    subst this
    rfl
  | succ n ih =>
    match bs, h with
    | a :: b :: c :: d :: rest, h =>
      simp only [List.length_cons] at h
      simp only [swapWords, ih (by omega : rest.length = 4 * n)]

end Bytes

end ElektronPool.Lib
