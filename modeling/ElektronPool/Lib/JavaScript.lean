import ElektronPool.Lib.Hex
import Mathlib

namespace ElektronPool.Lib.JavaScript

open Bytes

/-- The values of `parseInt`: NaN, an infinity of either sign, or an integer. -/
inductive Number
  | nan
  | inf (positive : Bool)
  | int (z : ℤ)
deriving DecidableEq

namespace Number

/-- ECMAScript `ToInt32`, as the bits it leaves. -/
def toInt32 : Number → BitVec 32
  | .int z => BitVec.ofInt 32 z
  | _ => 0

def isZero : Number → Bool
  | .int z => z == 0
  | _ => false

def xor (x y : Number) : ℤ := (x.toInt32 ^^^ y.toInt32).toInt

end Number

/-- The double nearest to a natural number, ties to even. -/
def nearestDouble (n : ℕ) : Number :=
  if n < 2 ^ 53 then .int n
  else
    let k := n.log2 - 52
    let q := n / 2 ^ k
    let r := n % 2 ^ k
    let q' := if 2 ^ (k - 1) < r ∨ r = 2 ^ (k - 1) ∧ q % 2 = 1 then q + 1 else q
    if q' * 2 ^ k < 2 ^ 1024 then .int (q' * 2 ^ k : ℕ) else .inf true

def isWhiteSpace (c : Char) : Bool :=
  c.toNat ∈ [0x9, 0xA, 0xB, 0xC, 0xD, 0x20, 0xA0, 0x1680, 0x2028, 0x2029, 0x202F, 0x205F, 0x3000,
    0xFEFF] || (0x2000 ≤ c.toNat && c.toNat ≤ 0x200A)

def isHexDigit (c : Char) : Bool := (hexDigitValue c).isSome

def dropSign : List Char → Bool × List Char
  | '-' :: cs => (true, cs)
  | '+' :: cs => (false, cs)
  | cs => (false, cs)

def dropHexMark : List Char → List Char
  | '0' :: 'x' :: cs => cs
  | '0' :: 'X' :: cs => cs
  | cs => cs

def negateIf (negative : Bool) : Number → Number
  | .int z => .int (if negative then -z else z)
  | .inf p => .inf (p != negative)
  | .nan => .nan

/-- `parseInt(s, 16)`: white space, a sign and a `0x` mark are skipped, and what
follows the longest run of digits is ignored. -/
def parseInt16 (s : String) : Number :=
  let (negative, cs) := dropSign (s.toList.dropWhile isWhiteSpace)
  let digits := (dropHexMark cs).takeWhile isHexDigit
  if digits = [] then .nan else negateIf negative (nearestDouble (Hex.value digits))

def parseInt10 (s : String) : Number :=
  let (negative, cs) := dropSign (s.toList.dropWhile isWhiteSpace)
  let digits := cs.takeWhile Char.isDigit
  if digits = [] then .nan
  else negateIf negative (nearestDouble (digits.foldl (fun n c ↦ 10 * n + (c.toNat - '0'.toNat)) 0))

def toString16 (z : ℤ) : String :=
  if z < 0 then String.ofList ('-' :: Hex.numeral z.natAbs) else String.ofList (Hex.numeral z.toNat)

/-- `buffer.writeUInt32LE`: NaN passes the range check and is written as zero. -/
def writeUInt32LE : Number → Option Bytes
  | .nan => some (littleEndian 4 0)
  | .inf _ => none
  | .int z => if 0 ≤ z ∧ z < 2 ^ 32 then some (littleEndian 4 z.toNat) else none

def writeInt32LE (z : ℤ) : Option Bytes :=
  if -2 ^ 31 ≤ z ∧ z < 2 ^ 31 then some (littleEndian 4 (BitVec.ofInt 32 z).toNat) else none

theorem writeUInt32LE_eq_some {x : Number} {bs : Bytes} (h : writeUInt32LE x = some bs) :
    bs = littleEndian 4 x.toInt32.toNat := by
  cases x with
  | nan => exact (Option.some.inj h).symm
  | inf p => cases h
  | int z =>
    simp only [writeUInt32LE, Option.ite_none_right_eq_some, Option.some.injEq] at h
    obtain ⟨hz, rfl⟩ := h
    rw [Number.toInt32, BitVec.toNat_ofInt]
    congr 1
    omega

theorem writeUInt32LE_natCast {n : ℕ} (h : n < 2 ^ 32) :
    writeUInt32LE (.int n) = some (littleEndian 4 n) := by
  have hn : (0 : ℤ) ≤ n ∧ (n : ℤ) < 2 ^ 32 := by omega
  simp only [writeUInt32LE, if_pos hn, Int.toNat_natCast]

theorem writeUInt32LE_length {x : Number} {bs : Bytes} (h : writeUInt32LE x = some bs) :
    bs.length = 4 := by
  rw [writeUInt32LE_eq_some h, length_littleEndian]

theorem writeInt32LE_eq_some {z : ℤ} {bs : Bytes} (h : writeInt32LE z = some bs) :
    bs = littleEndian 4 (BitVec.ofInt 32 z).toNat := by
  simp only [writeInt32LE, Option.ite_none_right_eq_some, Option.some.injEq] at h
  exact h.2.symm

theorem writeInt32LE_length {z : ℤ} {bs : Bytes} (h : writeInt32LE z = some bs) :
    bs.length = 4 := by
  rw [writeInt32LE_eq_some h, length_littleEndian]

theorem writeInt32LE_toInt (b : BitVec 32) :
    writeInt32LE b.toInt = some (littleEndian 4 b.toNat) := by
  have hlo := BitVec.le_toInt b
  have hhi := BitVec.toInt_lt (x := b)
  simp only [Nat.reduceSub] at hlo hhi
  rw [writeInt32LE, if_pos ⟨hlo, hhi⟩, BitVec.ofInt_toInt]

theorem not_isWhiteSpace_of_isHexDigit {c : Char} (h : isHexDigit c) : isWhiteSpace c = false := by
  have hv : 0x30 ≤ c.toNat ∧ c.toNat ≤ 0x66 := by
    simp only [isHexDigit, hexDigitValue, Char.le_def, UInt32.le_iff_toNat_le] at h
    simp only [Char.toNat]
    split_ifs at h
    all_goals simp_all <;> omega
  simp only [isWhiteSpace, Bool.or_eq_false_iff, decide_eq_false_iff_not, List.mem_cons,
    List.not_mem_nil, Bool.and_eq_false_iff, not_or, not_false_eq_true, and_true]
  omega

/-- `parseInt` reads a string of hexadecimal digits, of either case and with
any leading zeros, as the number it denotes. -/
theorem parseInt16_of_isNumeral {cs : List Char} (h : Hex.IsNumeral cs) :
    parseInt16 (String.ofList cs) = nearestDouble (Hex.value cs) := by
  obtain ⟨c, cs, rfl⟩ := List.exists_cons_of_ne_nil h.1
  have hc : isHexDigit c := h.2 c (by simp)
  have hspace : (c :: cs).dropWhile isWhiteSpace = c :: cs :=
    List.dropWhile_cons_of_neg (by simp [not_isWhiteSpace_of_isHexDigit hc])
  have hsign : dropSign (c :: cs) = (false, c :: cs) := by
    have hminus : c ≠ '-' := by rintro rfl; simp [isHexDigit, hexDigitValue] at hc
    have hplus : c ≠ '+' := by rintro rfl; simp [isHexDigit, hexDigitValue] at hc
    simp [dropSign, hminus, hplus]
  have hmark : dropHexMark (c :: cs) = c :: cs := by
    cases cs with
    | nil => simp [dropHexMark]
    | cons d cs =>
      have hd : isHexDigit d := h.2 d (by simp)
      have hx : d ≠ 'x' := by rintro rfl; simp [isHexDigit, hexDigitValue] at hd
      have hX : d ≠ 'X' := by rintro rfl; simp [isHexDigit, hexDigitValue] at hd
      simp [dropHexMark, hx, hX]
  have htake : (c :: cs).takeWhile isHexDigit = c :: cs :=
    List.takeWhile_eq_self_iff.mpr fun d hd ↦ h.2 d hd
  have hid (x : Number) : negateIf false x = x := by cases x <;> simp [negateIf]
  simp only [parseInt16, String.toList_ofList, hspace, hsign, hmark, htake, hid]
  simp

theorem parseInt16_numeral {cs : List Char} {n : ℕ} (h : Hex.IsNumeral cs)
    (hv : Hex.value cs = n) (hn : n < 2 ^ 53) : parseInt16 (String.ofList cs) = .int n := by
  rw [parseInt16_of_isNumeral h, hv, nearestDouble, if_pos hn]

theorem toString16_natCast (n : ℕ) : toString16 n = String.ofList (Hex.numeral n) := by
  have hn : ¬ (n : ℤ) < 0 := by omega
  simp only [toString16, if_neg hn, Int.toNat_natCast]

theorem toString16_natCast_injective : Function.Injective fun n : ℕ ↦ toString16 n := fun a b h ↦ by
  simp only [toString16_natCast, String.ofList_inj] at h
  exact Hex.numeral_injective h

end ElektronPool.Lib.JavaScript
