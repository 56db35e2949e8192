import ElektronPool.Lib.Bytes
import Mathlib.Tactic.Common

namespace ElektronPool.Lib.Hex

open Bytes

def value (cs : List Char) : ℕ := cs.foldl (fun n c ↦ 16 * n + (hexDigitValue c).getD 0) 0

def numeral (n : ℕ) : List Char := Nat.toDigits 16 n

@[simp] theorem value_nil : value [] = 0 := rfl

theorem value_concat (cs : List Char) (c : Char) :
    value (cs ++ [c]) = 16 * value cs + (hexDigitValue c).getD 0 := by
  simp only [value, List.foldl_append, List.foldl_cons, List.foldl_nil]

theorem value_numeral (n : ℕ) : value (numeral n) = n := by
  induction n using Nat.strong_induction_on with
  | _ n ih =>
    rw [numeral, Nat.toDigits_eq_if (by omega)]
    split
    case isTrue h => simp [value, hexDigitValue_digitChar h]
    case isFalse h =>
      have hlt : n / 16 < n := by omega
      have hd : n % 16 < 16 := by omega
      have hq : value (Nat.toDigits 16 (n / 16)) = n / 16 := ih _ hlt
      rw [value_concat, hq, hexDigitValue_digitChar hd, Option.getD_some]
      omega

theorem numeral_injective : Function.Injective numeral := fun a b h ↦ by
  rw [← value_numeral a, h, value_numeral]

def IsNumeral (cs : List Char) : Prop := cs ≠ [] ∧ ∀ c ∈ cs, (hexDigitValue c).isSome

end ElektronPool.Lib.Hex
