import ElektronPool.Model.MiningJob

namespace ElektronPool.Model

open Lib

/-- The literal `2.695953529101131e67` is read as the double `0xffff * 2 ^ 208`. -/
def trueDiffOne : ℚ := 65535 * 2 ^ 208

/-- `x / y` of a positive number; a zero divisor gives `Infinity`. -/
def quotient (x y : ℚ) : Difficulty := if y = 0 then ⊤ else ((x / y : ℚ) : Difficulty)

def le256todouble (target : Bytes) : ℕ := target.reverse.foldl (fun n b ↦ n * 256 + b.toNat) 0

/-- The difficulty of a hash; that of the zero hash is `Infinity`. -/
def hashDifficulty (hashResult : Hash) : Difficulty :=
  quotient trueDiffOne (le256todouble hashResult.toList)

def calculateDifficulty (js : BitcoinJs) (header : Bytes) : Difficulty :=
  hashDifficulty (js.hash256 header)

/-- The target `nBits` encodes, with the 32-bit operators of the source. -/
def networkTarget (nBits : BitVec 32) : ℚ :=
  let mantissa := (nBits &&& 0x007fffff#32).toInt
  let exponent := (nBits.sshiftRight 24 &&& 0xff#32).toInt
  mantissa * 256 ^ (exponent - 3)

def calculateNetworkDifficulty (nBits : BitVec 32) : Difficulty :=
  quotient (2 ^ 208 * 65535) (networkTarget nBits)

theorem le256todouble_eq (bs : Bytes) : le256todouble bs = Bytes.ofLittleEndian bs := by
  rw [le256todouble, List.foldl_reverse]
  induction bs with
  | nil => rfl
  | cons b bs ih =>
    rw [List.foldr_cons, ih, Bytes.ofLittleEndian]
    ring

end ElektronPool.Model
