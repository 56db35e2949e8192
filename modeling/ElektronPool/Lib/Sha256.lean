import ElektronPool.Lib.Bytes

namespace ElektronPool.Lib.Sha256

/-- Words are naturals below `2 ^ 32`, so that the kernel computes with them. -/
def word (n : ℕ) : ℕ := n % 2 ^ 32

def rotr (x k : ℕ) : ℕ := word (x >>> k ||| x <<< (32 - k))

def roundConstants : List ℕ :=
  [0x428a2f98, 0x71374491, 0xb5c0fbcf, 0xe9b5dba5, 0x3956c25b, 0x59f111f1, 0x923f82a4, 0xab1c5ed5,
   0xd807aa98, 0x12835b01, 0x243185be, 0x550c7dc3, 0x72be5d74, 0x80deb1fe, 0x9bdc06a7, 0xc19bf174,
   0xe49b69c1, 0xefbe4786, 0x0fc19dc6, 0x240ca1cc, 0x2de92c6f, 0x4a7484aa, 0x5cb0a9dc, 0x76f988da,
   0x983e5152, 0xa831c66d, 0xb00327c8, 0xbf597fc7, 0xc6e00bf3, 0xd5a79147, 0x06ca6351, 0x14292967,
   0x27b70a85, 0x2e1b2138, 0x4d2c6dfc, 0x53380d13, 0x650a7354, 0x766a0abb, 0x81c2c92e, 0x92722c85,
   0xa2bfe8a1, 0xa81a664b, 0xc24b8b70, 0xc76c51a3, 0xd192e819, 0xd6990624, 0xf40e3585, 0x106aa070,
   0x19a4c116, 0x1e376c08, 0x2748774c, 0x34b0bcb5, 0x391c0cb3, 0x4ed8aa4a, 0x5b9cca4f, 0x682e6ff3,
   0x748f82ee, 0x78a5636f, 0x84c87814, 0x8cc70208, 0x90befffa, 0xa4506ceb, 0xbef9a3f7, 0xc67178f2]

structure State where
  a : ℕ
  b : ℕ
  c : ℕ
  d : ℕ
  e : ℕ
  f : ℕ
  g : ℕ
  h : ℕ

def initial : State :=
  ⟨0x6a09e667, 0xbb67ae85, 0x3c6ef372, 0xa54ff53a, 0x510e527f, 0x9b05688c, 0x1f83d9ab, 0x5be0cd19⟩

def round (s : State) (k w : ℕ) : State :=
  let s₁ := rotr s.e 6 ^^^ rotr s.e 11 ^^^ rotr s.e 25
  let ch := (s.e &&& s.f) ^^^ ((0xffffffff ^^^ s.e) &&& s.g)
  let t₁ := s.h + s₁ + ch + k + w
  let s₀ := rotr s.a 2 ^^^ rotr s.a 13 ^^^ rotr s.a 22
  let maj := (s.a &&& s.b) ^^^ (s.a &&& s.c) ^^^ (s.b &&& s.c)
  ⟨word (t₁ + s₀ + maj), s.a, s.b, s.c, word (s.d + t₁), s.e, s.f, s.g⟩

def nextWord : List ℕ → ℕ
  | [w₀, w₁, _, _, _, _, _, _, _, w₉, _, _, _, _, w₁₄, _] =>
    let s₀ := rotr w₁ 7 ^^^ rotr w₁ 18 ^^^ (w₁ >>> 3)
    let s₁ := rotr w₁₄ 17 ^^^ rotr w₁₄ 19 ^^^ (w₁₄ >>> 10)
    word (w₀ + s₀ + w₉ + s₁)
  | _ => 0

def rounds : List ℕ → List ℕ → State → State
  | [], _, s => s
  | k :: ks, window, s =>
    rounds ks (window.tail ++ [nextWord window]) (round s k (window.headD 0))

def compress (s : State) (block : List ℕ) : State :=
  let r := rounds roundConstants block s
  ⟨word (s.a + r.a), word (s.b + r.b), word (s.c + r.c), word (s.d + r.d),
    word (s.e + r.e), word (s.f + r.f), word (s.g + r.g), word (s.h + r.h)⟩

def words : List ℕ → List ℕ
  | a :: b :: c :: d :: rest => (((a * 256 + b) * 256 + c) * 256 + d) :: words rest
  | _ => []

def bigEndian (n : ℕ) : ℕ → List ℕ
  | 0 => []
  | w + 1 => bigEndian (n / 256) w ++ [n % 256]

def pad (m : List ℕ) : List ℕ :=
  m ++ 0x80 :: List.replicate ((119 - m.length % 64) % 64) 0 ++ bigEndian (8 * m.length) 8

def blocks : ℕ → List ℕ → State → State
  | 0, _, s => s
  | n + 1, ws, s => blocks n (ws.drop 16) (compress s (ws.take 16))

def digest (s : State) : List ℕ :=
  bigEndian s.a 4 ++ bigEndian s.b 4 ++ bigEndian s.c 4 ++ bigEndian s.d 4 ++
    bigEndian s.e 4 ++ bigEndian s.f 4 ++ bigEndian s.g 4 ++ bigEndian s.h 4

/-- SHA-256 of a byte string, the bytes taken as numbers. -/
def sha256 (m : List ℕ) : List ℕ :=
  let ws := words (pad m)
  digest (blocks (ws.length / 16) ws initial)

@[simp] theorem length_bigEndian (n w : ℕ) : (bigEndian n w).length = w := by
  induction w generalizing n with
  | zero => rfl
  | succ w ih => simp only [bigEndian, List.length_append, ih, List.length_singleton]

theorem length_sha256 (m : List ℕ) : (sha256 m).length = 32 := by
  simp only [sha256, digest, List.length_append, length_bigEndian]

def hash256 (m : Bytes) : List.Vector UInt8 32 :=
  ⟨(sha256 (sha256 (m.map UInt8.toNat))).map UInt8.ofNat, by rw [List.length_map, length_sha256]⟩

example : Bytes.toHex ((sha256 [0x61, 0x62, 0x63]).map UInt8.ofNat) =
    "ba7816bf8f01cfea414140de5dae2223b00361a396177a9cb410ff61f20015ad".toList := by decide +kernel

end ElektronPool.Lib.Sha256
