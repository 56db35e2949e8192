import ElektronPool.Lib.Bytes
import Mathlib.Tactic.Common

namespace ElektronPool.Lib.Codec

open Bytes

variable {α : Type}

/-- Takes a value off the front of a byte string. -/
abbrev Reader (α : Type) := Bytes → Option (α × Bytes)

/-- The reader takes off exactly what the writer puts in front. -/
def Decodes (write : α → Bytes) (read : Reader α) (a : α) : Prop :=
  ∀ rest, read (write a ++ rest) = some (a, rest)

def readBytes (n : ℕ) : Reader Bytes := fun bs ↦
  if n ≤ bs.length then some (bs.take n, bs.drop n) else none

def readLittleEndian (w : ℕ) : Reader ℕ := fun bs ↦
  (readBytes w bs).map fun (digits, rest) ↦ (ofLittleEndian digits, rest)

/-- The variable-length integer of Bitcoin. -/
def varInt (n : ℕ) : Bytes :=
  if n < 0xfd then littleEndian 1 n
  else if n < 2 ^ 16 then 0xfd :: littleEndian 2 n
  else if n < 2 ^ 32 then 0xfe :: littleEndian 4 n
  else 0xff :: littleEndian 8 n

def readVarInt : Reader ℕ
  | [] => none
  | b :: rest =>
    if b = 0xfd then readLittleEndian 2 rest
    else if b = 0xfe then readLittleEndian 4 rest
    else if b = 0xff then readLittleEndian 8 rest
    else some (b.toNat, rest)

def readMany (read : Reader α) : ℕ → Reader (List α)
  | 0, bs => some ([], bs)
  | n + 1, bs => do
    let (a, bs) ← read bs
    let (as, bs) ← readMany read n bs
    return (a :: as, bs)

def varSlice (bs : Bytes) : Bytes := varInt bs.length ++ bs

def readVarSlice : Reader Bytes := fun bs ↦ do
  let (n, bs) ← readVarInt bs
  readBytes n bs

def vector (write : α → Bytes) (as : List α) : Bytes := varInt as.length ++ as.flatMap write

def readVector (read : Reader α) : Reader (List α) := fun bs ↦ do
  let (n, bs) ← readVarInt bs
  readMany read n bs

theorem decodes_readBytes {bs : Bytes} {n : ℕ} (h : bs.length = n) :
    Decodes id (readBytes n) bs := by
  subst h
  intro rest
  have hle : bs.length ≤ (bs ++ rest).length := by
    rw [List.length_append]
    omega
  simp only [id, readBytes, if_pos hle, List.take_left, List.drop_left]

theorem decodes_littleEndian {w n : ℕ} (h : n < 256 ^ w) :
    Decodes (littleEndian w) (readLittleEndian w) n := by
  intro rest
  have hbytes := decodes_readBytes (length_littleEndian w n) rest
  simp only [id] at hbytes
  simp only [readLittleEndian, hbytes, Option.map_some, ofLittleEndian_littleEndian h]

theorem decodes_varInt {n : ℕ} (h : n < 2 ^ 64) : Decodes varInt readVarInt n := by
  intro rest
  rw [varInt]
  split_ifs with h₁ h₂ h₃
  · have hb : (UInt8.ofNat n).toNat = n := by simp only [UInt8.toNat_ofNat']; omega
    have hne (m : ℕ) (hm : 0xfd ≤ m) (hm' : m < 256) : UInt8.ofNat n ≠ UInt8.ofNat m := by
      intro heq
      have := congrArg UInt8.toNat heq
      simp only [UInt8.toNat_ofNat'] at this
      omega
    have hfd : UInt8.ofNat n ≠ 0xfd := hne 0xfd (by omega) (by omega)
    have hfe : UInt8.ofNat n ≠ 0xfe := hne 0xfe (by omega) (by omega)
    have hff : UInt8.ofNat n ≠ 0xff := hne 0xff (by omega) (by omega)
    simp only [littleEndian, List.cons_append, List.nil_append, readVarInt, if_neg hfd,
      if_neg hfe, if_neg hff, hb]
  · exact decodes_littleEndian (w := 2) (by omega) rest
  · exact decodes_littleEndian (w := 4) (by omega) rest
  · exact decodes_littleEndian (w := 8) (by omega) rest

theorem decodes_flatMap {write : α → Bytes} {read : Reader α} {as : List α}
    (h : ∀ a ∈ as, Decodes write read a) :
    Decodes (fun as ↦ as.flatMap write) (readMany read as.length) as := by
  induction as with
  | nil => exact fun _ ↦ rfl
  | cons a as ih =>
    intro rest
    have htail := ih (fun b hb ↦ h b (by simp [hb])) rest
    simp only at htail
    simp only [List.flatMap_cons, List.append_assoc, List.length_cons, readMany,
      h a (by simp) (as.flatMap write ++ rest), htail, Option.bind_eq_bind, Option.bind_some,
      Option.pure_def]

theorem decodes_varSlice {bs : Bytes} (h : bs.length < 2 ^ 64) :
    Decodes varSlice readVarSlice bs := by
  intro rest
  have hbytes := decodes_readBytes (rfl : bs.length = bs.length) rest
  simp only [id] at hbytes
  simp only [varSlice, readVarSlice, List.append_assoc, decodes_varInt h (bs ++ rest), hbytes,
    Option.bind_eq_bind, Option.bind_some]

theorem decodes_vector {write : α → Bytes} {read : Reader α} {as : List α}
    (hlen : as.length < 2 ^ 64) (h : ∀ a ∈ as, Decodes write read a) :
    Decodes (vector write) (readVector read) as := by
  intro rest
  have hmany := decodes_flatMap h rest
  simp only at hmany
  simp only [vector, readVector, List.append_assoc,
    decodes_varInt hlen (as.flatMap write ++ rest), hmany, Option.bind_eq_bind, Option.bind_some]

section Traversal

variable {α β : Type*} {f : α → Option β} {as : List α} {bs : List β} {b : β}

theorem exists_mapM (h : ∀ a ∈ as, (f a).isSome) : ∃ bs, as.mapM f = some bs := by
  induction as with
  | nil => exact ⟨[], rfl⟩
  | cons a as ih =>
    obtain ⟨b, hb⟩ := Option.isSome_iff_exists.mp (h a (by simp))
    obtain ⟨bs, hbs⟩ := ih fun a ha ↦ h a (by simp [ha])
    exact ⟨b :: bs, by simp [List.mapM_cons, hb, hbs]⟩

theorem exists_of_mem_mapM (h : as.mapM f = some bs) (hb : b ∈ bs) : ∃ a ∈ as, f a = some b := by
  induction as generalizing bs with
  | nil =>
    obtain rfl : [] = bs := Option.some.inj h
    cases hb
  | cons a as ih =>
    simp only [List.mapM_cons, Option.bind_eq_bind, Option.bind_eq_some_iff, Option.pure_def,
      Option.some.injEq] at h
    obtain ⟨b', hb', bs', hbs', rfl⟩ := h
    rcases List.mem_cons.mp hb with rfl | hb
    · exact ⟨a, by simp, hb'⟩
    · obtain ⟨a', ha', hfa'⟩ := ih hbs' hb
      exact ⟨a', by simp [ha'], hfa'⟩

end Traversal

end ElektronPool.Lib.Codec
