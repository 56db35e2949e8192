import ElektronPool.Lib.Bytes
import Mathlib.Algebra.Order.BigOperators.Group.List

namespace ElektronPool.Lib.Utf8

def replacement : Char := '\uFFFD'

def encode (cs : List Char) : Bytes := cs.flatMap String.utf8EncodeChar

def IsUtf8 (bs : Bytes) : Prop := ∃ cs, bs = encode cs

/-- A character of which the first bytes are read: the bounds on the next byte,
and how many bytes come after it. -/
structure Pending where
  codePoint : ℕ
  lower : ℕ
  upper : ℕ
  later : ℕ
  bounds : 0x80 ≤ lower ∧ upper ≤ 0xBF
  scalar : ∀ b tail, lower ≤ b → b ≤ upper → tail < 64 ^ later →
    0x80 ≤ (codePoint * 64 + b % 64) * 64 ^ later + tail ∧
      Nat.isValidChar ((codePoint * 64 + b % 64) * 64 ^ later + tail)

def twoBytes (b : ℕ) (h : 0xC2 ≤ b ∧ b ≤ 0xDF) : Pending where
  codePoint := b % 32
  lower := 0x80
  upper := 0xBF
  later := 0
  bounds := by decide
  scalar c tail hlo hhi ht := by
    simp only [pow_zero, Nat.isValidChar] at ht ⊢
    omega

def threeBytes (b : ℕ) (h : 0xE0 ≤ b ∧ b ≤ 0xEF) : Pending where
  codePoint := b % 16
  lower := if b = 0xE0 then 0xA0 else 0x80
  upper := if b = 0xED then 0x9F else 0xBF
  later := 1
  bounds := by split_ifs <;> omega
  scalar c tail hlo hhi ht := by
    simp only [pow_one, Nat.isValidChar] at ht ⊢
    split_ifs at hlo hhi <;> omega

def fourBytes (b : ℕ) (h : 0xF0 ≤ b ∧ b ≤ 0xF4) : Pending where
  codePoint := b % 8
  lower := if b = 0xF0 then 0x90 else 0x80
  upper := if b = 0xF4 then 0x8F else 0xBF
  later := 2
  bounds := by split_ifs <;> omega
  scalar c tail hlo hhi ht := by
    simp only [Nat.reducePow, Nat.isValidChar] at ht ⊢
    split_ifs at hlo hhi <;> omega

namespace Pending

variable (p : Pending) (b : ℕ) (h : p.lower ≤ b ∧ b ≤ p.upper)

def complete (hlast : p.later = 0) : Char :=
  have hscalar : Nat.isValidChar (p.codePoint * 64 + b % 64) := by
    have := (p.scalar b 0 h.1 h.2 (by positivity)).2
    simpa [hlast] using this
  Char.ofNatAux (p.codePoint * 64 + b % 64) hscalar

theorem le_toNat_complete (hlast : p.later = 0) : 0x80 ≤ (p.complete b h hlast).toNat := by
  have hscalar := (p.scalar b 0 h.1 h.2 (by positivity)).1
  rw [hlast, pow_zero, mul_one, add_zero] at hscalar
  exact hscalar

def next (hlast : p.later ≠ 0) : Pending where
  codePoint := p.codePoint * 64 + b % 64
  lower := 0x80
  upper := 0xBF
  later := p.later - 1
  bounds := by decide
  scalar c tail _ _ ht := by
    obtain ⟨k, hk⟩ := Nat.exists_eq_add_one_of_ne_zero hlast
    rw [hk, Nat.add_sub_cancel] at ht ⊢
    have hfits : c % 64 * 64 ^ k + tail < 64 ^ (k + 1) := by
      have hdigit : c % 64 * 64 ^ k ≤ 63 * 64 ^ k := Nat.mul_le_mul_right _ (by omega)
      rw [pow_succ]
      omega
    have hscalar := p.scalar b (c % 64 * 64 ^ k + tail) h.1 h.2 (hk ▸ hfits)
    have hsum : ((p.codePoint * 64 + b % 64) * 64 + c % 64) * 64 ^ k + tail =
        (p.codePoint * 64 + b % 64) * 64 ^ (k + 1) + (c % 64 * 64 ^ k + tail) := by ring
    rw [hsum]
    exact hk ▸ hscalar

end Pending

/-- What a byte between characters gives. -/
def lead (b : ℕ) : List Char × Option Pending :=
  if b < 0x80 then ([Char.ofNat b], none)
  else if h : 0xC2 ≤ b ∧ b ≤ 0xDF then ([], some (twoBytes b h))
  else if h : 0xE0 ≤ b ∧ b ≤ 0xEF then ([], some (threeBytes b h))
  else if h : 0xF0 ≤ b ∧ b ≤ 0xF4 then ([], some (fourBytes b h))
  else ([replacement], none)

/-- What a byte gives: one that cannot follow those of a character ends it with a
replacement, and is read again. -/
def step : Option Pending → ℕ → List Char × Option Pending
  | none, b => lead b
  | some p, b =>
    if h : p.lower ≤ b ∧ b ≤ p.upper then
      if hlast : p.later = 0 then ([p.complete b h hlast], none)
      else ([], some (p.next b h hlast))
    else (replacement :: (lead b).1, (lead b).2)

def decodeFrom : Option Pending → Bytes → List Char
  | none, [] => []
  | some _, [] => [replacement]
  | state, b :: bs => (step state b.toNat).1 ++ decodeFrom (step state b.toNat).2 bs

/-- The decoder that puts one replacement for each longest part of a character
that is not all there. -/
def decode (bs : Bytes) : List Char := decodeFrom none bs

section RoundTrip

variable {p : Pending} {b b₁ b₂ b₃ b₄ : UInt8} {bs : Bytes} {c : Char}

theorem decodeFrom_cons (state : Option Pending) :
    decodeFrom state (b :: bs) =
      (step state b.toNat).1 ++ decodeFrom (step state b.toNat).2 bs := by
  cases state <;> rfl

theorem lead_two {n : ℕ} (h : 0xC2 ≤ n ∧ n ≤ 0xDF) : lead n = ([], some (twoBytes n h)) := by
  rw [lead, if_neg (by omega), dif_pos h]

theorem lead_three {n : ℕ} (h : 0xE0 ≤ n ∧ n ≤ 0xEF) : lead n = ([], some (threeBytes n h)) := by
  rw [lead, if_neg (by omega), dif_neg (by omega), dif_pos h]

theorem lead_four {n : ℕ} (h : 0xF0 ≤ n ∧ n ≤ 0xF4) : lead n = ([], some (fourBytes n h)) := by
  rw [lead, if_neg (by omega), dif_neg (by omega), dif_neg (by omega), dif_pos h]

theorem decodeFrom_next (h : p.lower ≤ b.toNat ∧ b.toNat ≤ p.upper) (hlast : p.later ≠ 0) :
    decodeFrom (some p) (b :: bs) = decodeFrom (some (p.next b.toNat h hlast)) bs := by
  rw [decodeFrom_cons, step, dif_pos h, dif_neg hlast, List.nil_append]

theorem decodeFrom_complete (h : p.lower ≤ b.toNat ∧ b.toNat ≤ p.upper) (hlast : p.later = 0)
    (hc : c.toNat = p.codePoint * 64 + b.toNat % 64) :
    decodeFrom (some p) (b :: bs) = c :: decodeFrom none bs := by
  have hcomplete : p.complete b.toNat h hlast = c := by
    rw [← Char.toNat_inj, hc]
    rfl
  rw [decodeFrom_cons, step, dif_pos h, dif_pos hlast, hcomplete, List.singleton_append]

theorem decodeFrom_one (h : b.toNat < 0x80) (hc : c.toNat = b.toNat) :
    decodeFrom none (b :: bs) = c :: decodeFrom none bs := by
  have hchar : Char.ofNat b.toNat = c := by rw [← hc, Char.ofNat_toNat]
  rw [decodeFrom_cons, step, lead, if_pos h, hchar, List.singleton_append]

theorem decodeFrom_two (h₁ : 0xC2 ≤ b₁.toNat ∧ b₁.toNat ≤ 0xDF)
    (h₂ : 0x80 ≤ b₂.toNat ∧ b₂.toNat ≤ 0xBF)
    (hc : c.toNat = b₁.toNat % 32 * 64 + b₂.toNat % 64) :
    decodeFrom none (b₁ :: b₂ :: bs) = c :: decodeFrom none bs := by
  rw [decodeFrom_cons, step, lead_two h₁, List.nil_append,
    decodeFrom_complete (p := twoBytes b₁.toNat h₁) h₂ rfl hc]

theorem decodeFrom_three (h₁ : 0xE0 ≤ b₁.toNat ∧ b₁.toNat ≤ 0xEF)
    (h₂ : 0x80 ≤ b₂.toNat ∧ b₂.toNat ≤ 0xBF) (h₃ : 0x80 ≤ b₃.toNat ∧ b₃.toNat ≤ 0xBF)
    (hlower : b₁.toNat = 0xE0 → 0xA0 ≤ b₂.toNat) (hupper : b₁.toNat = 0xED → b₂.toNat ≤ 0x9F)
    (hc : c.toNat = (b₁.toNat % 16 * 64 + b₂.toNat % 64) * 64 + b₃.toNat % 64) :
    decodeFrom none (b₁ :: b₂ :: b₃ :: bs) = c :: decodeFrom none bs := by
  have hbounds : (threeBytes b₁.toNat h₁).lower ≤ b₂.toNat ∧
      b₂.toNat ≤ (threeBytes b₁.toNat h₁).upper := by
    simp only [threeBytes]
    split_ifs <;> omega
  have hnext : (threeBytes b₁.toNat h₁).later ≠ 0 := Nat.one_ne_zero
  rw [decodeFrom_cons, step, lead_three h₁, List.nil_append, decodeFrom_next hbounds hnext,
    decodeFrom_complete (p := (threeBytes b₁.toNat h₁).next b₂.toNat hbounds hnext) h₃ rfl hc]

theorem decodeFrom_four (h₁ : 0xF0 ≤ b₁.toNat ∧ b₁.toNat ≤ 0xF4)
    (h₂ : 0x80 ≤ b₂.toNat ∧ b₂.toNat ≤ 0xBF) (h₃ : 0x80 ≤ b₃.toNat ∧ b₃.toNat ≤ 0xBF)
    (h₄ : 0x80 ≤ b₄.toNat ∧ b₄.toNat ≤ 0xBF)
    (hlower : b₁.toNat = 0xF0 → 0x90 ≤ b₂.toNat) (hupper : b₁.toNat = 0xF4 → b₂.toNat ≤ 0x8F)
    (hc : c.toNat = ((b₁.toNat % 8 * 64 + b₂.toNat % 64) * 64 + b₃.toNat % 64) * 64 +
      b₄.toNat % 64) :
    decodeFrom none (b₁ :: b₂ :: b₃ :: b₄ :: bs) = c :: decodeFrom none bs := by
  have hbounds : (fourBytes b₁.toNat h₁).lower ≤ b₂.toNat ∧
      b₂.toNat ≤ (fourBytes b₁.toNat h₁).upper := by
    simp only [fourBytes]
    split_ifs <;> omega
  have hnext : (fourBytes b₁.toNat h₁).later ≠ 0 := Nat.succ_ne_zero 1
  let third := (fourBytes b₁.toNat h₁).next b₂.toNat hbounds hnext
  have hthird : third.later ≠ 0 := Nat.one_ne_zero
  rw [decodeFrom_cons, step, lead_four h₁, List.nil_append, decodeFrom_next hbounds hnext,
    decodeFrom_next (p := third) h₃ hthird,
    decodeFrom_complete (p := third.next b₃.toNat h₃ hthird) h₄ rfl hc]

theorem decodeFrom_encodeChar (c : Char) :
    decodeFrom none (String.utf8EncodeChar c ++ bs) = c :: decodeFrom none bs := by
  have hvalid : c.toNat < 0xD800 ∨ 0xDFFF < c.toNat ∧ c.toNat < 0x110000 := c.valid
  have hbyte {n : ℕ} (hn : n < 256) : (UInt8.ofNat n).toNat = n := by
    rw [UInt8.toNat_ofNat']
    omega
  have htail (n : ℕ) : (UInt8.ofNat (n % 64 + 0x80)).toNat = n % 64 + 0x80 := hbyte (by omega)
  have hval : c.val.toNat = c.toNat := rfl
  rw [String.utf8EncodeChar, hval]
  split_ifs with h₁ h₂ h₃
  · have hone := hbyte (show c.toNat < 256 by omega)
    exact decodeFrom_one (by omega) hone.symm
  · have hlead := hbyte (show c.toNat / 64 % 32 + 0xc0 < 256 by omega)
    refine decodeFrom_two ?_ ?_ ?_
    all_goals simp only [hlead, htail]; omega
  · have hlead := hbyte (show c.toNat / 4096 % 16 + 0xe0 < 256 by omega)
    refine decodeFrom_three ?_ ?_ ?_ ?_ ?_ ?_
    all_goals simp only [hlead, htail]; omega
  · have hlead := hbyte (show c.toNat / 262144 % 8 + 0xf0 < 256 by omega)
    refine decodeFrom_four ?_ ?_ ?_ ?_ ?_ ?_ ?_
    all_goals simp only [hlead, htail]; omega

theorem encode_cons (c : Char) (cs : List Char) :
    encode (c :: cs) = String.utf8EncodeChar c ++ encode cs := rfl

theorem decode_encode (cs : List Char) : decode (encode cs) = cs := by
  induction cs with
  | nil => rfl
  | cons c cs ih =>
    rw [decode, encode_cons, decodeFrom_encodeChar]
    exact congrArg _ ih

end RoundTrip

section Count

def IsContinuation (b : UInt8) : Prop := 0x80 ≤ b.toNat ∧ b.toNat ≤ 0xBF

instance (b : UInt8) : Decidable (IsContinuation b) := inferInstanceAs (Decidable (_ ∧ _))

variable (sep : Char)

def visible (cs : List Char) : ℕ := cs.countP (· ≠ sep)

def leads (bs : Bytes) : ℕ := bs.countP fun b ↦ ¬ IsContinuation b ∧ b.toNat ≠ sep.toNat

def weight : Option Pending → ℕ
  | none => 0
  | some _ => 1

variable {sep} {b : UInt8} {bs : Bytes}

theorem visible_append (cs cs' : List Char) :
    visible sep (cs ++ cs') = visible sep cs + visible sep cs' := List.countP_append

theorem visible_singleton {c : Char} (h : c ≠ sep) : visible sep [c] = 1 := by simp [visible, h]

theorem leads_cons : leads sep (b :: bs) = leads sep [b] + leads sep bs := by
  rw [← List.singleton_append, leads, List.countP_append]
  rfl

theorem leads_singleton_le : leads sep [b] ≤ 1 := List.countP_le_length

theorem replacement_ne (hsep : sep.toNat < 0x80) : replacement ≠ sep := by
  rintro rfl
  exact absurd hsep (by decide)

theorem leads_le_lead (hsep : sep.toNat < 0x80) :
    leads sep [b] ≤ visible sep (lead b.toNat).1 + weight (lead b.toNat).2 := by
  rw [lead]
  split_ifs with hascii
  · have hvalid : b.toNat.isValidChar := by
      simp only [Nat.isValidChar]
      omega
    have htoNat : (Char.ofNat b.toNat).toNat = b.toNat := by
      rw [Char.ofNat, dif_pos hvalid]
      rfl
    by_cases hsame : b.toNat = sep.toNat
    · simp [leads, hsame]
    · rw [visible_singleton fun heq ↦ hsame (by rw [← htoNat, heq])]
      exact leads_singleton_le
  · exact leads_singleton_le
  · exact leads_singleton_le
  · exact leads_singleton_le
  · rw [visible_singleton (replacement_ne hsep)]
    exact leads_singleton_le

theorem leads_singleton_of_isContinuation (h : IsContinuation b) : leads sep [b] = 0 := by
  simp [leads, h]

theorem Pending.isContinuation (p : Pending) (h : p.lower ≤ b.toNat ∧ b.toNat ≤ p.upper) :
    IsContinuation b :=
  ⟨p.bounds.1.trans h.1, h.2.trans p.bounds.2⟩

theorem leads_le_step (hsep : sep.toNat < 0x80) (state : Option Pending) :
    leads sep [b] + weight state ≤
      visible sep (step state b.toNat).1 + weight (step state b.toNat).2 := by
  cases state with
  | none => exact leads_le_lead hsep
  | some p =>
    rw [step]
    split_ifs with h hlast
    · have hcomplete : p.complete b.toNat h hlast ≠ sep := by
        rintro rfl
        exact absurd hsep (not_lt.mpr (p.le_toNat_complete b.toNat h hlast))
      have hnone : leads sep [b] = 0 := leads_singleton_of_isContinuation (p.isContinuation h)
      simp only [weight, hnone, visible_singleton hcomplete]
      exact le_rfl
    · have hnone : leads sep [b] = 0 := leads_singleton_of_isContinuation (p.isContinuation h)
      simp only [weight, hnone]
      omega
    · have hlead := leads_le_lead (b := b) hsep
      have hmore : visible sep (replacement :: (lead b.toNat).1) =
          1 + visible sep (lead b.toNat).1 := by
        rw [← List.singleton_append, visible_append, visible_singleton (replacement_ne hsep)]
      simp only [weight, hmore] at hlead ⊢
      omega

theorem leads_le_visible (hsep : sep.toNat < 0x80) (state : Option Pending) :
    leads sep bs + weight state ≤ visible sep (decodeFrom state bs) := by
  induction bs generalizing state with
  | nil =>
    cases state with
    | none => exact le_rfl
    | some p => simp [decodeFrom, visible, replacement_ne hsep, leads, weight]
  | cons b bs ih =>
    have hstep := leads_le_step (b := b) hsep state
    have hrest := ih (step state b.toNat).2
    rw [leads_cons, decodeFrom_cons, visible_append]
    omega

theorem leads_lt_visible (hsep : sep.toNat < 0x80) (h : IsContinuation b) :
    leads sep (b :: bs) < visible sep (decode (b :: bs)) := by
  have hlead : lead b.toNat = ([replacement], none) := by
    obtain ⟨hlo, hhi⟩ := h
    rw [lead, if_neg (by omega), dif_neg (by omega), dif_neg (by omega), dif_neg (by omega)]
  have hnone : leads sep [b] = 0 := leads_singleton_of_isContinuation h
  have hrest : leads sep bs + weight none ≤ visible sep (decodeFrom none bs) :=
    leads_le_visible hsep none
  rw [decode, decodeFrom_cons, step, hlead, visible_append, leads_cons, hnone,
    visible_singleton (replacement_ne hsep)]
  simp only [weight] at hrest ⊢
  omega

theorem leads_singleton_of_le (hsep : sep.toNat < 0x80) (h : 0xC0 ≤ b.toNat) :
    leads sep [b] = 1 := by
  have hnot : ¬ IsContinuation b := fun hb ↦ by
    have := hb.2
    omega
  have hne : b.toNat ≠ sep.toNat := by omega
  simp [leads, hnot, hne]

theorem leads_encodeChar (hsep : sep.toNat < 0x80) (c : Char) :
    leads sep (String.utf8EncodeChar c) = visible sep [c] := by
  have hvalid : c.toNat < 0xD800 ∨ 0xDFFF < c.toNat ∧ c.toNat < 0x110000 := c.valid
  have hbyte {n : ℕ} (hn : n < 256) : (UInt8.ofNat n).toNat = n := by
    rw [UInt8.toNat_ofNat']
    omega
  have htail (n : ℕ) (bs : Bytes) :
      leads sep (UInt8.ofNat (n % 64 + 0x80) :: bs) = leads sep bs := by
    have hcontinuation : IsContinuation (UInt8.ofNat (n % 64 + 0x80)) := by
      rw [IsContinuation, hbyte (by omega)]
      omega
    rw [leads_cons, leads_singleton_of_isContinuation hcontinuation, zero_add]
  have hlead {n : ℕ} (hn : n < 256) (hle : 0xC0 ≤ n) (bs : Bytes) :
      leads sep (UInt8.ofNat n :: bs) = 1 + leads sep bs := by
    rw [leads_cons, leads_singleton_of_le hsep (by rwa [hbyte hn])]
  have hlong (h : ¬ c.toNat ≤ 0x7f) : visible sep [c] = 1 :=
    visible_singleton (by rintro rfl; omega)
  have hval : c.val.toNat = c.toNat := rfl
  rw [String.utf8EncodeChar, hval]
  split_ifs with h₁ h₂ h₃
  · have hnot : ¬ IsContinuation (UInt8.ofNat c.toNat) := by
      rw [IsContinuation, hbyte (by omega)]
      omega
    have hsame : c.toNat = sep.toNat ↔ c = sep := Char.toNat_inj
    simp [leads, visible, hnot, hbyte (show c.toNat < 256 by omega), hsame]
  · rw [hlead (by omega) (by omega), htail, hlong h₁]
    rfl
  · rw [hlead (by omega) (by omega), htail, htail, hlong h₁]
    rfl
  · rw [hlead (by omega) (by omega), htail, htail, htail, hlong h₁]
    rfl

theorem leads_encode (hsep : sep.toNat < 0x80) (cs : List Char) :
    leads sep (encode cs) = visible sep cs := by
  induction cs with
  | nil => rfl
  | cons c cs ih =>
    rw [encode_cons, leads, List.countP_append, ← leads, ← leads, leads_encodeChar hsep, ih,
      ← visible_append, List.singleton_append]

end Count

section Chunks

variable {chunks : List Bytes}

theorem exists_encodeChar (c : Char) :
    ∃ b bs, String.utf8EncodeChar c = b :: bs ∧ ∀ b' ∈ bs, IsContinuation b' := by
  have htail (n : ℕ) : IsContinuation (UInt8.ofNat (n % 64 + 0x80)) := by
    rw [IsContinuation, UInt8.toNat_ofNat']
    omega
  rw [String.utf8EncodeChar]
  split_ifs
  · exact ⟨_, _, rfl, List.forall_mem_nil _⟩
  · exact ⟨_, _, rfl, List.forall_mem_cons.mpr ⟨htail _, List.forall_mem_nil _⟩⟩
  · exact ⟨_, _, rfl, List.forall_mem_cons.mpr
      ⟨htail _, List.forall_mem_cons.mpr ⟨htail _, List.forall_mem_nil _⟩⟩⟩
  · exact ⟨_, _, rfl, List.forall_mem_cons.mpr ⟨htail _, List.forall_mem_cons.mpr
      ⟨htail _, List.forall_mem_cons.mpr ⟨htail _, List.forall_mem_nil _⟩⟩⟩⟩

/-- A text is cut between two characters where no byte inside one comes next. -/
theorem isUtf8_of_append {cs : List Char} {bs bs' : Bytes} (h : encode cs = bs ++ bs')
    (hnext : ∀ b ∈ bs'.head?, ¬ IsContinuation b) : IsUtf8 bs ∧ IsUtf8 bs' := by
  induction cs generalizing bs with
  | nil =>
    obtain ⟨rfl, rfl⟩ := List.append_eq_nil_iff.mp h.symm
    exact ⟨⟨[], rfl⟩, [], rfl⟩
  | cons c cs ih =>
    rw [encode_cons] at h
    rcases List.append_eq_append_iff.mp h with ⟨more, hbs, hrest⟩ | ⟨more, hchar, hrest⟩
    · obtain ⟨⟨cs₁, hcs₁⟩, hcs₂⟩ := ih hrest
      exact ⟨⟨c :: cs₁, by rw [hbs, hcs₁]; rfl⟩, hcs₂⟩
    · cases bs with
      | nil =>
        rw [List.nil_append] at hchar
        exact ⟨⟨[], rfl⟩, c :: cs, by rw [encode_cons, hrest, hchar]⟩
      | cons b bs =>
        obtain ⟨first, inside, hencode, hinside⟩ := exists_encodeChar c
        rw [hencode, List.cons_append, List.cons.injEq] at hchar
        cases more with
        | nil =>
          refine ⟨⟨[c], ?_⟩, cs, hrest⟩
          rw [encode, List.flatMap_singleton, hencode, hchar.1, hchar.2, List.append_nil]
        | cons m more =>
          have hm : IsContinuation m := hinside m (by simp [hchar.2])
          exact absurd hm (hnext m (by simp [hrest]))

theorem isUtf8_of_heads (hall : IsUtf8 chunks.flatten)
    (hheads : ∀ chunk ∈ chunks, ∀ b ∈ chunk.head?, ¬ IsContinuation b) :
    ∀ chunk ∈ chunks, IsUtf8 chunk := by
  induction chunks with
  | nil => exact fun _ h ↦ absurd h List.not_mem_nil
  | cons chunk chunks ih =>
    have hnext : ∀ b ∈ chunks.flatten.head?, ¬ IsContinuation b := by
      intro b hb
      rw [List.head?_flatten] at hb
      obtain ⟨chunk', hchunk', hb⟩ := List.exists_of_findSome?_eq_some hb
      exact hheads chunk' (List.mem_cons_of_mem _ hchunk') b hb
    obtain ⟨cs, hcs⟩ := hall
    obtain ⟨hfirst, hrest⟩ := isUtf8_of_append hcs.symm hnext
    exact List.forall_mem_cons.mpr
      ⟨hfirst, ih hrest fun chunk' h ↦ hheads chunk' (List.mem_cons_of_mem _ h)⟩

theorem decode_append {bs : Bytes} (h : IsUtf8 bs) (bs' : Bytes) :
    decode (bs ++ bs') = decode bs ++ decode bs' := by
  obtain ⟨cs, rfl⟩ := h
  rw [decode_encode]
  induction cs with
  | nil => rfl
  | cons c cs ih =>
    rw [encode_cons, List.append_assoc, decode, decodeFrom_encodeChar, ← decode, ih, List.cons_append]

/-- Chunks that are texts are decoded as the text they are cut from. -/
theorem flatMap_decode (h : ∀ chunk ∈ chunks, IsUtf8 chunk) :
    chunks.flatMap decode = decode chunks.flatten := by
  induction chunks with
  | nil => rfl
  | cons chunk chunks ih =>
    obtain ⟨hfirst, hrest⟩ := List.forall_mem_cons.mp h
    rw [List.flatMap_cons, List.flatten_cons, decode_append hfirst, ih hrest]

/-- Where a character is cut the chunks are decoded to more characters than the text has. -/
theorem visible_decode_lt {sep : Char} (hsep : sep.toNat < 0x80) (hall : IsUtf8 chunks.flatten)
    (hcut : ¬ ∀ chunk ∈ chunks, IsUtf8 chunk) :
    visible sep (decode chunks.flatten) < visible sep (chunks.flatMap decode) := by
  obtain ⟨chunk, hchunk, b, hb, hinside⟩ :
      ∃ chunk ∈ chunks, ∃ b ∈ chunk.head?, IsContinuation b := by
    by_contra hnone
    push Not at hnone
    exact hcut (isUtf8_of_heads hall hnone)
  obtain ⟨rest, rfl⟩ : ∃ rest, chunk = b :: rest := ⟨_, List.eq_cons_of_mem_head? hb⟩
  obtain ⟨cs, hcs⟩ := hall
  have htext : visible sep (decode chunks.flatten) = (chunks.map (leads sep)).sum := by
    rw [hcs, decode_encode, ← leads_encode hsep, ← hcs, leads, List.countP_flatten]
    rfl
  have hchunks : visible sep (chunks.flatMap decode) =
      (chunks.map fun chunk ↦ visible sep (decode chunk)).sum := List.countP_flatMap
  rw [htext, hchunks]
  exact List.sum_lt_sum _ _ (fun chunk _ ↦ leads_le_visible hsep none)
    ⟨b :: rest, hchunk, leads_lt_visible hsep hinside⟩

end Chunks

end ElektronPool.Lib.Utf8
