import ElektronPool.Model.ExternalShare
import ElektronPool.Reference

namespace ElektronPool.ExternalShares

open Lib Lib.Bytes Lib.Codec Model

/-- The timestamp field of a header. -/
def headerTimestamp (header : Bytes) : ℕ := ofLittleEndian ((header.drop 68).take 4)

/-- What the controller relies on in `Block.fromBuffer`, which takes a header off
the front and, of a longer buffer, transactions. -/
structure ReadsHeaders (blockFromBuffer : Bytes → Option (Block ℕ)) : Prop where
  short : ∀ buffer, buffer.length < 80 → blockFromBuffer buffer = none
  header : ∀ buffer, buffer.length = 80 → (blockFromBuffer buffer).isSome
  timestamp : ∀ buffer block, blockFromBuffer buffer = some block →
    block.timestamp = headerTimestamp buffer

/-- A header with enough work in it, of the last ten minutes. -/
structure IsRecentProof (controller : ExternalShareController) (now : ℕ) (header : Bytes) :
    Prop where
  length : header.length = 80
  difficulty : controller.minimumDifficulty ≤ calculateDifficulty controller.js header
  notBefore : now / 1000 ≤ headerTimestamp header + 600
  notAfter : headerTimestamp header ≤ now / 1000

variable {validator : ShareValidator} {controller : ExternalShareController}
  {table : List ExternalSharesEntity} {externalShare : ExternalPoolShare validator}
  {apiKey : Option String} {now time : ℕ}

def Stores (before after : List ExternalSharesEntity) : Prop := ∃ row, after = before ++ [row]

theorem not_stores_self : ¬ Stores table table := by
  rintro ⟨row, h⟩
  simpa using congrArg List.length h

structure Passes (controller : ExternalShareController) (now : ℕ) (header : Bytes) : Prop where
  difficulty : controller.minimumDifficulty ≤ calculateDifficulty controller.js header
  parses : (controller.blockFromBuffer header).isSome
  notBefore : now / 1000 ≤ headerTimestamp header + 600

theorem stores_iff (hreads : ReadsHeaders controller.blockFromBuffer)
    (hkey : controller.admits apiKey) :
    Stores table (controller.submitExternalShare table externalShare apiKey now time).1 ↔
      Passes controller now (ofHex externalShare.header.toList) := by
  simp only [ExternalShareController.submitExternalShare, not_true, hkey, if_false]
  split_ifs with hlow
  · exact iff_of_false not_stores_self fun h ↦ absurd h.difficulty (not_le.mpr hlow)
  · have hdifficulty := not_lt.mp hlow
    split
    case _ hnone =>
      exact iff_of_false not_stores_self fun h ↦ by simpa [hnone] using h.parses
    case _ block hblock =>
      have htimestamp := hreads.timestamp _ block hblock
      split_ifs with hold
      · exact iff_of_false not_stores_self fun h ↦ by
          have := h.notBefore
          omega
      · refine iff_of_true ⟨_, rfl⟩ ⟨hdifficulty, by simp [hblock], ?_⟩
        omega

theorem IsRecentProof.passes {header : Bytes} (hreads : ReadsHeaders controller.blockFromBuffer)
    (h : IsRecentProof controller now header) : Passes controller now header :=
  ⟨h.difficulty, hreads.header _ h.length, h.notBefore⟩

/-- The proofs that are stored are the recent ones unless one passes that is
longer than a header, or of the future. -/
theorem stores_iff_isRecentProof_iff (hreads : ReadsHeaders controller.blockFromBuffer)
    (hkey : controller.admits apiKey) :
    (Stores table (controller.submitExternalShare table externalShare apiKey now time).1 ↔
        IsRecentProof controller now (ofHex externalShare.header.toList)) ↔
      (Passes controller now (ofHex externalShare.header.toList) →
        (ofHex externalShare.header.toList).length = 80 ∧
          headerTimestamp (ofHex externalShare.header.toList) ≤ now / 1000) := by
  rw [stores_iff hreads hkey]
  constructor
  · intro h hpasses
    have hproof := h.mp hpasses
    exact ⟨hproof.length, hproof.notAfter⟩
  · intro h
    constructor
    · intro hpasses
      obtain ⟨hlength, hnotAfter⟩ := h hpasses
      exact ⟨hlength, hpasses.difficulty, hpasses.notBefore, hnotAfter⟩
    · intro hproof
      exact hproof.passes hreads

theorem isNumeral_toHex {bs : Bytes} (h : bs ≠ []) : Hex.IsNumeral (toHex bs) := by
  obtain ⟨b, bs, rfl⟩ := List.exists_cons_of_ne_nil h
  refine ⟨by simp [toHex], ?_⟩
  intro c hc
  obtain ⟨b', -, hc⟩ := List.mem_flatMap.mp hc
  have hb := b'.toNat_lt
  rcases List.mem_pair.mp hc with rfl | rfl
  · rw [hexDigit, hexDigitValue_digitChar (by omega)]
    rfl
  · rw [hexDigit, hexDigitValue_digitChar (by omega)]
    rfl

theorem isNumeral_ofList {bs : Bytes} (h : bs ≠ []) :
    Hex.IsNumeral (String.ofList (toHex bs)).toList := by
  rw [String.toList_ofList]
  exact isNumeral_toHex h

section Genesis

open Reference

/-- The parser of a transaction that others may follow. -/
def readTransaction : Reader Transaction := fun buffer ↦ do
  let (version, bs) ← readLittleEndian 4 buffer
  let (witnesses, bs) := dropMarker bs
  let (ins, bs) ← readVector readTxIn bs
  let (outs, bs) ← readVector readTxOut bs
  let (ins, bs) ← readMarkedWitnesses witnesses ins bs
  let (locktime, bs) ← readLittleEndian 4 bs
  let tx : Transaction := ⟨(BitVec.ofNat 32 version).toInt, locktime, ins, outs⟩
  if (witnesses = true → hasWitnesses tx = true) ∧ Serialisable tx then some (tx, bs) else none

/-- The transactions of a block, of which a header alone has none. -/
def readTransactions : Reader (List Transaction) := fun bs ↦
  if bs = [] then some ([], []) else readVector readTransaction bs

/-- `Block.fromBuffer`, but for the commitment of a block with witnesses. -/
def blockFromBuffer (buffer : Bytes) : Option (Block ℕ) := do
  let (version, bs) ← readLittleEndian 4 buffer
  let (prevHash, bs) ← readHash bs
  let (merkleRoot, bs) ← readHash bs
  let (timestamp, bs) ← readLittleEndian 4 bs
  let (bits, bs) ← readLittleEndian 4 bs
  let (nonce, bs) ← readLittleEndian 4 bs
  let (transactions, _) ← readTransactions bs
  return {
    version := (BitVec.ofNat 32 version).toInt
    prevHash
    merkleRoot := some merkleRoot
    timestamp
    bits := BitVec.ofNat 32 bits
    nonce
    witnessCommit := none
    transactions }

theorem readLittleEndian_of_le {w : ℕ} {bs : Bytes} (h : w ≤ bs.length) :
    readLittleEndian w bs = some (ofLittleEndian (bs.take w), bs.drop w) := by
  simp [readLittleEndian, readBytes, h]

theorem readLittleEndian_eq_some {w n : ℕ} {bs rest : Bytes}
    (h : readLittleEndian w bs = some (n, rest)) :
    w ≤ bs.length ∧ n = ofLittleEndian (bs.take w) ∧ rest = bs.drop w := by
  by_cases hle : w ≤ bs.length
  · rw [readLittleEndian_of_le hle] at h
    cases h
    exact ⟨hle, rfl, rfl⟩
  · simp [readLittleEndian, readBytes, hle] at h

theorem readHash_of_le {bs : Bytes} (h : 32 ≤ bs.length) :
    ∃ hash, readHash bs = some (hash, bs.drop 32) :=
  ⟨_, dif_pos h⟩

theorem readHash_eq_some {bs rest : Bytes} {hash : Hash} (h : readHash bs = some (hash, rest)) :
    32 ≤ bs.length ∧ rest = bs.drop 32 := by
  rw [readHash] at h
  split_ifs at h with hle
  cases h
  exact ⟨hle, rfl⟩

theorem blockFromBuffer_eq_some {buffer : Bytes} {block : Block ℕ}
    (h : blockFromBuffer buffer = some block) :
    80 ≤ buffer.length ∧ block.timestamp = headerTimestamp buffer := by
  simp only [blockFromBuffer, Option.bind_eq_bind, Option.bind_eq_some_iff] at h
  obtain ⟨⟨version, bs₁⟩, hversion, ⟨prevHash, bs₂⟩, hprev, ⟨merkleRoot, bs₃⟩, hroot,
    ⟨timestamp, bs₄⟩, htimestamp, ⟨bits, bs₅⟩, hbits, ⟨nonce, bs₆⟩, hnonce, _, _, h⟩ := h
  obtain ⟨h₁, -, rfl⟩ := readLittleEndian_eq_some hversion
  obtain ⟨h₂, rfl⟩ := readHash_eq_some hprev
  obtain ⟨h₃, rfl⟩ := readHash_eq_some hroot
  obtain ⟨h₄, rfl, rfl⟩ := readLittleEndian_eq_some htimestamp
  obtain ⟨h₅, -, rfl⟩ := readLittleEndian_eq_some hbits
  obtain ⟨h₆, -, rfl⟩ := readLittleEndian_eq_some hnonce
  simp only [List.length_drop] at h₁ h₂ h₃ h₄ h₅ h₆
  refine ⟨by omega, ?_⟩
  cases h
  simp only [List.drop_drop, headerTimestamp]

theorem isSome_blockFromBuffer {buffer : Bytes} (h : buffer.length = 80) :
    (blockFromBuffer buffer).isSome := by
  have hlen (n : ℕ) : (buffer.drop n).length = 80 - n := by rw [List.length_drop, h]
  obtain ⟨prevHash, hprev⟩ : ∃ hash, readHash (buffer.drop 4) = some (hash, (buffer.drop 4).drop 32) :=
    readHash_of_le (by rw [hlen]; decide)
  obtain ⟨merkleRoot, hroot⟩ :
      ∃ hash, readHash (buffer.drop 36) = some (hash, (buffer.drop 36).drop 32) :=
    readHash_of_le (by rw [hlen]; decide)
  have hword (n : ℕ) (hn : n ≤ 76) : readLittleEndian 4 (buffer.drop n) =
      some (ofLittleEndian ((buffer.drop n).take 4), (buffer.drop n).drop 4) :=
    readLittleEndian_of_le (by rw [hlen]; omega)
  have hversion := hword 0 (by decide)
  have hend : buffer.drop 80 = [] := List.drop_eq_nil_of_le h.le
  simp only [List.drop_zero] at hversion
  simp only [List.drop_drop, Nat.reduceAdd] at hprev hroot
  simp only [blockFromBuffer, hversion, Option.bind_eq_bind, Option.bind_some, hprev, hroot,
    hword 68 (by decide), hword 72 (by decide), hword 76 (by decide), List.drop_drop,
    Nat.reduceAdd, hend, readTransactions, if_true, Option.pure_def, Option.isSome_some]

theorem readsHeaders : ReadsHeaders blockFromBuffer where
  short buffer h := by
    by_contra hsome
    obtain ⟨block, hblock⟩ := Option.ne_none_iff_exists'.mp hsome
    exact absurd (blockFromBuffer_eq_some hblock).1 (by omega)
  header _ := isSome_blockFromBuffer
  timestamp _ _ h := (blockFromBuffer_eq_some h).2

/-- The header of the genesis block of Bitcoin, of the time 1231006505. -/
def genesis : Bytes :=
  littleEndian 4 1 ++ List.replicate 32 0 ++
    [0x3b, 0xa3, 0xed, 0xfd, 0x7a, 0x7b, 0x12, 0xb2, 0x7a, 0xc7, 0x2c, 0x3e, 0x67, 0x76, 0x8f, 0x61,
     0x7f, 0xc8, 0x1b, 0xc3, 0x88, 0x8a, 0x51, 0x32, 0x3a, 0x9f, 0xb8, 0xaa, 0x4b, 0x1e, 0x5e, 0x4a] ++
    littleEndian 4 1231006505 ++ littleEndian 4 0x1d00ffff ++ littleEndian 4 2083236893

/-- The checks of a pool on the network of the reference configuration. -/
def plainValidator : ShareValidator := ⟨String.length, settings.isBitcoinAddress⟩

theorem valid_externalShareBody {header : Bytes} (h : header ≠ []) :
    (externalShareBody (some "pool") alice "worker" "bitaxe" header).Valid plainValidator where
  worker := by
    simp only [externalShareBody, plainValidator]
    decide
  address := (by decide : settings.isBitcoinAddress alice = true)
  userAgent := by
    simp only [externalShareBody, plainValidator]
    decide
  externalPoolName := by
    simp only [externalShareBody, plainValidator]
    decide
  header := isNumeral_ofList h

def shareOf (header : Bytes) (h : header ≠ []) : ExternalPoolShare plainValidator where
  toExternalShareBody := externalShareBody (some "pool") alice "worker" "bitaxe" header
  valid := valid_externalShareBody h

theorem ofHex_shareOf (header : Bytes) (h : header ≠ []) :
    ofHex (shareOf header h).header.toList = header := by
  change ofHex (String.ofList (toHex header)).toList = header
  rw [String.toList_ofList, ofHex_toHex]

def keyless (minimumDifficulty : ℚ) : ExternalShareController :=
  .configured bitcoinJs blockFromBuffer none (some minimumDifficulty)

theorem stores_iff_isRecentProof_iff_genesis :
    (Stores [] ((keyless 1000).submitExternalShare []
          (shareOf genesis (by decide)) none 1231006505000 1231006505000).1 ↔
        IsRecentProof (keyless 1000) 1231006505000
          (ofHex (shareOf genesis (by decide)).header.toList)) ↔
      (Passes (keyless 1000) 1231006505000 (ofHex (shareOf genesis (by decide)).header.toList) →
        (ofHex (shareOf genesis (by decide)).header.toList).length = 80 ∧
          headerTimestamp (ofHex (shareOf genesis (by decide)).header.toList) ≤
            1231006505000 / 1000) :=
  stores_iff_isRecentProof_iff readsHeaders (.inl rfl)

/-- The genesis header a second before its time, and with a byte after it. -/
theorem not_stores_iff_isRecentProof :
    ¬ (Stores [] ((keyless 1000).submitExternalShare []
          (shareOf genesis (by decide)) none 1231006504000 1231006504000).1 ↔
        IsRecentProof (keyless 1000) 1231006504000 genesis) ∧
      ¬ (Stores [] ((keyless (1 / 10000000000)).submitExternalShare []
          (shareOf (genesis ++ [0]) (by decide)) none 1231006505000 1231006505000).1 ↔
        IsRecentProof (keyless (1 / 10000000000)) 1231006505000 (genesis ++ [0])) := by
  constructor
  · rw [stores_iff readsHeaders (.inl rfl), ofHex_shareOf]
    have hpasses : Passes (keyless 1000) 1231006504000 genesis :=
      ⟨by decide +kernel, by decide +kernel, by decide +kernel⟩
    exact fun h ↦ absurd (h.mp hpasses).notAfter (by decide +kernel)
  · rw [stores_iff readsHeaders (.inl rfl), ofHex_shareOf]
    have hpasses : Passes (keyless (1 / 10000000000)) 1231006505000 (genesis ++ [0]) :=
      ⟨by decide +kernel, by decide +kernel, by decide +kernel⟩
    exact fun h ↦ absurd (h.mp hpasses).length (by decide)

end Genesis

end ElektronPool.ExternalShares
