import ElektronPool.Lib.Codec
import ElektronPool.Lib.Sha256
import ElektronPool.Model.Pool

namespace ElektronPool.Reference

open Lib Lib.Bytes Lib.Codec Lib.JavaScript Model

def maxSafeInteger : ℕ := 2 ^ 53 - 1

def writeTxIn (input : TxIn) : Bytes :=
  input.hash.toList ++ littleEndian 4 input.index ++ varSlice input.script ++
    littleEndian 4 input.sequence

def writeTxOut (output : TxOut) : Bytes :=
  littleEndian 8 output.value.toNat ++ varSlice output.script

def writeWitness (input : TxIn) : Bytes := vector varSlice input.witness

def hasWitnesses (tx : Transaction) : Bool := tx.ins.any fun input ↦ !input.witness.isEmpty

/-- The wire format of a transaction, with its witnesses if it has any and they are asked for. -/
def serialise (allowWitness : Bool) (tx : Transaction) : Bytes :=
  let witnesses := allowWitness && hasWitnesses tx
  littleEndian 4 (BitVec.ofInt 32 tx.version).toNat ++ (if witnesses then [0x00, 0x01] else []) ++
    vector writeTxIn tx.ins ++ vector writeTxOut tx.outs ++
    (if witnesses then tx.ins.flatMap writeWitness else []) ++ littleEndian 4 tx.locktime.toNat

/-- The range checks of the buffer writes. -/
structure Serialisable (tx : Transaction) : Prop where
  version : -2 ^ 31 ≤ tx.version ∧ tx.version < 2 ^ 31
  locktime : 0 ≤ tx.locktime ∧ tx.locktime < 2 ^ 32
  counts : tx.ins.length ≤ maxSafeInteger ∧ tx.outs.length ≤ maxSafeInteger
  ins : ∀ input ∈ tx.ins, input.index < 2 ^ 32 ∧ input.sequence < 2 ^ 32 ∧
    input.script.length ≤ maxSafeInteger ∧ input.witness.length ≤ maxSafeInteger ∧
    ∀ item ∈ input.witness, item.length ≤ maxSafeInteger
  outs : ∀ output ∈ tx.outs, 0 ≤ output.value ∧ output.value ≤ maxSafeInteger ∧
    output.script.length ≤ maxSafeInteger

instance (tx : Transaction) : Decidable (Serialisable tx) :=
  decidable_of_iff
    ((-2 ^ 31 ≤ tx.version ∧ tx.version < 2 ^ 31) ∧ (0 ≤ tx.locktime ∧ tx.locktime < 2 ^ 32) ∧
      (tx.ins.length ≤ maxSafeInteger ∧ tx.outs.length ≤ maxSafeInteger) ∧
      (∀ input ∈ tx.ins, input.index < 2 ^ 32 ∧ input.sequence < 2 ^ 32 ∧
        input.script.length ≤ maxSafeInteger ∧ input.witness.length ≤ maxSafeInteger ∧
        ∀ item ∈ input.witness, item.length ≤ maxSafeInteger) ∧
      ∀ output ∈ tx.outs, 0 ≤ output.value ∧ output.value ≤ maxSafeInteger ∧
        output.script.length ≤ maxSafeInteger)
    ⟨fun ⟨h₁, h₂, h₃, h₄, h₅⟩ ↦ ⟨h₁, h₂, h₃, h₄, h₅⟩,
      fun ⟨h₁, h₂, h₃, h₄, h₅⟩ ↦ ⟨h₁, h₂, h₃, h₄, h₅⟩⟩

def toBuffer (allowWitness : Bool) (tx : Transaction) : Option Bytes :=
  if Serialisable tx then some (serialise allowWitness tx) else none

def readHash : Reader Hash := fun bs ↦
  if h : 32 ≤ bs.length then
    some (⟨bs.take 32, by rw [List.length_take]; omega⟩, bs.drop 32)
  else none

def readTxIn : Reader TxIn := fun bs ↦ do
  let (hash, bs) ← readHash bs
  let (index, bs) ← readLittleEndian 4 bs
  let (script, bs) ← readVarSlice bs
  let (sequence, bs) ← readLittleEndian 4 bs
  return (⟨hash, index, script, sequence, []⟩, bs)

def readTxOut : Reader TxOut := fun bs ↦ do
  let (value, bs) ← readLittleEndian 8 bs
  let (script, bs) ← readVarSlice bs
  return (⟨value, script⟩, bs)

/-- The inputs again, each with the witness read for it. -/
def readWitnesses : List TxIn → Reader (List TxIn)
  | [], bs => some ([], bs)
  | input :: ins, bs => do
    let (witness, bs) ← readVector readVarSlice bs
    let (ins, bs) ← readWitnesses ins bs
    return ({ input with witness } :: ins, bs)

def readMarkedWitnesses (witnesses : Bool) (ins : List TxIn) : Reader (List TxIn) := fun bs ↦
  if witnesses then readWitnesses ins bs else some (ins, bs)

def dropMarker : Bytes → Bool × Bytes
  | 0x00 :: 0x01 :: bs => (true, bs)
  | bs => (false, bs)

/-- The parser: no bytes may be left over, a marked transaction must have a
witness, and every number must be in range. -/
def fromBuffer (buffer : Bytes) : Option Transaction := do
  let (version, bs) ← readLittleEndian 4 buffer
  let (witnesses, bs) := dropMarker bs
  let (ins, bs) ← readVector readTxIn bs
  let (outs, bs) ← readVector readTxOut bs
  let (ins, bs) ← readMarkedWitnesses witnesses ins bs
  let (locktime, bs) ← readLittleEndian 4 bs
  let tx : Transaction := ⟨(BitVec.ofNat 32 version).toInt, locktime, ins, outs⟩
  if bs = [] ∧ (witnesses = true → hasWitnesses tx = true) ∧ Serialisable tx then some tx else none

section RoundTrip

variable {tx : Transaction}

theorem lt_of_le_maxSafeInteger {n : ℕ} (h : n ≤ maxSafeInteger) : n < 2 ^ 64 :=
  h.trans_lt (by norm_num [maxSafeInteger])

theorem decodes_readHash (hash : Hash) : Decodes (fun hash : Hash ↦ hash.toList) readHash hash := by
  obtain ⟨bs, hbs⟩ := hash
  intro rest
  have hle : 32 ≤ (bs ++ rest).length := by
    rw [List.length_append]
    omega
  change readHash (bs ++ rest) = _
  rw [readHash, dif_pos hle]
  simp only [List.take_left' hbs, List.drop_left' hbs]

def strip (input : TxIn) : TxIn := { input with witness := [] }

theorem decodes_readTxIn {input : TxIn} (hindex : input.index < 2 ^ 32)
    (hsequence : input.sequence < 2 ^ 32) (hscript : input.script.length ≤ maxSafeInteger) :
    Decodes writeTxIn readTxIn (strip input) := by
  intro rest
  simp only [strip, writeTxIn, List.append_assoc, readTxIn, decodes_readHash input.hash _,
    decodes_littleEndian (w := 4) (n := input.index) (by omega) _,
    decodes_varSlice (lt_of_le_maxSafeInteger hscript) _,
    decodes_littleEndian (w := 4) (n := input.sequence) (by omega) _,
    Option.bind_eq_bind, Option.bind_some, Option.pure_def]

theorem decodes_readTxOut {output : TxOut} (hvalue : 0 ≤ output.value)
    (hmax : output.value ≤ maxSafeInteger) (hscript : output.script.length ≤ maxSafeInteger) :
    Decodes writeTxOut readTxOut output := by
  intro rest
  have hfits : output.value.toNat < 256 ^ 8 := by
    unfold maxSafeInteger at hmax
    omega
  simp only [writeTxOut, List.append_assoc, readTxOut, decodes_littleEndian hfits _,
    decodes_varSlice (lt_of_le_maxSafeInteger hscript) _, Option.bind_eq_bind, Option.bind_some,
    Option.pure_def, Int.toNat_of_nonneg hvalue]

theorem decodes_ins (h : Serialisable tx) :
    Decodes (vector writeTxIn) (readVector readTxIn) (tx.ins.map strip) := by
  refine decodes_vector ?_ fun input hinput ↦ ?_
  · rw [List.length_map]
    exact lt_of_le_maxSafeInteger h.counts.1
  · obtain ⟨original, horiginal, rfl⟩ := List.mem_map.mp hinput
    obtain ⟨hindex, hsequence, hscript, -⟩ := h.ins original horiginal
    exact decodes_readTxIn hindex hsequence hscript

theorem vector_writeTxIn_strip (ins : List TxIn) :
    vector writeTxIn (ins.map strip) = vector writeTxIn ins := by
  simp only [vector, List.length_map, List.flatMap_map]
  rfl

theorem decodes_outs (h : Serialisable tx) :
    Decodes (vector writeTxOut) (readVector readTxOut) tx.outs := by
  refine decodes_vector (lt_of_le_maxSafeInteger h.counts.2) fun output houtput ↦ ?_
  obtain ⟨hvalue, hmax, hscript⟩ := h.outs output houtput
  exact decodes_readTxOut hvalue hmax hscript

theorem readWitnesses_append (ins : List TxIn)
    (h : ∀ input ∈ ins, input.witness.length ≤ maxSafeInteger ∧
      ∀ item ∈ input.witness, item.length ≤ maxSafeInteger) (rest : Bytes) :
    readWitnesses (ins.map strip) (ins.flatMap writeWitness ++ rest) = some (ins, rest) := by
  induction ins with
  | nil => rfl
  | cons input ins ih =>
    obtain ⟨hlen, hitems⟩ := h input (by simp)
    have hwitness := decodes_vector (lt_of_le_maxSafeInteger hlen) fun item hitem ↦
      decodes_varSlice (lt_of_le_maxSafeInteger (hitems item hitem))
    simp only [List.map_cons, List.flatMap_cons, List.append_assoc, writeWitness, readWitnesses,
      hwitness _, Option.bind_eq_bind, Option.bind_some]
    rw [ih fun input hinput ↦ h input (by simp [hinput])]
    rfl

theorem dropMarker_vector {ins : List TxIn} (hne : ins ≠ []) (rest : Bytes) :
    dropMarker (vector writeTxIn ins ++ rest) = (false, vector writeTxIn ins ++ rest) := by
  have hpos : 0 < ins.length := List.length_pos_iff.mpr hne
  obtain ⟨b, bs, hb, hcount⟩ : ∃ b bs, b ≠ 0x00 ∧ varInt ins.length = b :: bs := by
    rw [varInt]
    split_ifs with h
    · refine ⟨UInt8.ofNat ins.length, [], ?_, rfl⟩
      intro heq
      have := congrArg UInt8.toNat heq
      simp only [UInt8.toNat_ofNat', UInt8.toNat_ofNat] at this
      omega
    · exact ⟨0xfd, _, by decide, rfl⟩
    · exact ⟨0xfe, _, by decide, rfl⟩
    · exact ⟨0xff, _, by decide, rfl⟩
  simp only [vector, hcount, List.cons_append, dropMarker]
  split
  · simp_all
  · rfl

theorem map_strip_of_not_hasWitnesses (h : hasWitnesses tx = false) :
    tx.ins.map strip = tx.ins := by
  refine (List.map_congr_left fun input hinput ↦ ?_).trans (List.map_id _)
  have hempty : input.witness = [] := by
    simpa using (List.any_eq_false.mp h) input hinput
  simp [strip, ← hempty]

theorem fromBuffer_serialise (h : Serialisable tx) (hne : tx.ins ≠ []) :
    fromBuffer (serialise true tx) = some tx := by
  have hversion : (BitVec.ofNat 32 (BitVec.ofInt 32 tx.version).toNat).toInt = tx.version := by
    rw [BitVec.ofNat_toNat, BitVec.setWidth_eq, BitVec.toInt_ofInt]
    exact Int.bmod_eq_of_le (by have := h.version; omega) (by have := h.version; omega)
  have hword : (BitVec.ofInt 32 tx.version).toNat < 256 ^ 4 := BitVec.isLt _
  have hlocktime : tx.locktime.toNat < 256 ^ 4 := by
    have := h.locktime
    omega
  have hlocktime' : ((tx.locktime.toNat : ℕ) : ℤ) = tx.locktime :=
    Int.toNat_of_nonneg h.locktime.1
  have hend : readLittleEndian 4 (littleEndian 4 tx.locktime.toNat) =
      some (tx.locktime.toNat, []) := by
    simpa using decodes_littleEndian hlocktime []
  have hins := decodes_ins h
  rw [Decodes, vector_writeTxIn_strip] at hins
  cases hwitnesses : hasWitnesses tx with
  | false =>
    simp only [serialise, hwitnesses, Bool.and_false, Bool.false_eq_true, if_false,
      List.append_nil, List.append_assoc, fromBuffer, readMarkedWitnesses,
      decodes_littleEndian hword _, Option.bind_eq_bind, Option.bind_some, dropMarker_vector hne,
      hins, decodes_outs h _, hend, map_strip_of_not_hasWitnesses hwitnesses, hversion, hlocktime']
    simp [h]
  | true =>
    have hread := readWitnesses_append tx.ins (fun input hinput ↦ by
      obtain ⟨-, -, -, hlen, hitems⟩ := h.ins input hinput
      exact ⟨hlen, hitems⟩) (littleEndian 4 tx.locktime.toNat)
    simp only [serialise, hwitnesses, Bool.and_true, if_true, List.append_assoc, fromBuffer,
      readMarkedWitnesses, decodes_littleEndian hword _, Option.bind_eq_bind, Option.bind_some,
      List.cons_append, List.nil_append, dropMarker, hins, decodes_outs h _, hread, hend, hversion,
      hlocktime']
    simp [h]

end RoundTrip

def hashPair (left right : Hash) : Hash := Sha256.hash256 (left.toList ++ right.toList)

def nextLayer : List Hash → List Hash
  | left :: right :: rest => hashPair left right :: nextLayer rest
  | [left] => [hashPair left left]
  | [] => []

def climb : ℕ → List Hash → List Hash × List Hash
  | fuel + 1, left :: rest@(_ :: _) =>
    let (siblings, root) := climb fuel (nextLayer (left :: rest))
    (rest.headD left :: siblings, root)
  | _, layer => ([], layer)

/-- `merkle-lib/proof` of the first leaf: its layer in full, then each sibling, then the root. -/
def merkleProof (leaves : List Hash) : List (Option Hash) :=
  match climb leaves.length leaves with
  | ([], root) => root.map some
  | (sibling :: siblings, root) =>
    leaves.head? :: some sibling :: siblings.flatMap (fun sibling ↦ [none, some sibling]) ++
      root.map some

def isCoinbase (tx : Transaction) : Bool :=
  match tx.ins with
  | [input] => input.hash = zeroHash
  | _ => false

def witnessHash (tx : Transaction) : Hash :=
  if isCoinbase tx then zeroHash else Sha256.hash256 (serialise true tx)

def witnessReservedValue (transactions : List Transaction) : Bytes :=
  (transactions.head?.bind fun tx ↦ tx.ins.head?.bind fun input ↦ input.witness.head?).getD []

def witnessMerkleRoot (transactions : List Transaction) : Hash :=
  let root := (climb transactions.length (transactions.map witnessHash)).2.headD zeroHash
  Sha256.hash256 (root.toList ++ witnessReservedValue transactions)

def transactionWeight (tx : Transaction) : ℕ :=
  3 * (serialise false tx).length + (serialise true tx).length

def blockWeight (block : Block ℕ) : ℕ :=
  4 * (80 + (varInt block.transactions.length).length) +
    (block.transactions.map transactionWeight).sum

def blockToBuffer (headersOnly : Bool) (block : Block Number) : Option Bytes := do
  let header ← headerLayout block
  if headersOnly then return header
  else
    let transactions ← block.transactions.mapM (toBuffer true)
    return header ++ varInt block.transactions.length ++ transactions.flatten

/-- A script number of at most four bytes, least significant byte first, with room for its sign. -/
def scriptNumberEncode (n : ℕ) : Bytes :=
  let width := if n = 0 then 0 else (Nat.log2 n + 1) / 8 + 1
  littleEndian width n

def compileOpReturn (data : Bytes) : Bytes :=
  if data.length < 76 then 0x6a :: UInt8.ofNat data.length :: data
  else 0x6a :: 0x4c :: UInt8.ofNat data.length :: data

def alice : String := "bcrt1qzyg3zyg3zyg3zyg3zyg3zyg3zyg3zyg3lgth6c"
def bob : String := "bcrt1qyg3zyg3zyg3zyg3zyg3zyg3zyg3zyg3zs4w3j0"

/-- Two pay-to-witness-key addresses of the regtest chain and their scripts. -/
def toOutputScript : Network → String → Option Bytes
  | .elektronRegtest, address =>
    if address = alice then some (0x00 :: 0x14 :: List.replicate 20 0x11)
    else if address = bob then some (0x00 :: 0x14 :: List.replicate 20 0x22)
    else none
  | _, _ => none

def bitcoinJs : BitcoinJs where
  hash256 := Sha256.hash256
  toOutputScript
  transactionFromBuffer := fromBuffer
  transactionToBuffer := toBuffer true
  transactionNoWitness := toBuffer false
  transactionWeight
  blockWeight
  blockToBuffer
  witnessMerkleRoot
  scriptNumberEncode
  compileOpReturn
  merkleProof

theorem serialises : bitcoinJs.Serialises where
  header block := by
    change blockToBuffer true block = _
    rw [blockToBuffer]
    cases headerLayout block <;> rfl
  parse tx hne hsome := by
    change (toBuffer true tx >>= fromBuffer) = some tx
    have hserialisable : Serialisable tx := by
      by_contra hnot
      simp [bitcoinJs, toBuffer, hnot] at hsome
    rw [toBuffer, if_pos hserialisable]
    exact fromBuffer_serialise hserialisable hne

theorem serialisable_of_fromBuffer {buffer : Bytes} {tx : Transaction}
    (h : fromBuffer buffer = some tx) : Serialisable tx := by
  simp only [fromBuffer, Option.bind_eq_bind, Option.bind_eq_some_iff] at h
  obtain ⟨_, _, _, _, _, _, _, _, _, _, h⟩ := h
  split_ifs at h with hchecks
  obtain rfl := Option.some.inj h
  exact hchecks.2.2

theorem serialisesBlocks : bitcoinJs.SerialisesBlocks where
  reserialise buffer tx h := by
    change (toBuffer true tx).isSome
    rw [toBuffer, if_pos (serialisable_of_fromBuffer h)]
    rfl
  block block hheader htransactions := by
    change (blockToBuffer false block).isSome
    obtain ⟨header, hheader⟩ := Option.isSome_iff_exists.mp hheader
    replace hheader : headerLayout block = some header := by
      change blockToBuffer true block = some header at hheader
      rw [blockToBuffer] at hheader
      cases h : headerLayout block <;> simp_all
    obtain ⟨buffers, hbuffers⟩ := exists_mapM (f := toBuffer true) htransactions
    simp [blockToBuffer, hheader, hbuffers]

def answer (height : ℕ) (previousblockhash : Hash) : IBlockTemplate where
  version := 0x20000000
  previousblockhash
  transactions := []
  coinbasevalue := 5000000000
  mintime := 0
  bits := 0x207fffff
  height
  coinbaseRequiredOutputs := []
  coinbaseScriptSigPrefix := none

def hashOf (b : UInt8) : Hash := List.Vector.replicate 32 b

/-- A pool of the regtest chain that favours and blocks no miner. -/
def settings : Config where
  js := bitcoinJs
  network := some .elektronRegtest
  isBlockedUserAgent _ := false
  isHobbyMiner _ := false
  hobbyMinerDifficulty := 1 / 1000
  externalShareDifficulty := none
  stack := 10000

section Script

variable (id : SessionId)

def resumes (n : ℕ) : List Event := List.replicate n (.session id (.resume 0 .done))

def subscribing : Line := .subscribe ⟨"1", "bitaxe"⟩
def authorizing (address : String) : Line := .authorize ⟨"2", address, "worker", none⟩

/-- A miner connects, and its session starts to work. -/
def opening (address : String) : List Event :=
  .session id (.connect "aabbccdd") ::
    .session id (.data [subscribing, authorizing address]) :: resumes id 5

def easyOpening (address : String) : List Event :=
  .session id (.connect "aabbccdd") ::
    .session id (.data [subscribing, .suggestDifficulty "9" 0, authorizing address]) ::
    resumes id 6

/-- A new block, for which the session fetches a template and sends a job. -/
def working (blockTemplate : IBlockTemplate) : List Event :=
  [.session id .newBlock, .session id (.resume 0 (.answered blockTemplate)),
    .session id (.resume 0 .done)]

/-- A submission, up to the write of the reply. -/
def submitting (submission : MiningSubmitMessage) : List Event :=
  [.session id (.data [.submit submission]), .session id (.resume 0 .done)]

/-- The first share of a session up to its credit and the records that follow it. -/
def crediting (submission : MiningSubmitMessage) : List Event :=
  submitting id submission ++ resumes id 1 ++ .session id (.resume 0 (.inserted none)) ::
    resumes id 5

end Script

end ElektronPool.Reference
