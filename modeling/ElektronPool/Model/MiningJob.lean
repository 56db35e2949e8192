import ElektronPool.Model.BitcoinJs

namespace ElektronPool.Model

open Lib Lib.JavaScript

/-- A number of the difficulty computations: an exact rational, or `Infinity`. -/
abbrev Difficulty := WithTop ℚ

structure BlockData where
  id : String
  creation : ℕ
  coinbasevalue : ℕ
  networkDifficulty : Difficulty
  height : ℕ
  clearJobs : Bool
deriving DecidableEq

/-- The hex strings of `merkle_branch` are carried as the hashes they encode. -/
structure IJobTemplate where
  block : Block ℕ
  merkleBranch : List Hash
  coinbaseRequiredOutputs : List TxOut
  coinbaseScriptSigPrefix : Option Bytes
  blockData : BlockData
deriving DecidableEq

structure AddressObject where
  address : String
  percent : ℕ
deriving DecidableEq

/-- The params of `mining.notify`, as they stand on the wire. -/
structure IMiningNotify where
  jobId : String
  prevHash : String
  coinbasePart1 : String
  coinbasePart2 : String
  merkleBranch : List String
  version : String
  bits : String
  timestamp : String
  clearJobs : Bool
deriving DecidableEq

/-- `coinbasePart1` and `coinbasePart2` are the hex of the two buffers and are
not kept a second time. -/
structure MiningJob where
  coinbaseTransaction : Transaction
  coinbasePart1Buffer : Bytes
  coinbasePart2Buffer : Bytes
  merkleBranchBuffers : List Hash
  jobVersion : ℤ
  jobTemplateId : String
  creation : ℕ
  jobId : String
deriving DecidableEq

def maxBlockWeight : ℕ := 4000000

variable (js : BitcoinJs)

namespace MiningJob

def getPaymentScript (network : Network) (address : String) : Bytes :=
  (js.toOutputScript network address).getD []

def createCoinbaseTransaction (network : Network) (addresses : List AddressObject) (reward : ℕ) :
    Transaction :=
  let outs := addresses.map fun recipientAddress ↦
    { value := ((recipientAddress.percent * reward / 100 : ℕ) : ℤ)
      script := getPaymentScript js network recipientAddress.address : TxOut }
  let rewardBalance := (reward : ℤ) - (outs.map TxOut.value).sum
  { version := 2
    locktime := 0
    ins := [{ hash := zeroHash, index := 0xffffffff, script := [], sequence := 0xfffffffe,
              witness := [List.replicate 32 0] }]
    outs := outs.modifyHead fun out ↦ { out with value := out.value + rewardBalance } }

/-- The node's prefix verbatim; without one, the height push built here. -/
def scriptSig (jobTemplate : IJobTemplate) : Bytes :=
  match jobTemplate.coinbaseScriptSigPrefix with
  | some (b :: bs) => b :: bs
  | _ =>
    let heightEncoded := js.scriptNumberEncode jobTemplate.blockData.height
    let pushed := UInt8.ofNat heightEncoded.length :: heightEncoded
    if pushed.length < 2 then pushed ++ [0x00] else pushed

/-- The outputs after the payout: the node's required ones in template order,
or the witness commitment when the node requires none. -/
def appendedOutputs (jobTemplate : IJobTemplate) : List TxOut :=
  if 0 < jobTemplate.coinbaseRequiredOutputs.length then jobTemplate.coinbaseRequiredOutputs
  else
    match jobTemplate.block.witnessCommit with
    | some commit => [⟨0, js.compileOpReturn ([0xaa, 0x21, 0xa9, 0xed] ++ commit.toList)⟩]
    | none => []

def coinbaseTransactionOf (network : Network) (payoutInformation : List AddressObject)
    (jobTemplate : IJobTemplate) : Transaction :=
  let base := createCoinbaseTransaction js network payoutInformation
    jobTemplate.blockData.coinbasevalue
  { base with
    locktime := (jobTemplate.blockData.height : ℤ) - 1
    ins := base.ins.map fun input ↦ { input with script := scriptSig js jobTemplate }
    outs := base.outs ++ appendedOutputs js jobTemplate }

def new (network : Network) (jobId : String) (payoutInformation : List AddressObject)
    (jobTemplate : IJobTemplate) (now : ℕ) : Option MiningJob :=
  let coinbaseTransaction := coinbaseTransactionOf js network payoutInformation jobTemplate
  if maxBlockWeight < js.transactionWeight coinbaseTransaction + js.blockWeight jobTemplate.block then
    none
  else do
    let fullCoinbaseBuffer ← js.transactionNoWitness coinbaseTransaction
    let coinbaseSplitOffset := 41 + 1 + (scriptSig js jobTemplate).length
    return {
      coinbaseTransaction
      coinbasePart1Buffer := fullCoinbaseBuffer.take coinbaseSplitOffset
      coinbasePart2Buffer := fullCoinbaseBuffer.drop coinbaseSplitOffset
      merkleBranchBuffers := jobTemplate.merkleBranch
      jobVersion := jobTemplate.block.version
      jobTemplateId := jobTemplate.blockData.id
      creation := now
      jobId }

theorem new_eq_some {js : BitcoinJs} {network : Network} {jobId : String}
    {payoutInformation : List AddressObject} {jobTemplate : IJobTemplate} {now : ℕ} {job : MiningJob}
    (h : new js network jobId payoutInformation jobTemplate now = some job) :
    job.coinbaseTransaction = coinbaseTransactionOf js network payoutInformation jobTemplate ∧
      js.transactionNoWitness job.coinbaseTransaction =
        some (job.coinbasePart1Buffer ++ job.coinbasePart2Buffer) ∧
      job.merkleBranchBuffers = jobTemplate.merkleBranch ∧
      job.jobVersion = jobTemplate.block.version ∧
      job.jobTemplateId = jobTemplate.blockData.id ∧ job.creation = now ∧ job.jobId = jobId := by
  simp only [new, Option.ite_none_left_eq_some, Option.bind_eq_bind, Option.bind_eq_some_iff,
    Option.pure_def, Option.some.injEq] at h
  obtain ⟨-, buffer, hbuffer, rfl⟩ := h
  exact ⟨rfl, by simpa using hbuffer, rfl, rfl, rfl, rfl, rfl⟩

variable (job : MiningJob)

def cloneCoinbaseTransaction : Option Transaction :=
  js.transactionToBuffer job.coinbaseTransaction >>= js.transactionFromBuffer

def calculateMerkleRootHash (newRoot : Hash) (merkleBranches : List Hash) : Hash :=
  merkleBranches.foldl (fun root branch ↦ js.hash256 (root.toList ++ branch.toList)) newRoot

/-- The frozen version of the job under the miner's version mask. -/
def maskedVersion (versionMask : Number) : ℤ :=
  if versionMask.isZero then job.jobVersion else (Number.int job.jobVersion).xor versionMask

/-- `none` when one of the writes is out of range. -/
def buildHeaderBuffer (jobTemplate : IJobTemplate) (versionMask nonce timestamp : Number) :
    Option Bytes := do
  let coinbaseHash := js.hash256 (job.coinbasePart1Buffer ++ job.coinbasePart2Buffer)
  let merkleRoot := calculateMerkleRootHash js coinbaseHash job.merkleBranchBuffers
  let version ← writeInt32LE (job.maskedVersion versionMask)
  let time ← writeUInt32LE timestamp
  let bits ← writeUInt32LE (.int jobTemplate.block.bits.toNat)
  let nonce ← writeUInt32LE nonce
  return version ++ jobTemplate.block.prevHash.toList ++ merkleRoot.toList ++ time ++ bits ++ nonce

/-- The header over a coinbase as the diagnostics serialise it. -/
def assembleHeader (jobTemplate : IJobTemplate) (versionMask nonce : Number)
    (coinbaseSerialized : Bytes) (timestamp : Number) : Option Bytes := do
  let coinbaseHash := js.hash256 coinbaseSerialized
  let merkleRoot := calculateMerkleRootHash js coinbaseHash job.merkleBranchBuffers
  let version ← writeInt32LE (job.maskedVersion versionMask)
  let time ← writeUInt32LE timestamp
  let bits ← writeUInt32LE (.int jobTemplate.block.bits.toNat)
  let nonce ← writeUInt32LE nonce
  return version ++ jobTemplate.block.prevHash.toList ++ merkleRoot.toList ++ time ++ bits ++ nonce

def buildHeaderBufferWithCoinbaseSuffix (jobTemplate : IJobTemplate) (versionMask nonce : Number)
    (coinbaseSuffix : Bytes) (timestamp : Number) : Option Bytes :=
  let splicedCoinbase :=
    if 0 < coinbaseSuffix.length then job.coinbasePart1Buffer ++ coinbaseSuffix
    else job.coinbasePart1Buffer
  job.assembleHeader js jobTemplate versionMask nonce splicedCoinbase timestamp

def buildHeaderBufferWithCoinbasePrefix (jobTemplate : IJobTemplate) (versionMask nonce : Number)
    (coinbasePrefix : Bytes) (timestamp : Number) : Option Bytes :=
  let splicedCoinbase :=
    if 0 < coinbasePrefix.length then coinbasePrefix ++ job.coinbasePart1Buffer
    else job.coinbasePart1Buffer
  job.assembleHeader js jobTemplate versionMask nonce splicedCoinbase timestamp

def buildHeaderBufferWithScriptSigSplice (jobTemplate : IJobTemplate) (versionMask nonce : Number)
    (extraBytes : Bytes) (timestamp : Number) : Option Bytes := do
  let cloned ← js.transactionToBuffer job.coinbaseTransaction >>= js.transactionFromBuffer
  let ins := cloned.ins.modifyHead fun input ↦ { input with script := input.script ++ extraBytes }
  let splicedCoinbase ← js.transactionNoWitness { cloned with ins }
  job.assembleHeader js jobTemplate versionMask nonce splicedCoinbase timestamp

/-- `Object.assign` copies the template's block and transactions, so that the
registered template is left as it is. -/
def copyAndUpdateBlock (jobTemplate : IJobTemplate) (versionMask nonce timestamp : Number) :
    Option (Block Number) := do
  let coinbase ← job.cloneCoinbaseTransaction js
  let coinbaseHash ← js.getHash coinbase
  return {
    version := job.maskedVersion versionMask
    prevHash := jobTemplate.block.prevHash
    merkleRoot := some (calculateMerkleRootHash js coinbaseHash job.merkleBranchBuffers)
    timestamp
    bits := jobTemplate.block.bits
    nonce
    witnessCommit := jobTemplate.block.witnessCommit
    transactions := coinbase :: jobTemplate.block.transactions.tail }

def response (jobTemplate : IJobTemplate) : IMiningNotify where
  jobId := job.jobId
  prevHash := String.ofList (Bytes.toHex (Bytes.swapWords jobTemplate.block.prevHash.toList))
  coinbasePart1 := String.ofList (Bytes.toHex job.coinbasePart1Buffer)
  coinbasePart2 := String.ofList (Bytes.toHex job.coinbasePart2Buffer)
  merkleBranch := jobTemplate.merkleBranch.map fun branch ↦
    String.ofList (Bytes.toHex branch.toList)
  version := toString16 job.jobVersion
  bits := toString16 jobTemplate.block.bits.toNat
  timestamp := toString16 jobTemplate.block.timestamp
  clearJobs := jobTemplate.blockData.clearJobs

end MiningJob

end ElektronPool.Model
