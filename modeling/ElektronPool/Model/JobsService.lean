import ElektronPool.Model.ShareDifficulty

namespace ElektronPool.Model

open Lib Lib.JavaScript

/-- The answer of `getblocktemplate`. Its hex fields are carried as the bytes
they encode, `previousblockhash` in the order it is displayed in. -/
structure IBlockTemplate where
  version : ℤ
  previousblockhash : Hash
  transactions : List Bytes
  coinbasevalue : ℕ
  mintime : ℕ
  bits : BitVec 32
  height : ℕ
  coinbaseRequiredOutputs : List TxOut
  coinbaseScriptSigPrefix : Option Bytes
deriving DecidableEq

/-- `StratumV1JobsService`: the registry every session of the process shares. -/
structure JobsService where
  latestJobId : ℕ := 1
  latestJobTemplateId : ℕ := 1
  jobs : String → Option MiningJob := fun _ ↦ none
  blocks : String → Option IJobTemplate := fun _ ↦ none
  lastTemplateHeightByAddress : String → Option ℕ := fun _ ↦ none

namespace JobsService

/-- Jobs and templates older than this are dropped by the next refresh. -/
def maxAge : ℕ := 1000 * 60 * 5

variable (service : JobsService)

def getJobTemplateById (jobTemplateId : String) : Option IJobTemplate := service.blocks jobTemplateId

def getJobById (jobId : String) : Option MiningJob := service.jobs jobId

def getNextTemplateId : String := toString16 service.latestJobTemplateId

def getNextId : String := toString16 service.latestJobId

def addJob (job : MiningJob) : JobsService :=
  { service with
    jobs := Function.update service.jobs job.jobId (some job)
    latestJobId := service.latestJobId + 1 }

def convertToLittleEndian (hash : Hash) : Hash := hash.reverse

/-- Stands in for the coinbase while the merkle branch is computed. -/
def tempCoinbaseTx : Transaction where
  version := 2
  locktime := 0
  ins := [{ hash := zeroHash, index := 0xffffffff, script := [], sequence := 0xffffffff,
            witness := [List.replicate 32 0] }]
  outs := []

/-- The block of a template and its merkle branch; `none` when a transaction
of the answer does not parse. -/
def assembleBlock (js : BitcoinJs) (blockTemplate : IBlockTemplate) (timestamp : ℕ) :
    Option (Block ℕ × List Hash) := do
  let parsed ← blockTemplate.transactions.mapM js.transactionFromBuffer
  let transactions := tempCoinbaseTx :: parsed
  let transactionBuffers ← transactions.mapM js.getHash
  let merkleBranches := (js.merkleProof transactionBuffers).reduceOption
  let block : Block ℕ :=
    { version := blockTemplate.version
      prevHash := convertToLittleEndian blockTemplate.previousblockhash
      merkleRoot := merkleBranches.getLast?
      timestamp
      bits := blockTemplate.bits
      nonce := 0
      witnessCommit := some (js.witnessMerkleRoot transactions)
      transactions }
  return (block, merkleBranches.dropLast.drop 1)

/-- Whether the next template of this height is taken for one on a new tip. -/
def isNewHeight (coinbaseAddress : String) (height : ℕ) : Bool :=
  (service.lastTemplateHeightByAddress coinbaseAddress).getD 0 != height

def wipe : JobsService := { service with blocks := fun _ ↦ none, jobs := fun _ ↦ none }

def ageOut (now : ℕ) : JobsService :=
  { service with
    blocks := fun id ↦ (service.blocks id).filter fun t ↦ now - t.blockData.creation ≤ maxAge
    jobs := fun id ↦ (service.jobs id).filter fun j ↦ now - j.creation ≤ maxAge }

def recordHeight (coinbaseAddress : String) (height : ℕ) : JobsService :=
  { service with
    lastTemplateHeightByAddress := Function.update service.lastTemplateHeightByAddress
      coinbaseAddress (some height) }

def keep (clearJobs : Bool) (now : ℕ) : JobsService :=
  if clearJobs then service.wipe else service.ageOut now

def addTemplate (jobTemplate : IJobTemplate) : JobsService :=
  { service with
    latestJobTemplateId := service.latestJobTemplateId + 1
    blocks := Function.update service.blocks jobTemplate.blockData.id (some jobTemplate) }

/-- What `buildTemplateFor` does once the node has answered. The height is
recorded first, so that it stays recorded when the answer does not parse. -/
def buildTemplateFor (js : BitcoinJs) (coinbaseAddress : String) (blockTemplate : IBlockTemplate)
    (now : ℕ) : JobsService × Option IJobTemplate :=
  let currentTime := now / 1000
  let timestamp := if currentTime < blockTemplate.mintime then blockTemplate.mintime else currentTime
  let clearJobs := service.isNewHeight coinbaseAddress blockTemplate.height
  let recorded := service.recordHeight coinbaseAddress blockTemplate.height
  match assembleBlock js blockTemplate timestamp with
  | none => (recorded, none)
  | some (block, merkleBranch) =>
    let jobTemplate : IJobTemplate :=
      { block
        merkleBranch
        coinbaseRequiredOutputs := blockTemplate.coinbaseRequiredOutputs
        coinbaseScriptSigPrefix := blockTemplate.coinbaseScriptSigPrefix
        blockData :=
          { id := recorded.getNextTemplateId
            creation := now
            coinbasevalue := blockTemplate.coinbasevalue
            networkDifficulty := calculateNetworkDifficulty blockTemplate.bits
            height := blockTemplate.height
            clearJobs } }
    ((recorded.keep clearJobs now).addTemplate jobTemplate, some jobTemplate)

variable {service : JobsService} {service' : JobsService} {js : BitcoinJs} {coinbaseAddress : String}
  {blockTemplate : IBlockTemplate} {now : ℕ} {jobTemplate : IJobTemplate}

section Keep

variable {clearJobs : Bool} {id : String}

@[simp] theorem latestJobId_keep :
    (service.keep clearJobs now).latestJobId = service.latestJobId := by
  cases clearJobs <;> rfl

@[simp] theorem latestJobTemplateId_keep :
    (service.keep clearJobs now).latestJobTemplateId = service.latestJobTemplateId := by
  cases clearJobs <;> rfl

@[simp] theorem lastTemplateHeightByAddress_keep :
    (service.keep clearJobs now).lastTemplateHeightByAddress =
      service.lastTemplateHeightByAddress := by
  cases clearJobs <;> rfl

theorem blocks_keep : (service.keep clearJobs now).blocks id = some jobTemplate ↔
    clearJobs = false ∧ service.blocks id = some jobTemplate ∧
      now - jobTemplate.blockData.creation ≤ maxAge := by
  cases clearJobs <;> simp [keep, wipe, ageOut, Option.filter_eq_some_iff]

theorem jobs_keep {job : MiningJob} : (service.keep clearJobs now).jobs id = some job ↔
    clearJobs = false ∧ service.jobs id = some job ∧ now - job.creation ≤ maxAge := by
  cases clearJobs <;> simp [keep, wipe, ageOut, Option.filter_eq_some_iff]

end Keep

section Entering

variable {id : String} {job : MiningJob}

theorem blocks_addTemplate_self :
    (service.addTemplate jobTemplate).blocks jobTemplate.blockData.id = some jobTemplate :=
  Function.update_self ..

theorem blocks_addTemplate_of_ne (h : id ≠ jobTemplate.blockData.id) :
    (service.addTemplate jobTemplate).blocks id = service.blocks id :=
  Function.update_of_ne h ..

theorem jobs_addJob_self : (service.addJob job).jobs job.jobId = some job := Function.update_self ..

theorem jobs_addJob_of_ne (h : id ≠ job.jobId) : (service.addJob job).jobs id = service.jobs id :=
  Function.update_of_ne h ..

end Entering

theorem assembleBlock_eq_some {timestamp : ℕ} {block : Block ℕ} {merkleBranch : List Hash}
    (h : assembleBlock js blockTemplate timestamp = some (block, merkleBranch)) :
    block.prevHash = convertToLittleEndian blockTemplate.previousblockhash ∧
      block.bits = blockTemplate.bits ∧
      ∃ parsed, blockTemplate.transactions.mapM js.transactionFromBuffer = some parsed ∧
        block.transactions = tempCoinbaseTx :: parsed := by
  simp only [assembleBlock, Option.bind_eq_bind, Option.bind_eq_some_iff, Option.pure_def,
    Option.some.injEq, Prod.mk.injEq] at h
  obtain ⟨parsed, hparsed, -, -, rfl, -⟩ := h
  exact ⟨rfl, rfl, parsed, hparsed, rfl⟩

theorem eq_of_buildTemplateFor_none
    (h : service.buildTemplateFor js coinbaseAddress blockTemplate now = (service', none)) :
    service' = service.recordHeight coinbaseAddress blockTemplate.height := by
  simp only [buildTemplateFor] at h
  split at h
  · exact (congrArg Prod.fst h).symm
  · simp at h

structure Builds (js : BitcoinJs) (service : JobsService) (coinbaseAddress : String)
    (blockTemplate : IBlockTemplate) (now : ℕ) (service' : JobsService)
    (jobTemplate : IJobTemplate) : Prop where
  service' : service' = ((service.recordHeight coinbaseAddress blockTemplate.height).keep
    jobTemplate.blockData.clearJobs now).addTemplate jobTemplate
  id : jobTemplate.blockData.id = service.getNextTemplateId
  creation : jobTemplate.blockData.creation = now
  clearJobs : jobTemplate.blockData.clearJobs =
    service.isNewHeight coinbaseAddress blockTemplate.height
  prevHash : jobTemplate.block.prevHash = convertToLittleEndian blockTemplate.previousblockhash
  networkDifficulty : jobTemplate.blockData.networkDifficulty =
    calculateNetworkDifficulty jobTemplate.block.bits
  transactions : ∃ parsed, blockTemplate.transactions.mapM js.transactionFromBuffer = some parsed ∧
    jobTemplate.block.transactions = tempCoinbaseTx :: parsed

theorem builds_of_buildTemplateFor
    (h : service.buildTemplateFor js coinbaseAddress blockTemplate now =
      (service', some jobTemplate)) :
    Builds js service coinbaseAddress blockTemplate now service' jobTemplate := by
  simp only [buildTemplateFor] at h
  split at h
  · simp at h
  case h_2 block merkleBranch hassemble =>
    obtain ⟨hprev, hbits, htransactions⟩ := assembleBlock_eq_some hassemble
    simp only [Prod.mk.injEq, Option.some.injEq] at h
    obtain ⟨rfl, rfl⟩ := h
    exact ⟨rfl, rfl, rfl, rfl, hprev, by rw [hbits], htransactions⟩

theorem isSome_assembleBlock (js : BitcoinJs) (blockTemplate : IBlockTemplate)
    (timestamp timestamp' : ℕ) :
    (assembleBlock js blockTemplate timestamp).isSome =
      (assembleBlock js blockTemplate timestamp').isSome := by
  simp only [assembleBlock, Option.bind_eq_bind, Option.pure_def, Option.isSome_bind,
    Option.isSome_some]

theorem isSome_buildTemplateFor (js : BitcoinJs) (service : JobsService) (coinbaseAddress : String)
    (blockTemplate : IBlockTemplate) (now timestamp : ℕ) :
    (service.buildTemplateFor js coinbaseAddress blockTemplate now).2.isSome =
      (assembleBlock js blockTemplate timestamp).isSome := by
  simp only [buildTemplateFor]
  generalize hnow : (if now / 1000 < blockTemplate.mintime then blockTemplate.mintime
    else now / 1000) = currentTime
  rw [isSome_assembleBlock js blockTemplate timestamp currentTime]
  cases assembleBlock js blockTemplate currentTime with
  | none => rfl
  | some assembled => rfl

theorem assembles_of_buildTemplateFor
    (h : service.buildTemplateFor js coinbaseAddress blockTemplate now =
      (service', some jobTemplate)) (timestamp : ℕ) :
    (assembleBlock js blockTemplate timestamp).isSome := by
  rw [← isSome_buildTemplateFor js service coinbaseAddress blockTemplate now, h]
  rfl

end JobsService

end ElektronPool.Model
