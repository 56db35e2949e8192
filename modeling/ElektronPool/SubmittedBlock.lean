import ElektronPool.Reference

namespace ElektronPool.SubmittedBlock

open Lib Lib.Bytes Lib.JavaScript Model Model.MiningJob

variable {js : BitcoinJs} {network : Network} {jobId : String} {payout : List AddressObject}
  {template jobTemplate : IJobTemplate} {now : ℕ} {job : MiningJob}
  {versionMask nonce timestamp : Number} {header : Bytes}

def merkleRootOf (js : BitcoinJs) (job : MiningJob) : Hash :=
  calculateMerkleRootHash js (js.hash256 (job.coinbasePart1Buffer ++ job.coinbasePart2Buffer))
    job.merkleBranchBuffers

theorem buildHeaderBuffer_eq (job : MiningJob) (jobTemplate : IJobTemplate)
    (versionMask nonce timestamp : Number) :
    job.buildHeaderBuffer js jobTemplate versionMask nonce timestamp =
      headerLayout
        { version := job.maskedVersion versionMask
          prevHash := jobTemplate.block.prevHash
          merkleRoot := some (merkleRootOf js job)
          timestamp
          bits := jobTemplate.block.bits
          nonce
          witnessCommit := none
          transactions := [] } := rfl

theorem headerLayout_length {block : Block Number} (h : headerLayout block = some header) :
    header.length = 80 := by
  simp only [headerLayout, Option.bind_eq_bind, Option.bind_eq_some_iff, Option.pure_def,
    Option.some.injEq] at h
  obtain ⟨version, hversion, root, -, time, htime, bits, hbits, nonce, hnonce, rfl⟩ := h
  have hprev : block.prevHash.toList.length = 32 := block.prevHash.2
  have hroot : root.toList.length = 32 := root.2
  simp only [List.length_append, hprev, hroot, writeInt32LE_length hversion,
    writeUInt32LE_length htime, writeUInt32LE_length hbits, writeUInt32LE_length hnonce]

theorem cloneCoinbaseTransaction_eq (hjs : js.Serialises)
    (hjob : MiningJob.new js network jobId payout template now = some job) :
    job.cloneCoinbaseTransaction js = some job.coinbaseTransaction ∧
      js.getHash job.coinbaseTransaction =
        some (js.hash256 (job.coinbasePart1Buffer ++ job.coinbasePart2Buffer)) := by
  obtain ⟨hcoinbase, hbuffer, -⟩ := new_eq_some hjob
  have hins : job.coinbaseTransaction.ins ≠ [] := by simp [hcoinbase, coinbaseTransactionOf,
    createCoinbaseTransaction]
  exact ⟨hjs.parse _ hins (by rw [hbuffer]; rfl), by rw [BitcoinJs.getHash, hbuffer]; rfl⟩

theorem copyAndUpdateBlock_eq (hjs : js.Serialises)
    (hjob : MiningJob.new js network jobId payout template now = some job)
    (jobTemplate : IJobTemplate) (versionMask nonce timestamp : Number) :
    job.copyAndUpdateBlock js jobTemplate versionMask nonce timestamp =
      some
        { version := job.maskedVersion versionMask
          prevHash := jobTemplate.block.prevHash
          merkleRoot := some (merkleRootOf js job)
          timestamp
          bits := jobTemplate.block.bits
          nonce
          witnessCommit := jobTemplate.block.witnessCommit
          transactions := job.coinbaseTransaction :: jobTemplate.block.transactions.tail } := by
  obtain ⟨hclone, hhash⟩ := cloneCoinbaseTransaction_eq hjs hjob
  simp only [copyAndUpdateBlock, hclone, hhash, Option.bind_eq_bind, Option.bind_some,
    Option.pure_def, merkleRootOf]

theorem blockToBuffer_header (hjs : js.Serialises)
    (hjob : MiningJob.new js network jobId payout template now = some job) {block : Block Number}
    (hcopy : job.copyAndUpdateBlock js jobTemplate versionMask nonce timestamp = some block)
    (hheader : job.buildHeaderBuffer js jobTemplate versionMask nonce timestamp = some header) :
    js.blockToBuffer true block = some header := by
  rw [copyAndUpdateBlock_eq hjs hjob] at hcopy
  cases hcopy
  rw [hjs.header]
  exact hheader

/-- The block submitted for a job has the header that was validated, the coinbase
the job was cut from, and the other transactions of the template. -/
theorem block_of_validated_header (js : BitcoinJs) (hjs : js.Serialises) (network : Network)
    (jobId : String) (payout : List AddressObject) (template : IJobTemplate) (now : ℕ)
    (job : MiningJob) (hjob : MiningJob.new js network jobId payout template now = some job)
    (jobTemplate : IJobTemplate) (versionMask nonce timestamp : Number) (header : Bytes)
    (hheader : job.buildHeaderBuffer js jobTemplate versionMask nonce timestamp = some header) :
    ∃ block coinbase, job.copyAndUpdateBlock js jobTemplate versionMask nonce timestamp = some block ∧
      js.blockToBuffer true block = some header ∧ header.length = 80 ∧
      block.transactions = coinbase :: jobTemplate.block.transactions.tail ∧
      js.transactionNoWitness coinbase =
        some (job.coinbasePart1Buffer ++ job.coinbasePart2Buffer) ∧
      coinbase.ins.map TxIn.witness = job.coinbaseTransaction.ins.map TxIn.witness ∧
      block.transactions.tail.map js.transactionToBuffer =
        jobTemplate.block.transactions.tail.map js.transactionToBuffer := by
  obtain ⟨-, hbuffer, -⟩ := new_eq_some hjob
  have hcopy := copyAndUpdateBlock_eq hjs hjob jobTemplate versionMask nonce timestamp
  have hlength : header.length = 80 := headerLayout_length (buildHeaderBuffer_eq .. ▸ hheader)
  exact ⟨_, job.coinbaseTransaction, hcopy, blockToBuffer_header hjs hjob hcopy hheader, hlength,
    rfl, hbuffer, rfl, rfl⟩

section Sample

open Reference

def sampleTemplate : Option IJobTemplate :=
  (({} : JobsService).buildTemplateFor bitcoinJs alice (answer 101 (hashOf 7)) 1700000000000).2

def sampleJob : Option MiningJob :=
  sampleTemplate.bind fun template ↦
    MiningJob.new bitcoinJs .elektronRegtest "1" [⟨alice, 100⟩] template 1700000000000

theorem block_of_validated_header_sample :
    ∃ template job header block coinbase, sampleTemplate = some template ∧ sampleJob = some job ∧
      job.buildHeaderBuffer bitcoinJs template (.int 0) (.int 5) (.int 1700000000) = some header ∧
      job.copyAndUpdateBlock bitcoinJs template (.int 0) (.int 5) (.int 1700000000) = some block ∧
      bitcoinJs.blockToBuffer true block = some header ∧
      block.transactions = coinbase :: template.block.transactions.tail := by
  obtain ⟨template, htemplate⟩ : ∃ template, sampleTemplate = some template :=
    Option.isSome_iff_exists.mp (by decide +kernel)
  obtain ⟨job, hjob⟩ : ∃ job, sampleJob = some job := Option.isSome_iff_exists.mp (by decide +kernel)
  have hnew : MiningJob.new bitcoinJs .elektronRegtest "1" [⟨alice, 100⟩] template 1700000000000 =
      some job := by simpa only [sampleJob, htemplate, Option.bind_some] using hjob
  have hsome : (sampleTemplate.bind fun template ↦ sampleJob.bind fun job ↦
      job.buildHeaderBuffer bitcoinJs template (.int 0) (.int 5) (.int 1700000000)).isSome := by
    decide +kernel
  simp only [htemplate, hjob, Option.bind_some] at hsome
  obtain ⟨header, hheader⟩ := Option.isSome_iff_exists.mp hsome
  obtain ⟨block, coinbase, hcopy, hblock, -, htransactions, -⟩ :=
    block_of_validated_header bitcoinJs serialises .elektronRegtest "1" [⟨alice, 100⟩] template
      1700000000000 job hnew template (.int 0) (.int 5) (.int 1700000000) header hheader
  exact ⟨template, job, header, block, coinbase, htemplate, hjob, hheader, hcopy, hblock,
    htransactions⟩

end Sample

end ElektronPool.SubmittedBlock
