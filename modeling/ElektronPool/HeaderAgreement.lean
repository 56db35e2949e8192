import ElektronPool.Shares.Ledger
import ElektronPool.SubmittedBlock

namespace ElektronPool.HeaderAgreement

open Lib Lib.Runs Lib.Bytes Lib.JavaScript Model Model.MiningJob Work Shares

variable {cfg : Config} {job : MiningJob} {jobTemplate : IJobTemplate} {v v' : View}
  {e : SessionEvent} {submission : MiningSubmitMessage} {header : Bytes}

/-- The header a miner without extranonces derives from the params of
`mining.notify` and from the work it did. -/
def minerHeader (js : BitcoinJs) (params : IMiningNotify) (versionMask nonce ntime : ℕ) : Bytes :=
  let coinbase := ofHex params.coinbasePart1.toList ++ ofHex params.coinbasePart2.toList
  let merkleRoot := params.merkleBranch.foldl
    (fun root branch ↦ js.hash256 (root.toList ++ ofHex branch.toList)) (js.hash256 coinbase)
  littleEndian 4 (Hex.value params.version.toList ^^^ versionMask) ++
    swapWords (ofHex params.prevHash.toList) ++ merkleRoot.toList ++ littleEndian 4 ntime ++
    littleEndian 4 (Hex.value params.bits.toList) ++ littleEndian 4 nonce

def versionRollingMask : ℕ := 0x1ffe0000

theorem rotatedVersion_lt {version : ℤ} (h : 0 ≤ version ∧ version < 2 ^ 31) (rotationState : ℕ) :
    rotatedVersion version rotationState < 2 ^ 31 := by
  have hversion : (BitVec.ofInt 32 version).toNat < 2 ^ 31 := by
    rw [BitVec.toNat_ofInt]
    omega
  rw [rotatedVersion, BitVec.toNat_or, BitVec.toNat_and, BitVec.toNat_and]
  exact Nat.or_lt_two_pow (Nat.and_le_left.trans_lt hversion) (Nat.and_lt_two_pow _ (by decide))

theorem writeInt32LE_maskedVersion {n versionMask : ℕ} (hjob : job.jobVersion = n)
    (hn : n < 2 ^ 31) (hmask : versionMask < 2 ^ 32) :
    writeInt32LE (job.maskedVersion (.int versionMask)) =
      some (littleEndian 4 (n ^^^ versionMask)) := by
  have hofInt (k : ℕ) (hk : k < 2 ^ 32) : (BitVec.ofInt 32 k).toNat = k := by
    rw [BitVec.toNat_ofInt]
    omega
  rw [maskedVersion, hjob]
  split
  case isTrue hzero =>
    have hzero : versionMask = 0 := by simpa [Number.isZero] using hzero
    rw [hzero, Nat.xor_zero, writeInt32LE, if_pos (by omega), hofInt n (by omega)]
  · rw [Number.xor, writeInt32LE_toInt, Number.toInt32, Number.toInt32, BitVec.toNat_xor,
      hofInt n (by omega), hofInt versionMask hmask]

/-- What the params of a job say is what the pool hashes for it. -/
theorem minerHeader_response (js : BitcoinJs) {template : IJobTemplate} {n : ℕ}
    (hbranch : job.merkleBranchBuffers = template.merkleBranch) (hversion : job.jobVersion = n)
    (versionMask nonce ntime : ℕ) :
    minerHeader js (job.response template) versionMask nonce ntime =
      littleEndian 4 (n ^^^ versionMask) ++ template.block.prevHash.toList ++
        (SubmittedBlock.merkleRootOf js job).toList ++ littleEndian 4 ntime ++
        littleEndian 4 template.block.bits.toNat ++ littleEndian 4 nonce := by
  have hprev : template.block.prevHash.toList.length = 4 * 8 := template.block.prevHash.2
  have hroot : (template.merkleBranch.map fun branch ↦
      String.ofList (toHex branch.toList)).foldl
      (fun root branch ↦ js.hash256 (root.toList ++ ofHex branch.toList))
      (js.hash256 (job.coinbasePart1Buffer ++ job.coinbasePart2Buffer)) =
      SubmittedBlock.merkleRootOf js job := by
    simp only [List.foldl_map, String.toList_ofList, ofHex_toHex, SubmittedBlock.merkleRootOf,
      calculateMerkleRootHash, hbranch]
  simp only [minerHeader, response, String.toList_ofList, ofHex_toHex, hversion,
    toString16_natCast, Hex.value_numeral, swapWords_swapWords hprev, hroot]

/-- The pool rebuilds the header a miner derived, from the job and from any
template with the same previous block and bits. -/
theorem buildHeaderBuffer_eq_minerHeader (js : BitcoinJs) {template : IJobTemplate} {n : ℕ}
    (hbranch : job.merkleBranchBuffers = template.merkleBranch) (hversion : job.jobVersion = n)
    (hn : n < 2 ^ 31) (hprev : jobTemplate.block.prevHash = template.block.prevHash)
    (hbits : jobTemplate.block.bits = template.block.bits) {versionMask nonce ntime : ℕ}
    (hmask : versionMask < 2 ^ 32) (hnonce : nonce < 2 ^ 32) (hntime : ntime < 2 ^ 32) :
    job.buildHeaderBuffer js jobTemplate (.int versionMask) (.int nonce) (.int ntime) =
      some (minerHeader js (job.response template) versionMask nonce ntime) := by
  have hbits' : template.block.bits.toNat < 2 ^ 32 := template.block.bits.isLt
  simp only [buildHeaderBuffer, writeInt32LE_maskedVersion hversion hn hmask,
    writeUInt32LE_natCast hnonce, writeUInt32LE_natCast hntime, hbits,
    writeUInt32LE_natCast hbits', hprev, Option.bind_eq_bind, Option.bind_some, Option.pure_def,
    minerHeader_response js hbranch hversion, SubmittedBlock.merkleRootOf]

def Spells (s : String) (n : ℕ) : Prop := Hex.IsNumeral s.toList ∧ Hex.value s.toList = n

theorem Spells.parseInt16_eq {s : String} {n : ℕ} (h : Spells s n) (hn : n < 2 ^ 32) :
    parseInt16 s = .int n := by
  rw [← String.ofList_toList (s := s)]
  exact parseInt16_numeral h.1 h.2 (by omega)

theorem registered_of_sent {now : ℕ} {pool pool' : Pool}
    (hpool : Reachable (Pool.step cfg) (Pool.start now) pool)
    (hlater : Reachable (Pool.step cfg) pool pool') {id : SessionId} {sent : SentJob}
    (hsent : sent ∈ (pool.sessions id).sentJobs)
    (hjob : pool'.jobsService.getJobById sent.params.jobId = some job)
    (htemplate : pool'.jobsService.getJobTemplateById job.jobTemplateId = some jobTemplate) :
    job = sent.job ∧ sent.params =
      job.response (versionedJobTemplate sent.jobTemplate sent.rotationState) ∧
      job.merkleBranchBuffers = sent.jobTemplate.merkleBranch ∧
      (∃ rotationState, job.jobVersion =
        rotatedVersion sent.jobTemplate.block.version rotationState) ∧
      jobTemplate.block.prevHash = sent.jobTemplate.block.prevHash ∧
      jobTemplate.block.bits = sent.jobTemplate.block.bits := by
  obtain ⟨hmem, hparams⟩ := (sound_of_reachable hpool id).held.sent sent hsent
  have hregistry := (sound_of_reachable (hpool.trans hlater) id).registry
  have hmem' := work_of_reach hlater hmem
  obtain ⟨hid, s, t, hjobmem⟩ := hregistry.jobs _ _ hjob
  have hsameId : job.jobId = sent.job.jobId := hid.trans (by rw [hparams]; rfl)
  obtain ⟨-, rfl, -⟩ := hregistry.jobUnique _ _ _ _ _ _ hjobmem hmem' hsameId
  obtain ⟨⟨address, base, timestamp, clearJobs, hbase, hretimed⟩, ⟨network, payee, rotationState, -, -,
    hnew⟩, -⟩ := hregistry.built _ _ _ hmem'
  obtain ⟨-, -, hbranch, hversion, htemplateId, -, -⟩ := new_eq_some hnew
  obtain ⟨htid, a, ha⟩ := hregistry.blocks _ _ htemplate
  obtain ⟨-, rfl⟩ := hregistry.templateUnique _ _ _ _ ha hbase
    (htid.trans (htemplateId.trans (by rw [hretimed]; rfl)))
  exact ⟨rfl, hparams, hbranch, ⟨_, hversion⟩, by rw [hretimed]; rfl, by rw [hretimed]; rfl⟩

section Handling

theorem act_of_submits (h : submits v e = some submission) (hact : v.act cfg e = some v') :
    ∃ rest, v' = (pop v e).handleMiningSubmission cfg rest submission := by
  rw [submits.eq_def] at h
  split at h
  case h_2 => cases h
  case h_1 i =>
    split at h
    case h_2 => cases h
    case h_1 submission' rest htask =>
      obtain ⟨hready, hs⟩ := Option.ite_none_right_eq_some.mp h
      cases hs
      simp only [Bool.and_eq_true, Bool.not_eq_true'] at hready
      obtain ⟨hstopped, hrefuses⟩ := hready
      have hpop := popped_pop v (.resume i .done)
      refine ⟨rest, ?_⟩
      rw [View.act, htask, Option.bind_some] at hact
      have hlines : (pop v (.resume i .done)).handleLines cfg (.submit submission :: rest) = v' :=
        Option.some.inj hact
      rw [← hlines, View.handleLines, hpop.stopped, hstopped, if_neg Bool.false_ne_true,
        View.handleMessage, hpop.refuses, hrefuses, if_neg Bool.false_ne_true]

theorem exists_evaluated (h : submits v e = some submission) (hact : v.act cfg e = some v')
    (hjob : v.jobsService.getJobById submission.jobId = some job)
    (htemplate : v.jobsService.getJobTemplateById job.jobTemplateId = some jobTemplate)
    (hnew : submissionHash submission ∉ v.session.miningSubmissionHashes)
    (hheader : job.buildHeaderBuffer cfg.js jobTemplate (parseInt16 submission.versionMask)
      (parseInt16 submission.nonce) (parseInt16 submission.ntime) = some header) :
    ∃ share, Entry.evaluated share ∈ v'.history ∧ share.serial = v.history.length := by
  obtain ⟨rest, rfl⟩ := act_of_submits h hact
  have hpop := popped_pop v e
  simp only [View.handleMiningSubmission, hpop.jobsService, hjob, htemplate, hpop.hashes, if_neg hnew,
    hheader]
  let share : Share :=
    { serial := (pop v e).history.length
      session := (pop v e).self
      sessionDifficulty := (pop v e).session.sessionDifficulty
      submission, job, jobTemplate, header }
  obtain ⟨added, hadds, -⟩ := adds_judge cfg (remember (pop v e) submission) rest share
  have hmem : Entry.evaluated share ∈
      ((remember (pop v e) submission).judge cfg rest share).history.filter isRecord := by
    rw [hadds.records]
    exact List.mem_cons_self
  exact ⟨share, List.mem_of_mem_filter hmem, congrArg List.length hpop.history⟩

end Handling

/-- Whoever submits for a job that was sent, whatever happened since: the share is evaluated when
it is new, and on the header the miner derived from the announcement. -/
theorem header_agrees (cfg : Config) (now : ℕ) (pool pool' pool'' : Pool)
    (hpool : Reachable (Pool.step cfg) (Pool.start now) pool)
    (hlater : Reachable (Pool.step cfg) pool pool') (id : SessionId) (sent : SentJob)
    (hsent : sent ∈ (pool.sessions id).sentJobs)
    (hversion : 0 ≤ sent.jobTemplate.block.version ∧ sent.jobTemplate.block.version < 2 ^ 31)
    (submission : MiningSubmitMessage) (hjobId : submission.jobId = sent.params.jobId)
    (job : MiningJob) (hjob : pool'.jobsService.getJobById submission.jobId = some job)
    (jobTemplate : IJobTemplate)
    (htemplate : pool'.jobsService.getJobTemplateById job.jobTemplateId = some jobTemplate)
    (versionMask nonce ntime : ℕ) (hmask : versionMask &&& versionRollingMask = versionMask)
    (hnonce : nonce < 2 ^ 32) (hntime : ntime < 2 ^ 32)
    (hversionMask : Spells submission.versionMask versionMask)
    (hnonceHex : Spells submission.nonce nonce) (hntimeHex : Spells submission.ntime ntime)
    (self : SessionId) (e : SessionEvent) (hsubmits : submits (pool'.view self) e = some submission)
    (hstep : pool'.step cfg (.session self e) = some pool'') :
    (submissionHash submission ∉ (pool'.sessions self).miningSubmissionHashes →
      ∃ share, Entry.evaluated share ∈ pool''.history ∧ Entry.evaluated share ∉ pool'.history) ∧
    ∀ share, Entry.evaluated share ∈ pool''.history → Entry.evaluated share ∉ pool'.history →
      share.session = self ∧ share.submission = submission ∧
        share.header = minerHeader cfg.js sent.params versionMask nonce ntime := by
  rw [hjobId] at hjob
  obtain ⟨rfl, hparams, hbranch, ⟨rotationState, hjobVersion⟩, hprev, hbits⟩ :=
    registered_of_sent hpool hlater hsent hjob htemplate
  have hmaskLt : versionMask < 2 ^ 32 :=
    hmask ▸ (Nat.and_le_right.trans_lt (by decide : versionRollingMask < 2 ^ 32))
  have hheader : sent.job.buildHeaderBuffer cfg.js jobTemplate (parseInt16 submission.versionMask)
      (parseInt16 submission.nonce) (parseInt16 submission.ntime) =
      some (minerHeader cfg.js sent.params versionMask nonce ntime) := by
    rw [hversionMask.parseInt16_eq hmaskLt, hnonceHex.parseInt16_eq hnonce,
      hntimeHex.parseInt16_eq hntime, hparams]
    exact buildHeaderBuffer_eq_minerHeader cfg.js hbranch hjobVersion
      (rotatedVersion_lt hversion rotationState) hprev hbits hmaskLt hnonce hntime
  rw [← hjobId] at hjob
  constructor
  · intro hnew
    obtain ⟨milliseconds, heq, -⟩ | ⟨id', e', v', heq, hact, rfl⟩ := step_cases hstep
    · cases heq
    · cases heq
      obtain ⟨share, hmem, hserial⟩ :=
        exists_evaluated hsubmits hact hjob htemplate hnew hheader
      refine ⟨share, hmem, fun hold ↦ ?_⟩
      have hlt := (ledger_of_reachable (hpool.trans hlater) self).serial share hold
      exact absurd hserial hlt.ne
  · intro share hnew hold
    obtain ⟨hsame, hevaluates⟩ := evaluates_of_step hstep hnew hold
    obtain hsubmission : submission = share.submission :=
      Option.some.inj (hsubmits.symm.trans hsame)
    have hsameJob := hevaluates.job
    rw [← hsubmission, show (pool'.view self).jobsService = pool'.jobsService from rfl, hjob,
      Option.some.injEq] at hsameJob
    have hsameTemplate := hevaluates.template
    rw [← hsameJob, show (pool'.view self).jobsService = pool'.jobsService from rfl, htemplate,
      Option.some.injEq] at hsameTemplate
    have hbuilt := hevaluates.header
    rw [← hsameJob, ← hsameTemplate, Share.versionMask, Share.nonce, Share.timestamp,
      ← hsubmission, hheader, Option.some.injEq] at hbuilt
    exact ⟨hevaluates.session, hsubmission.symm, hbuilt.symm⟩

section Sample

open Reference

def rolledShare : MiningSubmitMessage := ⟨"3", "1", "", "6553f105", "00000005", "1FFE0000"⟩

def isRolled (pool : Pool) : Bool :=
  match (pool.sessions 0).sentJobs, pool.jobsService.getJobById "1" with
  | [_, sent], some job =>
    sent.params.jobId = "1" && sent.jobTemplate.block.version = 0x20000000 &&
      (pool.jobsService.getJobTemplateById job.jobTemplateId).isSome &&
      decide (submits (pool.view 0) (.resume 0 .done) = some rolledShare) &&
      decide (submissionHash rolledShare ∉ (pool.sessions 0).miningSubmissionHashes) &&
      (pool.step settings (.session 0 (.resume 0 .done))).isSome
  | _, _ => false

theorem header_agrees_run :
    ∃ pool pool' sent share, Reachable (Pool.step settings) (Pool.start 1700000000000) pool ∧
      (pool.sessions 0).sentJobs.length = 2 ∧ sent ∈ (pool.sessions 0).sentJobs ∧
      pool.step settings (.session 0 (.resume 0 .done)) = some pool' ∧
      Entry.evaluated share ∈ pool'.history ∧ share.submission = rolledShare ∧
      share.header = minerHeader bitcoinJs sent.params 0x1ffe0000 5 0x6553f105 := by
  obtain ⟨pool, hpool, hp⟩ := Reachable.of_any (Pool.step settings)
    (Pool.start 1700000000000)
    (easyOpening 0 alice ++ working 0 (answer 101 (hashOf 7)) ++
      [.tick 1000, .session 0 .localTimer] ++ resumes 0 1 ++
      [.session 0 (.data [.submit rolledShare])])
    isRolled (by decide +kernel)
  rw [isRolled] at hp
  split at hp
  case h_2 => cases hp
  case h_1 second sent job hsent hjob =>
    simp only [Bool.and_eq_true, decide_eq_true_eq] at hp
    obtain ⟨⟨⟨⟨⟨hjobId, hversion⟩, htemplate⟩, hsubmits⟩, hnew⟩, hstep⟩ := hp
    obtain ⟨jobTemplate, htemplate⟩ := Option.isSome_iff_exists.mp htemplate
    obtain ⟨pool', hstep⟩ := Option.isSome_iff_exists.mp hstep
    have hmem : sent ∈ (pool.sessions 0).sentJobs := by simp [hsent]
    obtain ⟨hevaluated, hagrees⟩ := header_agrees settings 1700000000000 pool pool pool' hpool .refl
      0 sent hmem (by rw [hversion]; decide) rolledShare hjobId.symm job hjob jobTemplate htemplate
      0x1ffe0000 5 0x6553f105 (by decide) (by decide) (by decide)
      ⟨⟨by decide, List.all_eq_true.mp rfl⟩, rfl⟩ ⟨⟨by decide, List.all_eq_true.mp rfl⟩, rfl⟩
      ⟨⟨by decide, List.all_eq_true.mp rfl⟩, rfl⟩ 0 (.resume 0 .done) hsubmits hstep
    obtain ⟨share, hshare, hold⟩ := hevaluated hnew
    obtain ⟨-, hsame, hheader⟩ := hagrees share hshare hold
    exact ⟨pool, pool', sent, share, hpool, by rw [hsent]; rfl, hmem, hstep, hshare, hsame, hheader⟩

end Sample

end ElektronPool.HeaderAgreement
