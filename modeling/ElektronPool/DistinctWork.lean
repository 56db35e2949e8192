import ElektronPool.Reference
import ElektronPool.Work.Offer

namespace ElektronPool.DistinctWork

open Lib Lib.Runs Lib.Bytes Lib.JavaScript Model Model.View Model.MiningJob Work

variable {cfg : Config} {v v' : View} {e : SessionEvent} {job : MiningJob} {sent newer older : SentJob}

section Bits

/-- Bits 13 to 16 of a version. -/
def poolBits (version : ℤ) : BitVec 4 := (BitVec.ofInt 32 version).extractLsb' 13 4

/-- A mask that is contained in the advertised one. -/
def IsContained (versionMask : Number) : Prop :=
  versionMask.toInt32 &&& 0x1ffe0000#32 = versionMask.toInt32

theorem poolBits_rotatedVersion (version : ℤ) (rotationState : ℕ) :
    poolBits (rotatedVersion version rotationState) = BitVec.ofNat 4 rotationState := by
  apply BitVec.eq_of_getLsbD_eq
  intro i hi
  rw [poolBits, rotatedVersion, BitVec.ofInt_natCast, BitVec.ofNat_toNat, BitVec.setWidth_eq,
    BitVec.getLsbD_extractLsb']
  have hmask : elektronPoolVersionBitsMask.getLsbD (13 + i) = true := by
    rw [elektronPoolVersionBitsMask]
    interval_cases i <;> rfl
  have hlt : 13 + i < 32 := by omega
  have hge : ¬ 13 + i < 13 := by omega
  have hsmall : i < 32 := by omega
  simp only [BitVec.getLsbD_or, BitVec.getLsbD_and, BitVec.getLsbD_not, BitVec.getLsbD_shiftLeft,
    BitVec.getLsbD_ofNat, hmask, hi, hlt, hge, hsmall, Bool.not_true, Bool.and_false, Bool.false_or,
    Bool.and_true, decide_true, decide_false, Bool.not_false, Bool.true_and, Nat.add_sub_cancel_left]

theorem poolBits_xor {versionMask : Number} (h : IsContained versionMask) (version : ℤ) :
    (BitVec.ofInt 32 version ^^^ versionMask.toInt32).extractLsb' 13 4 = poolBits version := by
  apply BitVec.eq_of_getLsbD_eq
  intro i hi
  have hmask : versionMask.toInt32.getLsbD (13 + i) = false := by
    rw [← h, BitVec.getLsbD_and]
    have hbit : (0x1ffe0000#32).getLsbD (13 + i) = false := by interval_cases i <;> rfl
    rw [hbit, Bool.and_false]
  rw [poolBits, BitVec.getLsbD_extractLsb', BitVec.getLsbD_extractLsb', BitVec.getLsbD_xor, hmask,
    Bool.xor_false]

theorem ofInt_maskedVersion (job : MiningJob) (versionMask : Number) :
    BitVec.ofInt 32 (job.maskedVersion versionMask) =
      BitVec.ofInt 32 job.jobVersion ^^^ versionMask.toInt32 := by
  rw [maskedVersion]
  split
  case isTrue hzero =>
    cases versionMask with
    | int z =>
      have hz : z = 0 := by simpa [Number.isZero] using hzero
      simp [hz, Number.toInt32]
    | nan | inf => simp [Number.isZero] at hzero
  · rw [Number.xor, BitVec.ofInt_toInt, Number.toInt32]

end Bits

section Headers

variable {js : BitcoinJs} {jobTemplate : IJobTemplate} {versionMask nonce ntime : Number}
  {header : Bytes}

theorem fields_of_buildHeaderBuffer
    (h : job.buildHeaderBuffer js jobTemplate versionMask nonce ntime = some header) :
    header.take 4 = littleEndian 4
        (BitVec.ofInt 32 job.jobVersion ^^^ versionMask.toInt32).toNat ∧
      writeUInt32LE ntime = some ((header.drop 68).take 4) := by
  simp only [buildHeaderBuffer, Option.bind_eq_bind, Option.bind_eq_some_iff, Option.pure_def,
    Option.some.injEq] at h
  obtain ⟨version, hversion, time, htime, bits, hbits, nonceBytes, hnonce, rfl⟩ := h
  have hprev : jobTemplate.block.prevHash.toList.length = 32 := jobTemplate.block.prevHash.2
  have hlength := writeInt32LE_length hversion
  have htimeLength := writeUInt32LE_length htime
  constructor
  · rw [← ofInt_maskedVersion, ← writeInt32LE_eq_some hversion]
    simp only [List.append_assoc]
    exact List.take_left' hlength
  · generalize hroot : calculateMerkleRootHash js _ _ = root
    have hrootLength : root.toList.length = 32 := root.2
    have hfront : (version ++ jobTemplate.block.prevHash.toList ++ root.toList).length = 68 := by
      simp only [List.length_append, hlength, hprev, hrootLength]
    rw [List.append_assoc, List.append_assoc, List.drop_left' hfront, List.take_left' htimeLength]
    exact htime

theorem header_ne_of_poolBits {job' : MiningJob} {jobTemplate' : IJobTemplate}
    {versionMask' nonce' ntime' : Number} (hbits : poolBits job.jobVersion ≠ poolBits job'.jobVersion)
    (hmask : IsContained versionMask) (hmask' : IsContained versionMask')
    (h : job.buildHeaderBuffer js jobTemplate versionMask nonce ntime = some header) :
    job'.buildHeaderBuffer js jobTemplate' versionMask' nonce' ntime' ≠ some header := by
  intro h'
  have hversion := (fields_of_buildHeaderBuffer h).1.symm.trans (fields_of_buildHeaderBuffer h').1
  have hword := BitVec.eq_of_toNat_eq (littleEndian_inj (BitVec.isLt _) (BitVec.isLt _) hversion)
  refine hbits ?_
  rw [← poolBits_xor hmask, ← poolBits_xor hmask', hword]

theorem header_ne_of_ntime {job' : MiningJob} {jobTemplate' : IJobTemplate}
    {versionMask' nonce' : Number} {timestamp timestamp' : ℕ} (hne : timestamp ≠ timestamp')
    (h : job.buildHeaderBuffer js jobTemplate versionMask nonce (.int timestamp) = some header) :
    job'.buildHeaderBuffer js jobTemplate' versionMask' nonce' (.int timestamp') ≠ some header := by
  intro h'
  have htime := (fields_of_buildHeaderBuffer h).2
  have htime' := (fields_of_buildHeaderBuffer h').2
  simp only [writeUInt32LE, Option.ite_none_right_eq_some, Option.some.injEq,
    Int.toNat_natCast] at htime htime'
  have hlt : timestamp < 256 ^ 4 := by omega
  have hlt' : timestamp' < 256 ^ 4 := by omega
  exact hne (littleEndian_inj hlt hlt' (htime.2.trans htime'.2.symm))

end Headers

section Jobs

def ntime (sent : SentJob) : ℕ := sent.jobTemplate.block.timestamp

def headerOf (js : BitcoinJs) (sent : SentJob) (versionMask nonce timestamp : Number) :
    Option Bytes :=
  sent.job.buildHeaderBuffer js sent.jobTemplate versionMask nonce timestamp

structure SameWork (newer older : SentJob) : Prop where
  prevHash : newer.jobTemplate.block.prevHash = older.jobTemplate.block.prevHash
  coinbase : newer.job.coinbasePart1Buffer ++ newer.job.coinbasePart2Buffer =
    older.job.coinbasePart1Buffer ++ older.job.coinbasePart2Buffer
  merkleBranch : newer.job.merkleBranchBuffers = older.job.merkleBranchBuffers

/-- Two jobs differ in ntime or in the pool's bits, and so do the headers made of
them: at the announced times, and at any one time when these are equal. -/
structure Apart (js : BitcoinJs) (newer older : SentJob) : Prop where
  differ : ntime newer ≠ ntime older ∨
    poolBits newer.job.jobVersion ≠ poolBits older.job.jobVersion
  announced : ∀ versionMask versionMask' nonce header, IsContained versionMask →
    IsContained versionMask' →
    headerOf js newer versionMask nonce (.int (ntime newer)) = some header →
    headerOf js older versionMask' nonce (.int (ntime older)) ≠ some header
  rolled : ntime newer = ntime older → ∀ versionMask versionMask' nonce timestamp header,
    IsContained versionMask → IsContained versionMask' →
    headerOf js newer versionMask nonce timestamp = some header →
    headerOf js older versionMask' nonce timestamp ≠ some header

theorem apart_of_differ {js : BitcoinJs} (h : ntime newer ≠ ntime older ∨
    poolBits newer.job.jobVersion ≠ poolBits older.job.jobVersion) : Apart js newer older where
  differ := h
  announced versionMask versionMask' nonce header hmask hmask' hheader := by
    rcases h with h | h
    · exact header_ne_of_ntime h hheader
    · exact header_ne_of_poolBits h hmask hmask' hheader
  rolled hsame versionMask versionMask' nonce timestamp header hmask hmask' hheader :=
    header_ne_of_poolBits (h.resolve_left (absurd hsame)) hmask hmask' hheader

/-- No two jobs of a session are the same work. -/
def AllApart (js : BitcoinJs) (session : Session) : Prop :=
  session.sentJobs.Pairwise fun newer older ↦ SameWork newer older → Apart js newer older

def coinbaseOf (cfg : Config) (v : View) (jobTemplate : IJobTemplate) : Option Bytes :=
  match v.session.clientAuthorization, cfg.network with
  | some authorization, some network =>
    cfg.js.transactionNoWitness
      (coinbaseTransactionOf cfg.js network [⟨authorization.address, 100⟩] jobTemplate)
  | _, _ => none

/-- The work of the template was sent before, with the same ntime. -/
def repeats (cfg : Config) (v : View) (jobTemplate : IJobTemplate) (older : SentJob) : Bool :=
  decide (jobTemplate.block.timestamp = ntime older) &&
    decide (jobTemplate.block.prevHash = older.jobTemplate.block.prevHash) &&
    decide (coinbaseOf cfg v jobTemplate =
      some (older.job.coinbasePart1Buffer ++ older.job.coinbasePart2Buffer)) &&
    decide (jobTemplate.merkleBranch = older.job.merkleBranchBuffers)

/-- Since this job the rotation went on, by less than a round, and was not restarted. -/
def rotatedSince (v : View) (jobTemplate : IJobTemplate) (older : SentJob) : Bool :=
  !jobTemplate.blockData.clearJobs &&
    decide (older.rotationState < v.session.elektronPoolVersionCounter) &&
    decide (v.session.elektronPoolVersionCounter < older.rotationState + 16)

/-- Work that goes out again with the same ntime does so within a round of the rotation. -/
def Rotates (cfg : Config) (v : View) (e : SessionEvent) : Prop :=
  (offers cfg v e).all (fun jobTemplate ↦ v.session.sentJobs.all fun older ↦
    !repeats cfg v jobTemplate older || rotatedSince v jobTemplate older) = true

instance (v : View) (e : SessionEvent) : Decidable (Rotates cfg v e) :=
  inferInstanceAs (Decidable (_ = _))

structure Stamped (sent : SentJob) : Prop where
  version : poolBits sent.job.jobVersion = BitVec.ofNat 4 sent.rotationState
  merkleBranch : sent.job.merkleBranchBuffers = sent.jobTemplate.merkleBranch

theorem stamped_of_mints (h : Mints cfg v sent) : Stamped sent := by
  obtain ⟨authorization, network, jobId, -, -, hjob⟩ := h
  obtain ⟨-, -, hbranch, hversion, -⟩ := new_eq_some hjob
  refine ⟨?_, hbranch⟩
  rw [hversion, versionedJobTemplate, poolBits_rotatedVersion]
  refine BitVec.eq_of_toNat_eq ?_
  simp only [BitVec.toNat_ofNat]
  omega

theorem coinbaseOf_of_mints (h : Mints cfg v sent) : coinbaseOf cfg v sent.jobTemplate =
    some (sent.job.coinbasePart1Buffer ++ sent.job.coinbasePart2Buffer) := by
  obtain ⟨authorization, network, jobId, hauthorization, hnetwork, hjob⟩ := h
  obtain ⟨hcoinbase, hbuffer, -⟩ := new_eq_some hjob
  rw [coinbaseOf, hauthorization, hnetwork]
  rw [hcoinbase] at hbuffer
  exact hbuffer

theorem repeats_of_sameWork (h : Mints cfg v sent) (hsame : SameWork sent older)
    (htime : ntime sent = ntime older) : repeats cfg v sent.jobTemplate older = true := by
  have hbranch : sent.jobTemplate.merkleBranch = older.job.merkleBranchBuffers :=
    (stamped_of_mints h).merkleBranch.symm.trans hsame.merkleBranch
  have hcoinbase := (coinbaseOf_of_mints h).trans (congrArg some hsame.coinbase)
  have htime : sent.jobTemplate.block.timestamp = ntime older := htime
  simp only [repeats, Bool.and_eq_true, decide_eq_true_eq]
  exact ⟨⟨⟨htime, hsame.prevHash⟩, hcoinbase⟩, hbranch⟩

theorem poolBits_ne_of_rotatedSince (hnew : Stamped sent) (hold : Stamped older)
    (hrotation : sent.rotationState = v.rotationState sent.jobTemplate)
    (h : rotatedSince v sent.jobTemplate older = true) :
    poolBits sent.job.jobVersion ≠ poolBits older.job.jobVersion := by
  simp only [rotatedSince, Bool.and_eq_true, Bool.not_eq_true', decide_eq_true_eq] at h
  obtain ⟨⟨hclear, hlt⟩, hround⟩ := h
  rw [View.rotationState, hclear, if_neg Bool.false_ne_true] at hrotation
  rw [hnew.version, hold.version, hrotation]
  intro hbits
  have hmod := congrArg BitVec.toNat hbits
  simp only [BitVec.toNat_ofNat] at hmod
  omega

/-- What a session keeps: its jobs carry their rotation states and are pairwise apart. -/
structure Distinct (cfg : Config) (session : Session) : Prop where
  stamped : ∀ sent ∈ session.sentJobs, Stamped sent
  apart : AllApart cfg.js session

theorem Distinct.of_sentJobs {session session' : Session} (h : Distinct cfg session)
    (hsent : session'.sentJobs = session.sentJobs) : Distinct cfg session' := by
  refine ⟨?_, ?_⟩
  · rw [hsent]
    exact h.stamped
  · rw [AllApart, hsent]
    exact h.apart

theorem Distinct.act (h : Distinct cfg v.session) (hguard : Rotates cfg v e)
    (hact : v.act cfg e = some v') : Distinct cfg v'.session := by
  rcases offers_of_act hact with hsent | ⟨sent, hsent, hoffers, hrotation⟩
  · exact h.of_sentJobs hsent
  obtain ⟨sent', hsent', hmints⟩ := (minted_of_act hact).resolve_left fun hsame ↦
    List.cons_ne_self sent v.session.sentJobs (hsent.symm.trans hsame)
  obtain rfl : sent = sent' := (List.cons.inj (hsent.symm.trans hsent')).1
  have hstamped := stamped_of_mints hmints
  constructor
  · rw [hsent]
    intro job hjob
    rcases List.mem_cons.mp hjob with rfl | hjob
    · exact hstamped
    · exact h.stamped job hjob
  · rw [AllApart, hsent]
    refine List.Pairwise.cons (fun older holder hsame ↦ apart_of_differ ?_) h.apart
    by_cases htime : ntime sent = ntime older
    · have hrepeats := repeats_of_sameWork hmints hsame htime
      rw [Rotates, hoffers, Option.all_some, List.all_eq_true] at hguard
      have hrotated := hguard older holder
      rw [hrepeats, Bool.not_true, Bool.false_or] at hrotated
      exact .inr (poolBits_ne_of_rotatedSince hstamped (h.stamped older holder) hrotation hrotated)
    · exact .inl htime

theorem distinct_kept :
    Kept cfg (fun _ ↦ True) (Rotates cfg) fun v ↦ Distinct cfg v.session :=
  .of_session fun _ _ _ _ h hguard hact ↦ h.act hguard hact

end Jobs

/-- In every run in which work that is sent again at the same ntime is sent within
a round of the rotation, no two jobs of a session are the same work. -/
theorem allApart_of_rotates (cfg : Config) (now : ℕ) (pool : Pool)
    (h : Reach (Pool.step cfg) (onSession (Rotates cfg)) (Pool.start now) pool) (id : SessionId) :
    AllApart cfg.js (pool.sessions id) := by
  refine (distinct_kept.reach (fun _ _ _ ↦ trivial) (fun _ ↦ ?_) h id).apart
  exact ⟨fun _ hsent ↦ absurd hsent List.not_mem_nil, List.Pairwise.nil⟩

section Sample

open Reference

theorem allApart_of_rotates_run :
    ∃ pool, Reach (Pool.step settings) (onSession (Rotates settings)) (Pool.start 1700000000000)
        pool ∧
      (pool.sessions 0).sentJobs.length = 2 ∧ AllApart settings.js (pool.sessions 0) := by
  obtain ⟨pool, hpool, hp⟩ := Reach.of_any (Pool.step settings) (onSession (Rotates settings))
    (Pool.start 1700000000000)
    (opening 0 alice ++ working 0 (answer 101 (hashOf 7)) ++ [.tick 500, .session 0 .localTimer])
    (fun pool ↦ (pool.sessions 0).sentJobs.length = 2) (by decide +kernel) (by decide +kernel)
  exact ⟨pool, hpool, of_decide_eq_true hp,
    allApart_of_rotates settings 1700000000000 pool hpool 0⟩

def isRepeated (session : Session) : Bool :=
  match session.sentJobs with
  | [last, _, second, _] =>
    decide (last.jobTemplate.block.prevHash = second.jobTemplate.block.prevHash) &&
      decide (last.job.coinbasePart1Buffer ++ last.job.coinbasePart2Buffer =
        second.job.coinbasePart1Buffer ++ second.job.coinbasePart2Buffer) &&
      decide (last.job.merkleBranchBuffers = second.job.merkleBranchBuffers) &&
      decide (ntime last = ntime second) &&
      decide (poolBits last.job.jobVersion = poolBits second.job.jobVersion)
  | _ => false

/-- Within one second a session is sent a job, local work, the work again with a
new difficulty and a restarted rotation, and local work that repeats the first.
The local timer ticks every half second, the difficulty timer 61.1 seconds after the start. -/
theorem not_allApart_of_retarget :
    ¬ ∀ (cfg : Config) (now : ℕ) (pool : Pool), Reachable (Pool.step cfg) (Pool.start now) pool →
      ∀ id, AllApart cfg.js (pool.sessions id) := by
  intro h
  obtain ⟨pool, hpool, hp⟩ := Reachable.of_any (Pool.step settings) (Pool.start 1700000000000)
    (.tick 400 :: opening 0 alice ++ .tick 60600 :: working 0 (answer 101 (hashOf 7)) ++
      [.tick 400, .session 0 .localTimer, .session 0 (.resume 0 .done), .tick 100,
        .session 0 .difficultyTimer, .session 0 (.resume 0 .done), .tick 400,
        .session 0 .localTimer])
    (fun pool ↦ isRepeated (pool.sessions 0)) (by decide +kernel)
  rw [isRepeated] at hp
  split at hp
  case h_2 => cases hp
  case h_1 last third second first hsent =>
    simp only [Bool.and_eq_true, decide_eq_true_eq] at hp
    obtain ⟨⟨⟨⟨hprev, hcoinbase⟩, hbranch⟩, htime⟩, hbits⟩ := hp
    have hapart := h settings _ pool hpool 0
    rw [AllApart, hsent] at hapart
    have hdiffer := ((List.pairwise_cons.mp hapart).1 second (by simp)
      ⟨hprev, hcoinbase, hbranch⟩).differ
    exact hdiffer.elim (absurd htime) (absurd hbits)

end Sample

end ElektronPool.DistinctWork
