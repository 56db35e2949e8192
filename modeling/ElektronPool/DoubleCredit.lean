import ElektronPool.Shares.Memory
import ElektronPool.SubmittedBlock

namespace ElektronPool.DoubleCredit

open Lib Lib.Runs Lib.Bytes Lib.JavaScript Model Model.View Model.MiningJob Work Shares
open SubmittedBlock (merkleRootOf)

variable {cfg : Config} {v v' : View} {e : SessionEvent} {share share' : Share}
  {pool pool' : Pool} {event : Event} {submission submission' : MiningSubmitMessage}

section Parts

/-- The parts of a header, in the order they are laid out in. -/
structure HeaderParts where
  version : BitVec 32
  prevHash : Hash
  merkleRoot : Hash
  timestamp : BitVec 32
  bits : BitVec 32
  nonce : BitVec 32
deriving DecidableEq

def HeaderParts.layout (parts : HeaderParts) : Bytes :=
  littleEndian 4 parts.version.toNat ++ parts.prevHash.toList ++ parts.merkleRoot.toList ++
    littleEndian 4 parts.timestamp.toNat ++ littleEndian 4 parts.bits.toNat ++
    littleEndian 4 parts.nonce.toNat

def headerParts (js : BitcoinJs) (job : MiningJob) (jobTemplate : IJobTemplate)
    (submission : MiningSubmitMessage) : HeaderParts where
  version := BitVec.ofInt 32 (job.maskedVersion (parseInt16 submission.versionMask))
  prevHash := jobTemplate.block.prevHash
  merkleRoot := merkleRootOf js job
  timestamp := (parseInt16 submission.ntime).toInt32
  bits := jobTemplate.block.bits
  nonce := (parseInt16 submission.nonce).toInt32

theorem littleEndian_toNat_injective :
    Function.Injective fun b : BitVec 32 ↦ littleEndian 4 b.toNat := fun a b h ↦
  BitVec.eq_of_toNat_eq (littleEndian_inj (w := 4) a.isLt b.isLt h)

theorem layout_injective : Function.Injective HeaderParts.layout := fun a b h ↦ by
  obtain ⟨h, hnonce⟩ := List.append_inj' h (by simp)
  obtain ⟨h, hbits⟩ := List.append_inj' h (by simp)
  obtain ⟨h, htimestamp⟩ := List.append_inj' h (by simp)
  obtain ⟨h, hroot⟩ := List.append_inj' h (by simp)
  obtain ⟨hversion, hprev⟩ := List.append_inj' h (by simp)
  cases a
  cases b
  simp only [HeaderParts.mk.injEq]
  exact ⟨littleEndian_toNat_injective hversion, Subtype.ext hprev, Subtype.ext hroot,
    littleEndian_toNat_injective htimestamp, littleEndian_toNat_injective hbits,
    littleEndian_toNat_injective hnonce⟩

theorem header_eq {js : BitcoinJs} {job : MiningJob} {jobTemplate : IJobTemplate} {header : Bytes}
    (h : job.buildHeaderBuffer js jobTemplate (parseInt16 submission.versionMask)
      (parseInt16 submission.nonce) (parseInt16 submission.ntime) = some header) :
    header = (headerParts js job jobTemplate submission).layout := by
  simp only [buildHeaderBuffer, Option.bind_eq_bind, Option.bind_eq_some_iff, Option.pure_def,
    Option.some.injEq] at h
  obtain ⟨version, hversion, time, htime, bits, hbits, nonce, hnonce, rfl⟩ := h
  rw [writeUInt32LE_natCast jobTemplate.block.bits.isLt] at hbits
  cases hbits
  rw [writeInt32LE_eq_some hversion, writeUInt32LE_eq_some htime, writeUInt32LE_eq_some hnonce]
  rfl

end Parts

section Accepted

def evaluation : Entry → Option Share
  | .evaluated share => some share
  | _ => none

def acknowledgement : Entry → Option Share
  | .acknowledged share => some share
  | _ => none

def credit : Entry → Option Share
  | .credited share => some share
  | _ => none

theorem acknowledgement_eq_some {entry : Entry} :
    acknowledgement entry = some share ↔ entry = .acknowledged share := by
  cases entry <;> simp [acknowledgement]

theorem credit_eq_some {entry : Entry} : credit entry = some share ↔ entry = .credited share := by
  cases entry <;> simp [credit]

/-- No header is answered with `true` twice, and none is credited twice. -/
structure CreditsOnce (history : List Entry) : Prop where
  acknowledged : ((history.filterMap acknowledgement).map Share.header).Nodup
  credited : ((history.filterMap credit).map Share.header).Nodup

def Live (pool : Pool) (share : Share) : Prop :=
  Entry.acknowledged share ∈ pool.history ∨
    (pool.sessions share.session).tasks.any (replies share) = true

instance : Decidable (Live pool share) := inferInstanceAs (Decidable (_ ∨ _))

def strings (submission : MiningSubmitMessage) : List String :=
  [submission.jobId, submission.extraNonce2, submission.ntime, submission.nonce,
    submission.versionMask]

/-- The submission makes the header of this share again, and meets its session's difficulty. -/
def repeats (cfg : Config) (v : View) (submission : MiningSubmitMessage) (share : Share) : Bool :=
  ((v.jobsService.getJobById submission.jobId).any fun job ↦
    (v.jobsService.getJobTemplateById job.jobTemplateId).any fun jobTemplate ↦
      headerParts cfg.js job jobTemplate submission =
        headerParts cfg.js share.job share.jobTemplate share.submission) &&
    decide ((v.session.sessionDifficulty : Difficulty) ≤ share.submissionDifficulty cfg.js)

/-- A submission that repeats an accepted share comes on the same session in the same strings. -/
def OnlyResubmits (cfg : Config) (pool : Pool) : Event → Prop
  | .tick _ => True
  | .session id e =>
    ∀ submission ∈ submits (pool.view id) e, ∀ share ∈ pool.history.filterMap evaluation,
      Live pool share → repeats cfg (pool.view id) submission share = true →
        share.session = id ∧ strings share.submission = strings submission

instance : Decidable (OnlyResubmits cfg pool event) :=
  match event with
  | .tick _ => inferInstanceAs (Decidable True)
  | .session _ _ => inferInstanceAs (Decidable (∀ _ ∈ _, ∀ _ ∈ _, _ → _ → _ ∧ _))

end Accepted

section Unique

theorem submissionHash_eq (h : strings submission = strings submission') :
    submissionHash submission = submissionHash submission' := congrArg (":".intercalate ·) h

theorem jobId_eq (h : strings submission = strings submission') :
    submission.jobId = submission'.jobId := (List.cons.inj h).1

theorem eq_of_evaluates (h : Evaluates cfg v submission share)
    (h' : Evaluates cfg v submission share') : share = share' := by
  have hjob := Option.some.inj (h.job.symm.trans h'.job)
  have htemplate := h.template
  rw [hjob, h'.template] at htemplate
  have hheader := h.header
  simp only [Share.versionMask, Share.nonce, Share.timestamp, h.same, hjob,
    ← Option.some.inj htemplate] at hheader
  have hheader' := h'.header
  simp only [Share.versionMask, Share.nonce, Share.timestamp, h'.same] at hheader'
  cases share
  cases share'
  simp only [Share.mk.injEq]
  exact ⟨h.serial.trans h'.serial.symm, h.session.trans h'.session.symm,
    h.difficulty.trans h'.difficulty.symm, h.same.trans h'.same.symm, hjob,
    (Option.some.inj htemplate).symm, Option.some.inj (hheader.symm.trans hheader')⟩

theorem Live.evaluated (hledger : ∀ id, Ledger cfg (pool.view id)) (h : Live pool share) :
    Entry.evaluated share ∈ pool.history := by
  have hanswered := (hledger share.session).answered share rfl
  have hpos : 0 < pool.history.count (.evaluated share) := by
    rcases h with h | h
    · exact (List.count_pos_iff.mpr h).trans_le ((Nat.le_add_left _ _).trans hanswered)
    · obtain ⟨task, htask, hreplies⟩ := List.any_eq_true.mp h
      have hcount : 0 < (pool.sessions share.session).tasks.countP (replies share) :=
        List.countP_pos_iff.mpr ⟨task, htask, hreplies⟩
      exact hcount.trans_le ((Nat.le_add_right _ _).trans hanswered)
  exact List.count_pos_iff.mp hpos

theorem Live.of_step (hledger : ∀ id, Ledger cfg (pool.view id))
    (h : pool.step cfg event = some pool') (hlive : Live pool' share) :
    Live pool share ∨ ∃ id e, event = .session id e ∧
      submits (pool.view id) e = some share.submission ∧
      Evaluates cfg (pool.view id) share.submission share ∧ share.Meets cfg.js := by
  obtain ⟨milliseconds, rfl, rfl⟩ | ⟨id, e, v', rfl, hact, rfl⟩ := step_cases h
  · exact .inl hlive
  have hentered := (deal_of_act hact).entered
  rcases hlive with hacknowledged | hreplies
  · by_cases hold : Entry.acknowledged share ∈ pool.history
    · exact .inl (.inl hold)
    · obtain ⟨rest, hpopped⟩ := popped_of_replied (hentered.replied_of_new hacknowledged hold)
      have htask := mem_of_popped hpopped
      obtain ⟨howner, -⟩ := (hledger id).passed share rest htask
      have howner : share.session = id := howner
      rw [← howner] at htask
      exact .inl (.inr (List.any_eq_true.mpr ⟨_, htask, replies_eq_true.mpr ⟨rest, rfl⟩⟩))
  · by_cases hid : share.session = id
    · obtain ⟨task, htask, hreplies⟩ := List.any_eq_true.mp hreplies
      obtain ⟨rest, rfl⟩ := replies_eq_true.mp hreplies
      rw [hid, Pool.sessions_put_self] at htask
      by_cases hold : Task.write (.accepted share) rest ∈ (pool.sessions id).tasks
      · rw [← hid] at hold
        exact .inl (.inr (List.any_eq_true.mpr ⟨_, hold, hreplies⟩))
      · exact .inr ⟨id, e, rfl, hentered.accepts_of_new htask hold⟩
    · rw [Pool.sessions_put_of_ne hid] at hreplies
      exact .inl (.inr hreplies)

def Unique (pool : Pool) : Prop :=
  ∀ share share', Live pool share → Live pool share' → share.header = share'.header →
    share = share'

variable {now : ℕ} {id : SessionId}

/-- A share that is accepted does not have the header of one that is live: it would
be a resubmission, and its job is registered, so that its session remembers it. -/
theorem header_ne_of_onlyResubmits (hreach : Reachable (Pool.step cfg) (Pool.start now) pool)
    (hguard : OnlyResubmits cfg pool (.session id e))
    (hsubmits : submits (pool.view id) e = some share.submission)
    (hshare : Evaluates cfg (pool.view id) share.submission share)
    (hmeets : share.Meets cfg.js) (hlive : Live pool share') : share.header ≠ share'.header := by
  intro heq
  have hmem := hlive.evaluated (ledger_of_reachable hreach)
  have hheader := (grounds_of_reachable hreach hmem).header
  have hparts : headerParts cfg.js share.job share.jobTemplate share.submission =
      headerParts cfg.js share'.job share'.jobTemplate share'.submission :=
    layout_injective ((header_eq hshare.header).symm.trans (heq.trans (header_eq hheader)))
  have hdifficulty : ((pool.sessions id).sessionDifficulty : Difficulty) ≤
      share'.submissionDifficulty cfg.js := by
    have hsame : share.sessionDifficulty = (pool.sessions id).sessionDifficulty :=
      hshare.difficulty
    rw [Share.submissionDifficulty, ← heq, ← hsame]
    exact hmeets
  have hrepeats : repeats cfg (pool.view id) share.submission share' = true := by
    simp only [repeats, hshare.job, hshare.template, Option.any_some, hparts, decide_true,
      Bool.true_and, decide_eq_true_eq]
    exact hdifficulty
  obtain ⟨hsession, hstrings⟩ := hguard share.submission hsubmits share'
    (List.mem_filterMap.mpr ⟨_, hmem, rfl⟩) hlive hrepeats
  have hregistered : (pool.jobsService.jobs share'.submission.jobId).isSome := by
    rw [jobId_eq hstrings]
    exact Option.isSome_iff_exists.mpr ⟨_, hshare.job⟩
  have hremembered := remembers_of_reachable hreach id share' hsession hmem hregistered
  rw [submissionHash_eq hstrings] at hremembered
  exact hshare.fresh hremembered

theorem Unique.step (hreach : Reachable (Pool.step cfg) (Pool.start now) pool) (h : Unique pool)
    (hguard : OnlyResubmits cfg pool event) (hstep : pool.step cfg event = some pool') :
    Unique pool' := by
  intro share share' hlive hlive' heq
  have hledger := ledger_of_reachable hreach
  rcases hlive.of_step hledger hstep with hold | ⟨id, e, rfl, hsubmits, hshare, hmeets⟩ <;>
    rcases hlive'.of_step hledger hstep with hold' | ⟨id', e', hevent, hsubmits', hshare', hmeets'⟩
  · exact h share share' hold hold' heq
  · subst hevent
    exact absurd heq.symm (header_ne_of_onlyResubmits hreach hguard hsubmits' hshare' hmeets' hold)
  · exact absurd heq (header_ne_of_onlyResubmits hreach hguard hsubmits hshare hmeets hold')
  · cases hevent
    have hsame := Option.some.inj (hsubmits.symm.trans hsubmits')
    rw [← hsame] at hshare'
    exact eq_of_evaluates hshare hshare'

theorem Unique.nodup_headers (h : Unique pool) {k : Entry → Option Share} {mk : Share → Entry}
    (hk : ∀ entry share, k entry = some share ↔ entry = mk share)
    (hcount : ∀ share, pool.history.count (mk share) ≤ 1)
    (hlive : ∀ share, mk share ∈ pool.history → Live pool share) :
    ((pool.history.filterMap k).map Share.header).Nodup := by
  have hmem {share : Share} (hshare : share ∈ pool.history.filterMap k) : Live pool share := by
    obtain ⟨entry, hentry, hkey⟩ := List.mem_filterMap.mp hshare
    exact hlive share ((hk entry share).mp hkey ▸ hentry)
  refine List.Nodup.map_on (fun share hshare share' hshare' heq ↦
    h share share' (hmem hshare) (hmem hshare') heq) ?_
  apply List.nodup_iff_count_le_one.mpr
  intro share
  rw [List.count_filterMap]
  refine le_of_eq_of_le (List.countP_congr fun entry _ ↦ ?_) (hcount share)
  simp [hk]

/-- In every run in which work that is accepted is only ever resubmitted as it was,
every header is credited once at most. -/
theorem creditsOnce_of_onlyResubmits (cfg : Config) (now : ℕ) (pool : Pool)
    (h : Reach (Pool.step cfg) (OnlyResubmits cfg) (Pool.start now) pool) :
    CreditsOnce pool.history := by
  have hledger := ledger_of_reachable h.reachable
  have hunique : Unique pool := by
    refine h.invariant_of (J := fun p ↦ Reachable (Pool.step cfg) (Pool.start now) p)
      (fun _ hp ↦ hp) (fun share _ hlive ↦ ?_) fun _ _ _ hreach hunique hguard hstep ↦
        hunique.step hreach hguard hstep
    rcases hlive with hlive | hlive <;> cases hlive
  have hacknowledged (share : Share) : pool.history.count (.acknowledged share) ≤ 1 := by
    have hanswered := (hledger share.session).answered share rfl
    have hevaluated := (hledger share.session).evaluated share
    exact (Nat.le_add_left _ _).trans (hanswered.trans hevaluated)
  have hcredited (share : Share) :
      pool.history.count (.credited share) ≤ pool.history.count (.acknowledged share) :=
    (Nat.le_add_left _ _).trans ((hledger share.session).credited share rfl)
  refine ⟨hunique.nodup_headers (fun _ _ ↦ acknowledgement_eq_some) hacknowledged fun _ ↦ .inl,
    hunique.nodup_headers (fun _ _ ↦ credit_eq_some)
      (fun share ↦ (hcredited share).trans (hacknowledged share)) fun share hmem ↦ .inl ?_⟩
  exact List.count_pos_iff.mp ((List.count_pos_iff.mpr hmem).trans_le (hcredited share))

end Unique

section Sample

open Reference

def firstShare : MiningSubmitMessage := ⟨"3", "1", "", "6553f105", "00000003", "00000000"⟩
def capitalShare : MiningSubmitMessage := { firstShare with ntime := "6553F105" }

def resubmitting (submission : MiningSubmitMessage) : List Event :=
  easyOpening 0 alice ++ working 0 (answer 101 (hashOf 7)) ++ crediting 0 firstShare ++
    submitting 0 submission ++ resumes 0 1

theorem creditsOnce_of_onlyResubmits_run :
    ∃ pool, Reach (Pool.step settings) (OnlyResubmits settings) (Pool.start 1700000000000) pool ∧
      (pool.history.filterMap credit).length = 1 ∧ CreditsOnce pool.history := by
  obtain ⟨pool, hpool, hp⟩ := Reach.of_any (Pool.step settings) (OnlyResubmits settings)
    (Pool.start 1700000000000) (resubmitting firstShare)
    (fun pool ↦ (pool.history.filterMap credit).length = 1) (by decide +kernel) (by decide +kernel)
  exact ⟨pool, hpool, of_decide_eq_true hp,
    creditsOnce_of_onlyResubmits settings 1700000000000 pool hpool⟩

/-- The duplicate check takes the two spellings for two shares, and both are credited. -/
theorem not_creditsOnce_of_capitals :
    ¬ ∀ (cfg : Config) (now : ℕ) (pool : Pool),
      Reachable (Pool.step cfg) (Pool.start now) pool → CreditsOnce pool.history := by
  intro h
  obtain ⟨pool, hpool, hp⟩ := Reachable.of_any (Pool.step settings) (Pool.start 1700000000000)
    (resubmitting capitalShare)
    (fun pool ↦ !decide ((pool.history.filterMap credit).map Share.header).Nodup)
    (by decide +kernel)
  simp only [Bool.not_eq_true', decide_eq_false_iff_not] at hp
  exact hp (h settings 1700000000000 pool hpool).credited

end Sample

end ElektronPool.DoubleCredit
