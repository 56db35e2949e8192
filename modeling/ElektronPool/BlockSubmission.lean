import ElektronPool.Shares.Ledger
import ElektronPool.SubmittedBlock

namespace ElektronPool.BlockSubmission

open Lib Lib.Runs Lib.Bytes Lib.JavaScript Model Model.View Model.MiningJob Work Shares

variable {cfg : Config} {v v' : View} {e : SessionEvent} {share : Share} {pool pool' : Pool}
  {event : Event}

section Target

/-- The target a compact encoding stands for: a mantissa of 23 bits, shifted by bytes. -/
def compactTarget (nBits : BitVec 32) : ℕ :=
  let size := nBits.toNat / 2 ^ 24
  let word := nBits.toNat % 2 ^ 23
  if size ≤ 3 then word / 256 ^ (3 - size) else word * 256 ^ (size - 3)

theorem toInt_mantissa (nBits : BitVec 32) :
    (nBits &&& 0x007fffff#32).toInt = (nBits.toNat % 2 ^ 23 : ℕ) := by
  have hand : (nBits &&& 0x007fffff#32).toNat = nBits.toNat % 2 ^ 23 := by
    rw [BitVec.toNat_and]
    exact Nat.and_two_pow_sub_one_eq_mod _ 23
  rw [BitVec.toInt_eq_toNat_of_lt (by omega), hand]

theorem toInt_exponent (nBits : BitVec 32) :
    (nBits.sshiftRight 24 &&& 0xff#32).toInt = (nBits.toNat / 2 ^ 24 : ℕ) := by
  have hshift : nBits.sshiftRight 24 &&& 0xff#32 = nBits >>> 24 := by
    apply BitVec.eq_of_getLsbD_eq
    intro i hi
    have hmask : (0xff#32).getLsbD i = decide (i < 8) := by
      rw [BitVec.getLsbD_ofNat, decide_eq_true hi, Bool.true_and]
      exact Nat.testBit_two_pow_sub_one 8 i
    rw [BitVec.getLsbD_and, hmask, BitVec.getLsbD_sshiftRight, BitVec.getLsbD_ushiftRight]
    by_cases h : i < 8
    · simp [h, hi, show 24 + i < 32 by omega]
    · simp [h, BitVec.getLsbD_of_ge nBits (24 + i) (by omega)]
  have hlt : (nBits >>> 24).toNat = nBits.toNat / 2 ^ 24 := by
    rw [BitVec.toNat_ushiftRight, Nat.shiftRight_eq_div_pow]
  have hbound := nBits.isLt
  rw [hshift, BitVec.toInt_eq_toNat_of_lt (by omega), hlt]

/-- The source keeps the fraction that the compact encoding drops. -/
theorem compactTarget_le_networkTarget (nBits : BitVec 32) :
    (compactTarget nBits : ℚ) ≤ networkTarget nBits := by
  simp only [compactTarget, networkTarget, toInt_mantissa, toInt_exponent]
  generalize nBits.toNat % 2 ^ 23 = word
  generalize nBits.toNat / 2 ^ 24 = size
  split
  case isTrue h =>
    have hneg : (size : ℤ) - 3 = -((3 - size : ℕ) : ℤ) := by omega
    rw [hneg, zpow_neg, zpow_natCast, ← div_eq_mul_inv]
    have hle : ((word / 256 ^ (3 - size) : ℕ) : ℚ) ≤ word / (256 ^ (3 - size) : ℕ) :=
      Nat.cast_div_le
    simpa using hle
  case isFalse h =>
    have hpos : (size : ℤ) - 3 = ((size - 3 : ℕ) : ℤ) := by omega
    rw [hpos, zpow_natCast]
    simp

theorem quotient_anti {x y y' : ℚ} (hx : 0 ≤ x) (hy : 0 ≤ y) (h : y ≤ y') :
    quotient x y' ≤ quotient x y := by
  rcases hy.eq_or_lt with rfl | hpos
  · simp [quotient]
  · rw [quotient, quotient, if_neg hpos.ne', if_neg (hpos.trans_le h).ne', WithTop.coe_le_coe]
    exact div_le_div_of_nonneg_left hx hpos h

/-- The hash of the header, as a number, is at most the target of the template. -/
def Solves (js : BitcoinJs) (share : Share) : Prop :=
  ofLittleEndian (js.hash256 share.header).toList ≤ compactTarget share.jobTemplate.block.bits

instance (js : BitcoinJs) (share : Share) : Decidable (Solves js share) :=
  inferInstanceAs (Decidable (_ ≤ _))

/-- A header that meets the target has at least the difficulty of the network. -/
theorem isBlock_of_solves {js : BitcoinJs} (hfetched : Fetched js share.jobTemplate)
    (h : Solves js share) : share.IsBlock js := by
  rw [Share.IsBlock, hfetched.networkDifficulty, calculateNetworkDifficulty,
    Share.submissionDifficulty, calculateDifficulty, hashDifficulty, le256todouble_eq, trueDiffOne,
    mul_comm]
  refine quotient_anti (by norm_num) (Nat.cast_nonneg _) ?_
  exact (Nat.cast_le.mpr h).trans (compactTarget_le_networkTarget _)

end Target

section Block

/-- The pool has called `SUBMIT_BLOCK` with the block of the share's job. -/
def SubmitsBlock (js : BitcoinJs) (history : List Entry) (share : Share) : Prop :=
  ∃ block blockHex, share.job.copyAndUpdateBlock js share.jobTemplate share.versionMask share.nonce
      share.timestamp = some block ∧
    js.blockToBuffer false block = some blockHex ∧
    Entry.call share.session (some share) (.submitBlock block blockHex) ∈ history

theorem exists_blockHex {js : BitcoinJs} (hjs : js.Serialises) (hblocks : js.SerialisesBlocks)
    (hfetched : Fetched js share.jobTemplate) {network : Network} {payout : List AddressObject}
    {template : IJobTemplate} {jobId : String} {now : ℕ}
    (hjob : MiningJob.new js network jobId payout template now = some share.job)
    (hheader : share.job.buildHeaderBuffer js share.jobTemplate share.versionMask share.nonce
      share.timestamp = some share.header) :
    ∃ block blockHex, share.job.copyAndUpdateBlock js share.jobTemplate share.versionMask
      share.nonce share.timestamp = some block ∧ js.blockToBuffer false block = some blockHex := by
  have hcopy := SubmittedBlock.copyAndUpdateBlock_eq hjs hjob share.jobTemplate share.versionMask
    share.nonce share.timestamp
  have hbuffer := SubmittedBlock.blockToBuffer_header hjs hjob hcopy hheader
  obtain ⟨hclone, -⟩ := SubmittedBlock.cloneCoinbaseTransaction_eq hjs hjob
  obtain ⟨coinbaseBuffer, hcoinbase, -⟩ := Option.bind_eq_some_iff.mp hclone
  have htransactions : ∀ tx ∈ share.job.coinbaseTransaction ::
      share.jobTemplate.block.transactions.tail, (js.transactionToBuffer tx).isSome := by
    intro tx htx
    rcases List.mem_cons.mp htx with rfl | htx
    · rw [hcoinbase, Option.isSome_some]
    · obtain ⟨buffer, hparsed⟩ := hfetched.transactions tx htx
      exact hblocks.reserialise buffer tx hparsed
  obtain ⟨blockHex, hhex⟩ := Option.isSome_iff_exists.mp
    (hblocks.block _ (by rw [hbuffer, Option.isSome_some]) htransactions)
  exact ⟨_, blockHex, hcopy, hhex⟩

theorem fetched_of_grounds (hsound : Sound cfg v) (hgrounds : Grounds cfg v.history share) :
    Fetched cfg.js share.jobTemplate := by
  obtain ⟨address, htemplate, -⟩ := hgrounds.template
  exact hsound.registry.fetched _ _ (List.mem_filter.mpr ⟨htemplate, rfl⟩)

theorem new_of_grounds (hsound : Sound cfg v) (hgrounds : Grounds cfg v.history share) :
    ∃ network jobId payout template now,
      MiningJob.new cfg.js network jobId payout template now = some share.job := by
  obtain ⟨session, template, hjob⟩ := hgrounds.job
  obtain ⟨network, payee, rotationState, -, -, hnew⟩ :=
    (hsound.registry.built _ _ _ (List.mem_filter.mpr ⟨hjob, rfl⟩)).made
  exact ⟨network, _, _, _, _, hnew⟩

theorem exists_blockHex_of_grounds (hjs : cfg.js.Serialises) (hblocks : cfg.js.SerialisesBlocks)
    (hsound : Sound cfg v) (hgrounds : Grounds cfg v.history share) :
    ∃ block blockHex, share.job.copyAndUpdateBlock cfg.js share.jobTemplate share.versionMask
      share.nonce share.timestamp = some block ∧ cfg.js.blockToBuffer false block = some blockHex := by
  obtain ⟨_, _, _, _, _, hnew⟩ := new_of_grounds hsound hgrounds
  exact exists_blockHex hjs hblocks (fetched_of_grounds hsound hgrounds) hnew hgrounds.header

theorem SubmitsBlock.mono {js : BitcoinJs} {history history' : List Entry}
    (hgrows : history ⊆ history') (h : SubmitsBlock js history share) :
    SubmitsBlock js history' share := by
  obtain ⟨block, blockHex, hcopy, hhex, hcall⟩ := h
  exact ⟨block, blockHex, hcopy, hhex, hgrows hcall⟩

theorem submitsBlock_of_replies (hledger : ∀ id, Ledger cfg (pool.view id))
    (hblock : share.IsBlock cfg.js)
    (hserialises : ∃ block blockHex, share.job.copyAndUpdateBlock cfg.js share.jobTemplate
      share.versionMask share.nonce share.timestamp = some block ∧
      cfg.js.blockToBuffer false block = some blockHex)
    (hreplies : Replies share pool event) (h : pool.step cfg event = some pool') :
    SubmitsBlock cfg.js pool'.history share := by
  obtain ⟨milliseconds, rfl, rfl⟩ | ⟨id, e, v', rfl, hact, rfl⟩ := step_cases h
  · cases hreplies
  · obtain ⟨rest, hpopped⟩ := popped_of_replied hreplies
    obtain ⟨howner, -⟩ := (hledger id).passed share rest (mem_of_popped hpopped)
    obtain ⟨entries, added, hadds, hanswers⟩ := answers_of_replied hreplies hact
    cases hanswers with
    | share hnot _ => exact absurd hblock hnot
    | block block blockHex rest _ hcopy hhex hentries _ =>
      refine ⟨block, blockHex, hcopy, hhex, ?_⟩
      have hmem : Entry.call (pop (pool.view id) e).self (some share) (.submitBlock block blockHex) ∈
          v'.history.filter isRecord := by simp [hadds.records, hentries]
      rw [howner, ← (popped_pop (pool.view id) e).self]
      exact List.mem_of_mem_filter hmem
    | threw _ hthrew _ _ =>
      obtain ⟨block, blockHex, hcopy, hhex⟩ := hserialises
      simp [hcopy, hhex] at hthrew

/-- A solved share is submitted as a block exactly when it meets the difficulty
of its session and its reply is written while the connection is open. -/
theorem submitsBlock_iff (cfg : Config) (hjs : cfg.js.Serialises)
    (hblocks : cfg.js.SerialisesBlocks) (now : ℕ) (pool₀ pool₁ pool : Pool)
    (hpool₀ : Reachable (Pool.step cfg) (Pool.start now) pool₀) (id : SessionId) (e : SessionEvent)
    (share : Share) (hsubmits : submits (pool₀.view id) e = some share.submission)
    (hshare : Evaluates cfg (pool₀.view id) share.submission share)
    (hsolves : Solves cfg.js share) (hstep : pool₀.step cfg (.session id e) = some pool₁)
    (es : List Event) (hrun : run (Pool.step cfg) pool₁ es = some pool) :
    SubmitsBlock cfg.js pool.history share ↔
      share.Meets cfg.js ∧ Happens (Pool.step cfg) (Replies share) pool₁ es := by
  have hpool₁ := hpool₀.tail trivial hstep
  constructor
  · rintro ⟨block, blockHex, -, -, hcall⟩
    have hledger := ledger_of_reachable (hpool₁.trans (reachable_of_run hrun)) id
    obtain ⟨-, hacknowledged⟩ := hledger.called _ share _ hcall
    refine ⟨hledger.acknowledged share hacknowledged, ?_⟩
    refine happens_of_change (Q := fun p ↦ Entry.acknowledged share ∈ p.history)
      (fun _ _ _ _ h ↦ replies_of_step h) hrun (fun hearly ↦ ?_) hacknowledged
    have hnone := hshare.not_acknowledged (ledger_of_reachable hpool₀ id)
    have hreplied : replied (pool₀.view id) e = some share :=
      replies_of_step hstep hnone hearly
    simp [replied_of_submits hsubmits] at hreplied
  · rintro ⟨-, hhappens⟩
    have hsound := sound_of_reachable hpool₀ id
    have hgrounds := hshare.grounds hsound
    have hfetched := fetched_of_grounds hsound hgrounds
    have hserialises := exists_blockHex_of_grounds hjs hblocks hsound hgrounds
    refine hhappens.establishes (Q := fun p ↦ SubmitsBlock cfg.js p.history share) hrun
      (fun t event t' ht hreplies h ↦ ?_) fun t event t' hsubmitted h ↦
        hsubmitted.mono (history_of_step h)
    exact submitsBlock_of_replies (ledger_of_reachable (hpool₁.trans ht))
      (isBlock_of_solves hfetched hsolves) hserialises hreplies h

end Block

section Sample

open Reference

def solution : MiningSubmitMessage := ⟨"3", "1", "", "6553f105", "00000001", "00000000"⟩

def solving (opens : List Event) : List Event :=
  opens ++ working 0 (answer 101 (hashOf 7)) ++ [.session 0 (.data [.submit solution])]

def handling : Event := .session 0 (.resume 0 .done)

def evaluatesSolution : Entry → Bool
  | .evaluated share => decide (Solves bitcoinJs share)
  | _ => false

def isSubmitBlock : Entry → Bool
  | .call _ _ (.submitBlock _ _) => true
  | _ => false

def isEvaluated : Entry → Bool
  | .evaluated _ => true
  | _ => false

theorem not_evaluated {history : List Entry} (h : history.any isEvaluated = false) :
    Entry.evaluated share ∉ history := fun hmem ↦ by
  simpa [isEvaluated] using List.any_eq_false.mp h _ hmem

theorem submitsBlock_iff_run :
    ∃ pool₀ pool₁ pool share,
      run (Pool.step settings) (Pool.start 1700000000000) (solving (easyOpening 0 alice)) =
        some pool₀ ∧
      pool₀.step settings handling = some pool₁ ∧
      run (Pool.step settings) pool₁ [handling] = some pool ∧
      share.submission = solution ∧ Solves bitcoinJs share ∧
      SubmitsBlock bitcoinJs pool.history share := by
  have hp : ((run (Pool.step settings) (Pool.start 1700000000000)
      (solving (easyOpening 0 alice))).any fun pool₀ ↦
      !pool₀.history.any isEvaluated && (pool₀.step settings handling).any fun pool₁ ↦
        (run (Pool.step settings) pool₁ [handling]).isSome &&
          (replied (pool₁.view 0) (.resume 0 .done)).any fun share ↦
            decide (Entry.evaluated share ∈ pool₁.history) && decide (share.submission = solution) &&
              decide (Solves bitcoinJs share) && decide (share.Meets bitcoinJs)) = true := by
    decide +kernel
  simp only [Option.any_eq_true, Bool.and_eq_true, Bool.not_eq_true', decide_eq_true_eq,
    Option.isSome_iff_exists] at hp
  obtain ⟨pool₀, hpool₀, hnone, pool₁, hpool₁, ⟨pool, hpool⟩, share, hreplied,
    ⟨⟨hevaluated, hsubmission⟩, hsolves⟩, hmeets⟩ := hp
  obtain ⟨hsubmits, hshare⟩ := evaluates_of_step hpool₁ hevaluated (not_evaluated hnone)
  exact ⟨pool₀, pool₁, pool, share, hpool₀, hpool₁, hpool, hsubmission, hsolves,
    (submitsBlock_iff settings serialises serialisesBlocks 1700000000000 pool₀ pool₁ pool
      (reachable_of_run hpool₀) 0 (.resume 0 .done) share hsubmits hshare hsolves hpool₁ [handling]
      hpool).mpr ⟨hmeets, [], handling, [], pool₁, rfl, rfl, hreplied⟩⟩

/-- At the initial difficulty it is refused, and the handler is done without a block. -/
theorem not_submitsBlock_of_low_difficulty :
    ¬ ∀ (cfg : Config), cfg.js.Serialises → cfg.js.SerialisesBlocks →
      ∀ (now : ℕ) (pool₀ pool₁ pool : Pool) (id : SessionId) (e : SessionEvent) (share : Share),
        Reachable (Pool.step cfg) (Pool.start now) pool₀ →
        submits (pool₀.view id) e = some share.submission →
        Evaluates cfg (pool₀.view id) share.submission share → Solves cfg.js share →
        pool₀.step cfg (.session id e) = some pool₁ → Reachable (Pool.step cfg) pool₁ pool →
        (pool.sessions id).tasks = [] → SubmitsBlock cfg.js pool.history share := by
  intro h
  have hp : ((run (Pool.step settings) (Pool.start 1700000000000)
      (solving (opening 0 alice))).any fun pool₀ ↦
      !pool₀.history.any isEvaluated && (pool₀.step settings handling).any fun pool₁ ↦
        pool₁.history.any evaluatesSolution &&
        (run (Pool.step settings) pool₁ [handling]).any fun pool ↦
          (pool.sessions 0).tasks.isEmpty && !pool.history.any isSubmitBlock) = true := by
    decide +kernel
  simp only [Option.any_eq_true, Bool.and_eq_true, Bool.not_eq_true', List.isEmpty_iff] at hp
  obtain ⟨pool₀, hpool₀, hnone, pool₁, hpool₁, hentry, pool, hpool, htasks, hcalls⟩ := hp
  obtain ⟨entry, hentry, hsolves⟩ := List.any_eq_true.mp hentry
  cases entry with
  | evaluated share =>
    simp only [evaluatesSolution, decide_eq_true_eq] at hsolves
    obtain ⟨hsubmits, hshare⟩ := evaluates_of_step hpool₁ hentry (not_evaluated hnone)
    obtain ⟨block, blockHex, -, -, hcall⟩ := h settings serialises serialisesBlocks 1700000000000
      pool₀ pool₁ pool 0 (.resume 0 .done) share (reachable_of_run hpool₀) hsubmits hshare hsolves
      hpool₁ (reachable_of_run hpool) htasks
    exact List.any_eq_false.mp hcalls _ hcall rfl
  | _ => cases hsolves

end Sample

end ElektronPool.BlockSubmission
