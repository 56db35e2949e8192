import ElektronPool.CoinbaseLayout

namespace ElektronPool.HeaderProbes

open Lib Lib.JavaScript Model Model.MiningJob

variable {js : BitcoinJs} {job : MiningJob} {jobTemplate : IJobTemplate}
  {versionMask nonce timestamp : Number} {coinbase coinbase' s : Bytes}

/-- The merkle root over a serialised coinbase. -/
def rootOver (js : BitcoinJs) (job : MiningJob) (coinbase : Bytes) : Hash :=
  calculateMerkleRootHash js (js.hash256 coinbase) job.merkleBranchBuffers

def headerOver (js : BitcoinJs) (job : MiningJob) (jobTemplate : IJobTemplate)
    (versionMask nonce timestamp : Number) (coinbase : Bytes) : Option Bytes :=
  headerLayout
    { version := job.maskedVersion versionMask
      prevHash := jobTemplate.block.prevHash
      merkleRoot := some (rootOver js job coinbase)
      timestamp
      bits := jobTemplate.block.bits
      nonce
      witnessCommit := none
      transactions := [] }

def spliced (tx : Transaction) (s : Bytes) : Transaction :=
  { tx with ins := tx.ins.modifyHead fun input ↦ { input with script := input.script ++ s } }

/-- Each of the three builders gives the header over the coinbase it is named
for, and without extra bytes that of the job. -/
structure Probes (js : BitcoinJs) (job : MiningJob) (jobTemplate : IJobTemplate)
    (versionMask nonce : Number) (s : Bytes) (timestamp : Number) : Prop where
  suffix : job.buildHeaderBufferWithCoinbaseSuffix js jobTemplate versionMask nonce s timestamp =
    headerOver js job jobTemplate versionMask nonce timestamp
      (job.coinbasePart1Buffer ++ job.coinbasePart2Buffer ++ s)
  front : job.buildHeaderBufferWithCoinbasePrefix js jobTemplate versionMask nonce s timestamp =
    headerOver js job jobTemplate versionMask nonce timestamp
      (s ++ (job.coinbasePart1Buffer ++ job.coinbasePart2Buffer))
  splice : job.buildHeaderBufferWithScriptSigSplice js jobTemplate versionMask nonce s timestamp =
    (js.transactionNoWitness (spliced job.coinbaseTransaction s)).bind
      (headerOver js job jobTemplate versionMask nonce timestamp)
  empty : s = [] →
    job.buildHeaderBufferWithCoinbaseSuffix js jobTemplate versionMask nonce s timestamp =
      job.buildHeaderBuffer js jobTemplate versionMask nonce timestamp ∧
    job.buildHeaderBufferWithCoinbasePrefix js jobTemplate versionMask nonce s timestamp =
      job.buildHeaderBuffer js jobTemplate versionMask nonce timestamp ∧
    job.buildHeaderBufferWithScriptSigSplice js jobTemplate versionMask nonce s timestamp =
      job.buildHeaderBuffer js jobTemplate versionMask nonce timestamp

def Writable (job : MiningJob) (versionMask nonce timestamp : Number) : Prop :=
  (writeInt32LE (job.maskedVersion versionMask)).isSome ∧ (writeUInt32LE timestamp).isSome ∧
    (writeUInt32LE nonce).isSome

instance : Decidable (Writable job versionMask nonce timestamp) :=
  inferInstanceAs (Decidable (_ ∧ _))

theorem assembleHeader_eq :
    job.assembleHeader js jobTemplate versionMask nonce coinbase timestamp =
      headerOver js job jobTemplate versionMask nonce timestamp coinbase := rfl

theorem buildHeaderBuffer_eq :
    job.buildHeaderBuffer js jobTemplate versionMask nonce timestamp =
      headerOver js job jobTemplate versionMask nonce timestamp
        (job.coinbasePart1Buffer ++ job.coinbasePart2Buffer) := rfl

/-- Two coinbases give the same header when none can be written, or when their roots collide. -/
theorem headerOver_eq_iff :
    headerOver js job jobTemplate versionMask nonce timestamp coinbase =
        headerOver js job jobTemplate versionMask nonce timestamp coinbase' ↔
      ¬ Writable job versionMask nonce timestamp ∨
        rootOver js job coinbase = rootOver js job coinbase' := by
  by_cases hwritable : Writable job versionMask nonce timestamp
  · obtain ⟨hversion, htime, hnonce⟩ := hwritable
    obtain ⟨version, hversion⟩ := Option.isSome_iff_exists.mp hversion
    obtain ⟨time, htime⟩ := Option.isSome_iff_exists.mp htime
    obtain ⟨nonce', hnonce⟩ := Option.isSome_iff_exists.mp hnonce
    have hbits := writeUInt32LE_natCast jobTemplate.block.bits.isLt
    simp only [headerOver, headerLayout, hversion, htime, hbits, hnonce, Option.bind_eq_bind,
      Option.bind_some, Option.pure_def, Option.some.injEq, List.append_cancel_right_eq,
      List.append_cancel_left_eq, Writable, Option.isSome_some, and_self, not_true_eq_false,
      false_or]
    exact List.Vector.toList_injective.eq_iff
  · refine iff_of_true ?_ (.inl hwritable)
    have hnone (coinbase : Bytes) :
        headerOver js job jobTemplate versionMask nonce timestamp coinbase = none := by
      by_contra hsome
      obtain ⟨header, hheader⟩ := Option.ne_none_iff_exists'.mp hsome
      simp only [headerOver, headerLayout, Option.bind_eq_bind, Option.bind_eq_some_iff] at hheader
      obtain ⟨_, hversion, _, -, _, htime, _, -, _, hnonce, -⟩ := hheader
      exact hwritable ⟨by rw [hversion]; rfl, by rw [htime]; rfl, by rw [hnonce]; rfl⟩
    rw [hnone, hnone]

theorem suffix_eq :
    job.buildHeaderBufferWithCoinbaseSuffix js jobTemplate versionMask nonce s timestamp =
      headerOver js job jobTemplate versionMask nonce timestamp
        (job.coinbasePart1Buffer ++ s) := by
  rw [buildHeaderBufferWithCoinbaseSuffix, assembleHeader_eq]
  cases s with
  | nil => simp
  | cons b bs => simp

theorem front_eq :
    job.buildHeaderBufferWithCoinbasePrefix js jobTemplate versionMask nonce s timestamp =
      headerOver js job jobTemplate versionMask nonce timestamp
        (s ++ job.coinbasePart1Buffer) := by
  rw [buildHeaderBufferWithCoinbasePrefix, assembleHeader_eq]
  cases s with
  | nil => simp
  | cons b bs => simp

section Job

variable {network : Network} {jobId : String} {payout : List AddressObject}
  {template : IJobTemplate} {now : ℕ}

theorem splice_eq (hjs : js.Serialises)
    (hjob : MiningJob.new js network jobId payout template now = some job) :
    job.buildHeaderBufferWithScriptSigSplice js jobTemplate versionMask nonce s timestamp =
      (js.transactionNoWitness (spliced job.coinbaseTransaction s)).bind
        (headerOver js job jobTemplate versionMask nonce timestamp) := by
  have hclone := (SubmittedBlock.cloneCoinbaseTransaction_eq hjs hjob).1
  rw [cloneCoinbaseTransaction] at hclone
  rw [buildHeaderBufferWithScriptSigSplice, hclone]
  rfl

theorem spliced_nil (tx : Transaction) : spliced tx [] = tx := by
  obtain ⟨version, locktime, ins, outs⟩ := tx
  cases ins <;> simp [spliced]

/-- The suffix and the prefix builder leave out the second part of the coinbase:
they are right only where no header can be written, or where the roots collide. -/
theorem probes_iff (js : BitcoinJs) (hjs : js.Serialises) (network : Network) (jobId : String)
    (payout : List AddressObject) (template : IJobTemplate) (now : ℕ) (job : MiningJob)
    (hjob : MiningJob.new js network jobId payout template now = some job)
    (jobTemplate : IJobTemplate) (versionMask nonce : Number) (s : Bytes) (timestamp : Number) :
    Probes js job jobTemplate versionMask nonce s timestamp ↔
      ¬ Writable job versionMask nonce timestamp ∨
        rootOver js job (job.coinbasePart1Buffer ++ s) =
          rootOver js job (job.coinbasePart1Buffer ++ job.coinbasePart2Buffer ++ s) ∧
        rootOver js job (s ++ job.coinbasePart1Buffer) =
          rootOver js job (s ++ (job.coinbasePart1Buffer ++ job.coinbasePart2Buffer)) := by
  have hsuffix : job.buildHeaderBufferWithCoinbaseSuffix js jobTemplate versionMask nonce s
      timestamp = headerOver js job jobTemplate versionMask nonce timestamp
        (job.coinbasePart1Buffer ++ job.coinbasePart2Buffer ++ s) ↔
      ¬ Writable job versionMask nonce timestamp ∨ rootOver js job (job.coinbasePart1Buffer ++ s) =
        rootOver js job (job.coinbasePart1Buffer ++ job.coinbasePart2Buffer ++ s) := by
    rw [suffix_eq, headerOver_eq_iff]
  have hfront : job.buildHeaderBufferWithCoinbasePrefix js jobTemplate versionMask nonce s
      timestamp = headerOver js job jobTemplate versionMask nonce timestamp
        (s ++ (job.coinbasePart1Buffer ++ job.coinbasePart2Buffer)) ↔
      ¬ Writable job versionMask nonce timestamp ∨ rootOver js job (s ++ job.coinbasePart1Buffer) =
        rootOver js job (s ++ (job.coinbasePart1Buffer ++ job.coinbasePart2Buffer)) := by
    rw [front_eq, headerOver_eq_iff]
  rw [or_and_left, ← hsuffix, ← hfront]
  constructor
  · intro h
    exact ⟨h.suffix, h.front⟩
  · rintro ⟨hsuffix, hfront⟩
    refine ⟨hsuffix, hfront, splice_eq hjs hjob, ?_⟩
    intro hempty
    rw [hsuffix, hfront, splice_eq hjs hjob, hempty, spliced_nil, (new_eq_some hjob).2.1,
      Option.bind_some, List.append_nil, List.nil_append, buildHeaderBuffer_eq]
    exact ⟨rfl, rfl, rfl⟩

end Job

section Sample

open Reference CoinbaseLayout

theorem sample_job : ∃ job, MiningJob.new bitcoinJs .elektronRegtest "1" [⟨alice, 100⟩] attested
      1700000000000 = some job ∧
    Writable job (.int 0) (.int 5) (.int 1700000000) ∧
    rootOver bitcoinJs job (job.coinbasePart1Buffer ++ []) ≠
      rootOver bitcoinJs job (job.coinbasePart1Buffer ++ job.coinbasePart2Buffer ++ []) := by
  obtain ⟨job, hjob⟩ := Option.isSome_iff_exists.mp (show (MiningJob.new bitcoinJs
    .elektronRegtest "1" [⟨alice, 100⟩] attested 1700000000000).isSome by decide +kernel)
  have hall : (MiningJob.new bitcoinJs .elektronRegtest "1" [⟨alice, 100⟩] attested
      1700000000000).all fun job ↦ decide (Writable job (.int 0) (.int 5) (.int 1700000000) ∧
        rootOver bitcoinJs job (job.coinbasePart1Buffer ++ []) ≠
          rootOver bitcoinJs job
            (job.coinbasePart1Buffer ++ job.coinbasePart2Buffer ++ [])) := by
    decide +kernel
  rw [hjob, Option.all_some, decide_eq_true_eq] at hall
  exact ⟨job, hjob, hall⟩

theorem probes_iff_sample : ∃ job, MiningJob.new bitcoinJs .elektronRegtest "1" [⟨alice, 100⟩]
      attested 1700000000000 = some job ∧
    ¬ Probes bitcoinJs job attested (.int 0) (.int 5) [] (.int 1700000000) := by
  obtain ⟨job, hjob, hwritable, hroots⟩ := sample_job
  refine ⟨job, hjob, ?_⟩
  rw [probes_iff bitcoinJs serialises .elektronRegtest "1" [⟨alice, 100⟩] attested 1700000000000
    job hjob]
  rintro (hnot | ⟨hroot, -⟩)
  · exact hnot hwritable
  · exact hroots hroot

theorem not_probes_without_suffix : ¬ ∀ (js : BitcoinJs), js.Serialises → ∀ (network : Network)
    (jobId : String) (payout : List AddressObject) (template : IJobTemplate) (now : ℕ)
    (job : MiningJob), MiningJob.new js network jobId payout template now = some job →
      ∀ (jobTemplate : IJobTemplate) (versionMask nonce : Number) (s : Bytes) (timestamp : Number),
        Probes js job jobTemplate versionMask nonce s timestamp := by
  intro h
  obtain ⟨job, hjob, hwritable, hroots⟩ := sample_job
  have hsuffix := (h bitcoinJs serialises .elektronRegtest "1" [⟨alice, 100⟩] attested
    1700000000000 job hjob attested (.int 0) (.int 5) [] (.int 1700000000)).suffix
  rw [suffix_eq] at hsuffix
  rcases headerOver_eq_iff.mp hsuffix with hnot | hroot
  · exact hnot hwritable
  · exact hroots hroot

end Sample

end ElektronPool.HeaderProbes
