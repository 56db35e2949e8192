import ElektronPool.Lib.HashPath
import ElektronPool.CoinbaseLayout
import ElektronPool.DoubleCredit
import ElektronPool.Payout

namespace ElektronPool.WorkBinding

open Lib Lib.Runs Lib.Bytes Lib.Codec Lib.JavaScript Model Model.View Model.MiningJob Work Shares
open Payout (PaysTo script)
open SubmittedBlock (merkleRootOf)
open CoinbaseLayout (WritesLayout transactionLayout inputLayout outputLayout)
open DoubleCredit (headerParts header_eq layout_injective)
open Reference (Serialisable strip decodes_ins decodes_outs vector_writeTxIn_strip)

variable {js : BitcoinJs} {cfg : Config} {tx tx' : Transaction} {job job' : MiningJob}
  {jobTemplate : IJobTemplate} {network : Network} {now : ℕ} {pool : Pool} {share share' : Share}

section Layout

theorem eq_of_decodes {α : Type} {write : α → Bytes} {read : Reader α} {a a' : α}
    {rest rest' : Bytes} (h : Decodes write read a) (h' : Decodes write read a')
    (heq : write a ++ rest = write a' ++ rest') : a = a' ∧ rest = rest' := by
  have hread := h rest
  rw [heq, h' rest'] at hread
  cases hread
  exact ⟨rfl, rfl⟩

theorem eq_of_transactionLayout (h : Serialisable tx) (h' : Serialisable tx')
    (heq : transactionLayout tx = transactionLayout tx') :
    tx.version = tx'.version ∧ tx.ins.map strip = tx'.ins.map strip ∧ tx.outs = tx'.outs ∧
      tx.locktime = tx'.locktime := by
  have hins := decodes_ins h
  have hins' := decodes_ins h'
  rw [transactionLayout, transactionLayout, List.append_assoc, List.append_assoc, List.append_assoc,
    List.append_assoc] at heq
  obtain ⟨hversion, heq⟩ := List.append_inj heq (by simp only [length_littleEndian])
  obtain ⟨hsame, heq⟩ := eq_of_decodes hins hins'
    (by rw [vector_writeTxIn_strip, vector_writeTxIn_strip]; exact heq)
  obtain ⟨houts, hlocktime⟩ := eq_of_decodes (decodes_outs h) (decodes_outs h') heq
  have hword := BitVec.eq_of_toNat_eq (littleEndian_inj (BitVec.isLt _) (BitVec.isLt _) hversion)
  have hlt := h.locktime
  have hlt' := h'.locktime
  have htime := littleEndian_inj (by omega) (by omega) hlocktime
  refine ⟨?_, hsame, houts, by omega⟩
  have hint := congrArg BitVec.toInt hword
  rw [BitVec.toInt_ofInt, BitVec.toInt_ofInt,
    Int.bmod_eq_of_le (by have := h.version; omega) (by have := h.version; omega),
    Int.bmod_eq_of_le (by have := h'.version; omega) (by have := h'.version; omega)] at hint
  exact hint

theorem one_le_length_varInt (n : ℕ) : 1 ≤ (varInt n).length := by
  rw [varInt]
  split_ifs <;> simp [length_littleEndian]

end Layout

section Coinbase

/-- What is relied on in `tx.__toBuffer()` beyond its layout: it throws where a number is out
of the range it is written in. -/
def ChecksRanges (js : BitcoinJs) : Prop :=
  ∀ tx, (js.transactionNoWitness tx).isSome → Serialisable tx

/-- What is relied on in `address.toOutputScript`: no script is shorter than the one of a future
segwit address, a version and a pushed program of two bytes. -/
def PaysPrograms (js : BitcoinJs) : Prop :=
  ∀ network address output, js.toOutputScript network address = some output → 4 ≤ output.length

/-- The coinbase that a header commits to. -/
def coinbaseOf (job : MiningJob) : Bytes := job.coinbasePart1Buffer ++ job.coinbasePart2Buffer

theorem one_le_length_scriptSig (js : BitcoinJs) (jobTemplate : IJobTemplate) :
    1 ≤ (MiningJob.scriptSig js jobTemplate).length := by
  rw [MiningJob.scriptSig]
  split
  · simp
  · dsimp only
    split_ifs <;> simp

theorem coinbaseTransactionOf_single (js : BitcoinJs) (network : Network) (payee : AddressObject)
    (jobTemplate : IJobTemplate) :
    coinbaseTransactionOf js network [payee] jobTemplate =
      { version := 2
        locktime := (jobTemplate.blockData.height : ℤ) - 1
        ins := [⟨zeroHash, 0xffffffff, MiningJob.scriptSig js jobTemplate, 0xfffffffe,
          [List.replicate 32 0]⟩]
        outs := ⟨jobTemplate.blockData.coinbasevalue, getPaymentScript js network payee.address⟩ ::
          appendedOutputs js jobTemplate } := by
  rw [coinbaseTransactionOf, CoinbaseLayout.outs_createCoinbaseTransaction]
  rfl

theorem length_coinbase {payee : AddressObject} (hpays : PaysPrograms js)
    (hvalid : (js.toOutputScript network payee.address).isSome) :
    64 < (transactionLayout (coinbaseTransactionOf js network [payee] jobTemplate)).length := by
  obtain ⟨output, houtput⟩ := Option.isSome_iff_exists.mp hvalid
  have hprogram := hpays network payee.address output houtput
  have hscript := one_le_length_scriptSig js jobTemplate
  have hhash : zeroHash.toList.length = 32 := zeroHash.2
  have hins := one_le_length_varInt (0 + 1)
  have hlength := one_le_length_varInt (MiningJob.scriptSig js jobTemplate).length
  have hpayout := one_le_length_varInt output.length
  have houts := one_le_length_varInt ((appendedOutputs js jobTemplate).length + 1)
  rw [coinbaseTransactionOf_single, getPaymentScript, houtput, Option.getD_some, transactionLayout]
  simp only [vector, inputLayout, outputLayout, varSlice, List.length_append, List.length_cons,
    List.length_nil, List.flatMap_cons, List.flatMap_nil, length_littleEndian, hhash]
  omega

theorem eq_of_coinbase {payee payee' : AddressObject} {template template' : IJobTemplate}
    {network' : Network} (hlayout : WritesLayout js) (hranges : ChecksRanges js)
    {bytes : Bytes}
    (h : js.transactionNoWitness (coinbaseTransactionOf js network [payee] template) = some bytes)
    (h' : js.transactionNoWitness (coinbaseTransactionOf js network' [payee'] template') =
      some bytes) :
    coinbaseTransactionOf js network [payee] template =
      coinbaseTransactionOf js network' [payee'] template' := by
  obtain ⟨-, hins, houts, hlocktime⟩ := eq_of_transactionLayout
    (hranges _ (by rw [h, Option.isSome_some])) (hranges _ (by rw [h', Option.isSome_some]))
    ((hlayout _ _ h).symm.trans (hlayout _ _ h'))
  rw [coinbaseTransactionOf_single, coinbaseTransactionOf_single] at hins houts hlocktime ⊢
  simp only [List.map_cons, List.map_nil, strip, List.cons.injEq, TxIn.mk.injEq, and_true,
    true_and] at hins
  simp only [Transaction.mk.injEq, List.cons.injEq, TxIn.mk.injEq, and_true, true_and]
  exact ⟨hlocktime, hins, List.cons.inj houts⟩

end Coinbase

section Jobs

def hashPair (left right : Hash) : Bytes := left.toList ++ right.toList

theorem hashPair_inj (a b c d : Hash) (h : hashPair a b = hashPair c d) : a = c ∧ b = d := by
  obtain ⟨hleft, hright⟩ := List.append_inj h (a.2.trans c.2.symm)
  exact ⟨Subtype.ext hleft, Subtype.ext hright⟩

theorem length_hashPair (a b : Hash) : (hashPair a b).length = 64 := by
  rw [hashPair, List.length_append]
  have ha : a.toList.length = 32 := a.2
  have hb : b.toList.length = 32 := b.2
  omega

theorem merkleRootOf_eq (js : BitcoinJs) (job : MiningJob) :
    merkleRootOf js job =
      HashPath.climb js.hash256 hashPair (coinbaseOf job) job.merkleBranchBuffers := rfl

/-- The byte strings that are hashed for the merkle root of a job. -/
def hashedFor (js : BitcoinJs) (job : MiningJob) : List Bytes :=
  HashPath.hashed js.hash256 hashPair (coinbaseOf job) job.merkleBranchBuffers

/-- Two byte strings that are hashed for the jobs differ and have one hash. -/
def Collide (js : BitcoinJs) (job job' : MiningJob) : Prop :=
  HashPath.Collide js.hash256 (hashedFor js job) (hashedFor js job')

instance : Decidable (Collide js job job') := inferInstanceAs (Decidable (HashPath.Collide _ _ _))

/-- A job pays one valid address, out of a template. -/
def Pays (js : BitcoinJs) (job : MiningJob) : Prop :=
  ∃ network payee jobId template now, (js.toOutputScript network payee).isSome ∧
    MiningJob.new js network jobId [⟨payee, 100⟩] template now = some job

theorem eq_or_collide (hlayout : WritesLayout js) (hranges : ChecksRanges js)
    (hpays : PaysPrograms js) (h : Pays js job) (h' : Pays js job')
    (hroot : merkleRootOf js job = merkleRootOf js job') :
    (job.coinbaseTransaction = job'.coinbaseTransaction ∧
      job.merkleBranchBuffers = job'.merkleBranchBuffers) ∨ Collide js job job' := by
  obtain ⟨network, payee, jobId, template, now, hvalid, hnew⟩ := h
  obtain ⟨network', payee', jobId', template', now', hvalid', hnew'⟩ := h'
  obtain ⟨hcoinbase, hbytes, -⟩ := MiningJob.new_eq_some hnew
  obtain ⟨hcoinbase', hbytes', -⟩ := MiningJob.new_eq_some hnew'
  rw [hcoinbase] at hbytes
  rw [hcoinbase'] at hbytes'
  have hlong : 64 < (coinbaseOf job).length := by
    rw [coinbaseOf, hlayout _ _ hbytes]
    exact length_coinbase hpays hvalid
  have hlong' : 64 < (coinbaseOf job').length := by
    rw [coinbaseOf, hlayout _ _ hbytes']
    exact length_coinbase hpays hvalid'
  have hleaf (a b : Hash) : coinbaseOf job ≠ hashPair a b := fun heq ↦ by
    rw [heq, length_hashPair] at hlong
    exact lt_irrefl _ hlong
  have hleaf' (a b : Hash) : coinbaseOf job' ≠ hashPair a b := fun heq ↦ by
    rw [heq, length_hashPair] at hlong'
    exact lt_irrefl _ hlong'
  rw [merkleRootOf_eq, merkleRootOf_eq] at hroot
  rcases HashPath.eq_or_collide_of_climb hashPair_inj hleaf hleaf' hroot with
    ⟨hsame, hbranch⟩ | hcollide
  · refine .inl ⟨?_, hbranch⟩
    rw [hcoinbase, hcoinbase']
    refine eq_of_coinbase hlayout hranges hbytes ?_
    rw [hbytes']
    exact congrArg some hsame.symm
  · exact .inr hcollide

end Jobs

section Shares

/-- The shares are proofs of the same work: of one block, but for the part that is rolled. -/
structure SameBlock (cfg : Config) (share share' : Share) : Prop where
  coinbase : share.job.coinbaseTransaction = share'.job.coinbaseTransaction
  merkleBranch : share.job.merkleBranchBuffers = share'.job.merkleBranchBuffers
  prevHash : share.jobTemplate.block.prevHash = share'.jobTemplate.block.prevHash
  bits : share.jobTemplate.block.bits = share'.jobTemplate.block.bits
  payee : ∀ address address', PaysTo cfg share.job address → PaysTo cfg share'.job address' →
    script cfg address = script cfg address'

theorem payee_eq (h : job.coinbaseTransaction = job'.coinbaseTransaction) {address address' : String}
    (hpays : PaysTo cfg job address) (hpays' : PaysTo cfg job' address') :
    script cfg address = script cfg address' := by
  obtain ⟨output, houtput, houts⟩ := hpays
  obtain ⟨output', houtput', houts'⟩ := hpays'
  rw [houtput, houtput', ← houts, ← houts', h]

theorem pays_of_grounds (hreach : Reachable (Pool.step cfg) (Pool.start now) pool)
    (h : Grounds cfg pool.history share) : Pays cfg.js share.job := by
  obtain ⟨s, t, hjob⟩ := h.job
  obtain ⟨network, payee, rotationState, -, hvalid, hnew⟩ :=
    ((sound_of_reachable hreach s).registry.built s share.job t
      (List.mem_filter.mpr ⟨hjob, rfl⟩)).made
  exact ⟨network, payee, _, _, _, hvalid, hnew⟩

/-- A proof of work is bound to what it pays. Two shares with one header, of any sessions, are
for one coinbase, on one merkle branch and one parent, or two of the byte strings hashed for
their jobs collide. -/
theorem sameBlock_of_header (cfg : Config) (hlayout : WritesLayout cfg.js)
    (hranges : ChecksRanges cfg.js) (hpays : PaysPrograms cfg.js) (now : ℕ) (pool : Pool)
    (hreach : Reachable (Pool.step cfg) (Pool.start now) pool) (share share' : Share)
    (h : Entry.evaluated share ∈ pool.history) (h' : Entry.evaluated share' ∈ pool.history)
    (hheader : share.header = share'.header) :
    SameBlock cfg share share' ∨ Collide cfg.js share.job share'.job := by
  have hgrounds := grounds_of_reachable hreach h
  have hgrounds' := grounds_of_reachable hreach h'
  have hparts : headerParts cfg.js share.job share.jobTemplate share.submission =
      headerParts cfg.js share'.job share'.jobTemplate share'.submission := by
    apply layout_injective
    rw [← header_eq hgrounds.header, ← header_eq hgrounds'.header, hheader]
  simp only [headerParts, DoubleCredit.HeaderParts.mk.injEq] at hparts
  obtain ⟨-, hprev, hroot, -, hbits, -⟩ := hparts
  rcases eq_or_collide hlayout hranges hpays (pays_of_grounds hreach hgrounds)
    (pays_of_grounds hreach hgrounds') hroot with ⟨hcoinbase, hbranch⟩ | hcollide
  · exact .inl ⟨hcoinbase, hbranch, hprev, hbits, fun _ _ ↦ payee_eq hcoinbase⟩
  · exact .inr hcollide

end Shares

section Sample

open Reference DoubleCredit

theorem checksRanges : ChecksRanges bitcoinJs := by
  intro tx h
  obtain ⟨buffer, hbuffer⟩ := Option.isSome_iff_exists.mp h
  change toBuffer false tx = some buffer at hbuffer
  rw [toBuffer, Option.ite_none_right_eq_some] at hbuffer
  exact hbuffer.1

theorem paysPrograms : PaysPrograms bitcoinJs := by
  intro network address output h
  change toOutputScript network address = some output at h
  rw [toOutputScript.eq_def] at h
  split at h
  · split_ifs at h
    all_goals
      cases h
      decide
  · cases h

def isTwin (share share' : Share) : Bool :=
  share.submission.ntime != share'.submission.ntime && share.header == share'.header &&
    !decide (Collide bitcoinJs share.job share'.job)

def hasTwins (history : List Entry) : Bool :=
  (history.filterMap evaluation).any fun share ↦ (history.filterMap evaluation).any (isTwin share)

theorem evaluated_of_mem {history : List Entry} (h : share ∈ history.filterMap evaluation) :
    Entry.evaluated share ∈ history := by
  obtain ⟨entry, hentry, hshare⟩ := List.mem_filterMap.mp h
  rw [evaluation.eq_def] at hshare
  split at hshare
  · cases hshare
    exact hentry
  · cases hshare

theorem sameBlock_of_header_capitals :
    ∃ pool share share', Reachable (Pool.step settings) (Pool.start 1700000000000) pool ∧
      Entry.evaluated share ∈ pool.history ∧ Entry.evaluated share' ∈ pool.history ∧
      share ≠ share' ∧ share.header = share'.header ∧ SameBlock settings share share' := by
  obtain ⟨pool, hpool, hp⟩ := Reachable.of_any (Pool.step settings) (Pool.start 1700000000000)
    (resubmitting capitalShare) (fun pool ↦ hasTwins pool.history) (by decide +kernel)
  obtain ⟨share, hshare, htwin⟩ := List.any_eq_true.mp hp
  obtain ⟨share', hshare', htwin⟩ := List.any_eq_true.mp htwin
  simp only [isTwin, Bool.and_eq_true, bne_iff_ne, beq_iff_eq, Bool.not_eq_true',
    decide_eq_false_iff_not] at htwin
  obtain ⟨⟨hne, hheader⟩, hcollide⟩ := htwin
  have hevaluated := evaluated_of_mem hshare
  have hevaluated' := evaluated_of_mem hshare'
  refine ⟨pool, share, share', hpool, hevaluated, hevaluated', fun heq ↦ hne (by rw [heq]),
    hheader, ?_⟩
  exact (sameBlock_of_header settings CoinbaseLayout.writesLayout checksRanges paysPrograms
    1700000000000 pool hpool share share' hevaluated hevaluated' hheader).resolve_right hcollide

end Sample

end ElektronPool.WorkBinding
