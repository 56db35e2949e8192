import ElektronPool.BlockSubmission
import ElektronPool.CoinbaseLayout
import ElektronPool.MerkleBranch

namespace ElektronPool.NodeBlocks

open Lib Lib.Runs Lib.JavaScript Model Model.View Model.MiningJob Work Shares MerkleBranch

variable {cfg : Config} {js : BitcoinJs} {v v' : View} {e : SessionEvent} {address : String}
  {jobTemplate : IJobTemplate} {jobsService : JobsService} {share : Share} {block : Block Number}
  {blockHex : Bytes} {id : SessionId} {pool : Pool} {now : ℕ}

/-- The merkle branch of a template is that of its transactions, under any coinbase. -/
def Branches (js : BitcoinJs) (jobTemplate : IJobTemplate) : Prop :=
  ∃ txids, jobTemplate.block.transactions.tail.mapM js.getHash = some txids ∧
    ∀ coinbaseHash, jobTemplate.merkleBranch =
      Merkle.siblings (hashPair js) (coinbaseHash :: txids)

/-- The coinbase pays the whole value of the template to an address of the network, and carries
the outputs and the input script that the node asked for. -/
structure Pays (cfg : Config) (jobTemplate : IJobTemplate) (coinbase : Transaction) : Prop where
  outs : ∃ network payee output, cfg.network = some network ∧
    cfg.js.toOutputScript network payee = some output ∧
    coinbase.outs =
      ⟨jobTemplate.blockData.coinbasevalue, output⟩ :: appendedOutputs cfg.js jobTemplate
  script : coinbase.ins.map TxIn.script = [scriptSig cfg.js jobTemplate]
  locktime : coinbase.locktime = (jobTemplate.blockData.height : ℤ) - 1

/-- The block is the one a share was accepted for, and is right in itself. -/
structure Consistent (cfg : Config) (history : List Entry) (share : Share) (block : Block Number)
    (blockHex : Bytes) : Prop where
  acknowledged : Entry.acknowledged share ∈ history
  solved : share.IsBlock cfg.js
  header : cfg.js.blockToBuffer true block = some share.header
  serialised : cfg.js.blockToBuffer false block = some blockHex
  template : ∃ address, Entry.template address share.jobTemplate ∈ history
  parent : block.prevHash = share.jobTemplate.block.prevHash ∧
    block.bits = share.jobTemplate.block.bits
  transactions : ∃ coinbase, Pays cfg share.jobTemplate coinbase ∧
    block.transactions = coinbase :: share.jobTemplate.block.transactions.tail
  merkleRoot : ∃ txids, block.transactions.mapM cfg.js.getHash = some txids ∧
    block.merkleRoot = Merkle.root (hashPair cfg.js) txids

section Branches

theorem branches_of_buildTemplateFor {service service' : JobsService}
    {blockTemplate : IBlockTemplate} (hproof : ProvesFirstLeaf js)
    (h : service.buildTemplateFor js address blockTemplate now = (service', some jobTemplate)) :
    Branches js jobTemplate := by
  obtain ⟨parsed, txids, hparsed, htxids, hbranch⟩ := merkleBranch_of_buildTemplateFor hproof h
  obtain ⟨parsed', hparsed', htransactions⟩ :=
    (JobsService.builds_of_buildTemplateFor h).transactions
  obtain rfl : parsed = parsed' := Option.some.inj (hparsed.symm.trans hparsed')
  refine ⟨txids, ?_, hbranch⟩
  rw [htransactions, List.tail_cons]
  exact htxids

def BranchedBy (js : BitcoinJs) (v : View) : Prop :=
  ∀ address jobTemplate, Entry.template address jobTemplate ∈ v.history.filter isWork →
    Branches js jobTemplate

theorem BranchedBy.of_work (h : BranchedBy js v)
    (hwork : v'.history.filter isWork = v.history.filter isWork) : BranchedBy js v' := by
  intro address jobTemplate hmem
  rw [hwork] at hmem
  exact h address jobTemplate hmem

theorem BranchedBy.sends (h : BranchedBy js v) (hsends : Sends cfg v jobTemplate v') :
    BranchedBy js v' := by
  cases hsends with
  | nothing hquiet => exact h.of_work hquiet.work
  | issued sent hissues hquiet =>
    refine BranchedBy.of_work (v := issue v sent) (fun address jobTemplate hmem ↦ ?_) hquiet.work
    rcases List.mem_cons.mp hmem with hjob | hold
    · cases hjob
    · exact h address jobTemplate hold

theorem BranchedBy.fetches {blockTemplate : IBlockTemplate} {sending : IJobTemplate} {clear : Bool}
    (h : BranchedBy cfg.js v) (hproof : ProvesFirstLeaf cfg.js)
    (hbuild : v.jobsService.buildTemplateFor cfg.js address blockTemplate v.now =
      (jobsService, some jobTemplate))
    (hsends : Sends cfg (({ v with jobsService }.log (.template address jobTemplate)).cacheTemplate
      jobTemplate clear) sending v') : BranchedBy cfg.js v' := by
  have hlogged : BranchedBy cfg.js (({ v with jobsService }.log (.template address jobTemplate)
      ).cacheTemplate jobTemplate clear) := by
    intro address' jobTemplate' hmem
    rcases List.mem_cons.mp hmem with hnew | hold
    · cases hnew
      exact branches_of_buildTemplateFor hproof hbuild
    · exact h address' jobTemplate' hold
  exact hlogged.sends hsends

theorem BranchedBy.step (h : BranchedBy cfg.js v) (hproof : ProvesFirstLeaf cfg.js)
    (hstep : Step cfg v e v') : BranchedBy cfg.js v' := by
  cases hstep with
  | quiet hquiet => exact h.of_work hquiet.work
  | authorized message he hquiet => exact h.of_work hquiet.work
  | requested message purpose _ hquiet => exact h.of_work hquiet.work
  | threw address purpose blockTemplate jobsService he hbuild hquiet => exact h.of_work hquiet.work
  | refreshed address purpose blockTemplate jobsService jobTemplate he hpurpose hbuild hsends =>
    exact h.fetches hproof hbuild hsends
  | retargeted address blockTemplate jobsService jobTemplate timestamp he hbuild hsends =>
    exact h.fetches hproof hbuild hsends
  | renewed jobTemplate timestamp he hcache hsends => exact h.sends hsends
  | resent jobTemplate timestamp he hcache hsends =>
    exact BranchedBy.sends (v := v.cacheTemplate jobTemplate false) h hsends

theorem branched_kept (hproof : ProvesFirstLeaf cfg.js) :
    Kept cfg (fun _ ↦ True) (fun _ _ ↦ True) (BranchedBy cfg.js) where
  tick _ _ h := h
  act _ _ _ _ h _ hact := h.step hproof (step_of_act hact)
  other _ _ v' _ _ _ _ _ h _ hact := by
    have hstep : BranchedBy cfg.js v' := h.step hproof (step_of_act hact)
    exact hstep

theorem branches_of_reachable (hproof : ProvesFirstLeaf cfg.js)
    (h : Reachable (Pool.step cfg) (Pool.start now) pool)
    (hmem : Entry.template address jobTemplate ∈ pool.history) : Branches cfg.js jobTemplate := by
  have hbranched : BranchedBy cfg.js (pool.view 0) := by
    refine (branched_kept hproof).reach (fun _ _ _ ↦ trivial) (fun _ _ _ hmem ↦ ?_)
      (reachable_of_reach h) 0
    cases hmem
  exact hbranched address jobTemplate (List.mem_filter.mpr ⟨hmem, rfl⟩)

end Branches

section Calls

def Submits (cfg : Config) (history : List Entry) : Prop :=
  ∀ id share block blockHex, Entry.call id (some share) (.submitBlock block blockHex) ∈ history →
    share.IsBlock cfg.js ∧
      share.job.copyAndUpdateBlock cfg.js share.jobTemplate share.versionMask share.nonce
        share.timestamp = some block ∧
      cfg.js.blockToBuffer false block = some blockHex

theorem Submits.entered (h : Submits cfg v.history) (hentered : Entered cfg v e v') :
    Submits cfg v'.history := by
  intro id share block blockHex hnew
  by_cases hold : Entry.call id (some share) (.submitBlock block blockHex) ∈ v.history
  · exact h id share block blockHex hold
  have hfollowed {s : Share} {pending : ℕ} {entries : List Entry} {added : List Task}
      (hfollows : Follows v s pending entries added) :
      Entry.call id (some share) (.submitBlock block blockHex) ∉ entries := by
    intro hmem
    obtain hentry | ⟨call, hentry, hsanctioned⟩ := hfollows.records _ hmem <;> cases hentry
    exact hsanctioned.noBlock block blockHex rfl
  cases hentered with
  | nothing hbooked => exact absurd (hbooked.entered_of_new rfl hnew hold) List.not_mem_nil
  | evaluated submission s added he hshare hbooked hadded =>
    cases List.mem_singleton.mp (hbooked.entered_of_new rfl hnew hold)
  | continued s wait rest entries added hpopped hbooked hfollows =>
    exact absurd (hbooked.entered_of_new rfl hnew hold) (hfollowed hfollows)
  | answered s rest entries added hpopped hreplied hbooked hanswers =>
    rcases List.mem_append.mp (hbooked.entered_of_new rfl hnew hold) with hmem | hmem
    · cases hanswers with
      | share _ hfollows => exact absurd hmem (hfollowed hfollows)
      | block block' blockHex' rest hblock hcopy hhex hentries _ =>
        rw [hentries] at hmem
        cases List.mem_singleton.mp hmem
        exact ⟨hblock, hcopy, hhex⟩
      | threw _ _ hentries _ =>
        rw [hentries] at hmem
        cases hmem
    · cases List.mem_singleton.mp hmem

theorem submits_kept : Kept cfg (fun _ ↦ True) (fun _ _ ↦ True) fun v ↦ Submits cfg v.history where
  tick _ _ h := h
  act _ _ _ _ h _ hact := h.entered (deal_of_act hact).entered
  other _ _ v' _ _ _ _ _ h _ hact := by
    have hsubmits : Submits cfg v'.history := h.entered (deal_of_act hact).entered
    exact hsubmits

theorem submits_of_reachable (h : Reachable (Pool.step cfg) (Pool.start now) pool) :
    Submits cfg pool.history := by
  refine submits_kept.reach (fun _ _ _ ↦ trivial) (fun _ _ _ _ _ hmem ↦ ?_) (reachable_of_reach h) 0
  cases hmem

end Calls

section Blocks

theorem coinbase_of_grounds (h : Reachable (Pool.step cfg) (Pool.start now) pool)
    (hgrounds : Grounds cfg pool.history share) :
    Pays cfg share.jobTemplate share.job.coinbaseTransaction ∧
      share.job.merkleBranchBuffers = share.jobTemplate.merkleBranch := by
  have hregistry := (sound_of_reachable h 0).registry
  obtain ⟨s, t, hjob⟩ := hgrounds.job
  obtain ⟨a, htemplate, hid⟩ := hgrounds.template
  obtain ⟨⟨address, base, timestamp, clearJobs, hbase, rfl⟩,
    ⟨network, payee, rotationState, hnetwork, hvalid, hnew⟩, -⟩ :=
    hregistry.built _ _ _ (List.mem_filter.mpr ⟨hjob, rfl⟩)
  obtain ⟨hcoinbase, -, hbranch, -, htemplateId, -, -⟩ := new_eq_some hnew
  obtain ⟨-, rfl⟩ := hregistry.templateUnique _ _ _ _ (List.mem_filter.mpr ⟨htemplate, rfl⟩) hbase
    (hid.trans htemplateId)
  obtain ⟨output, houtput⟩ := Option.isSome_iff_exists.mp hvalid
  refine ⟨⟨⟨network, payee, output, hnetwork, houtput, ?_⟩, ?_, ?_⟩, hbranch⟩
  · rw [hcoinbase, coinbaseTransactionOf, CoinbaseLayout.outs_createCoinbaseTransaction,
      getPaymentScript, houtput]
    rfl
  · rw [hcoinbase]
    rfl
  · rw [hcoinbase]
    rfl

theorem root_of_branches (hjs : js.Serialises) (hbranches : Branches js share.jobTemplate)
    (hbranch : share.job.merkleBranchBuffers = share.jobTemplate.merkleBranch) {network : Network}
    {jobId : String} {payout : List AddressObject} {template : IJobTemplate} {builtAt : ℕ}
    (hnew : MiningJob.new js network jobId payout template builtAt = some share.job) :
    ∃ txids, (share.job.coinbaseTransaction :: share.jobTemplate.block.transactions.tail).mapM
        js.getHash = some txids ∧
      some (SubmittedBlock.merkleRootOf js share.job) = Merkle.root (hashPair js) txids := by
  obtain ⟨txids, htxids, hsiblings⟩ := hbranches
  obtain ⟨-, hhash⟩ := SubmittedBlock.cloneCoinbaseTransaction_eq hjs hnew
  refine ⟨_, by rw [List.mapM_cons, hhash, htxids]; rfl, ?_⟩
  rw [Merkle.root_cons, SubmittedBlock.merkleRootOf, calculateMerkleRootHash_eq, hbranch, hsiblings]

/-- Every block that is handed to the node, in any run, is right in itself: it carries the header
that was solved, the root of its own transactions, those of the template, and a coinbase that
pays what the node asked for. -/
theorem consistent_of_reachable (cfg : Config) (hjs : cfg.js.Serialises)
    (hproof : ProvesFirstLeaf cfg.js) (now : ℕ) (pool : Pool)
    (h : Reachable (Pool.step cfg) (Pool.start now) pool) (id : SessionId) (share : Share)
    (block : Block Number) (blockHex : Bytes)
    (hcall : Entry.call id (some share) (.submitBlock block blockHex) ∈ pool.history) :
    Consistent cfg pool.history share block blockHex := by
  have hledger := ledger_of_reachable h share.session
  obtain ⟨-, hacknowledged⟩ := hledger.called id share _ hcall
  have hgrounds := grounds_of_reachable h (hledger.evaluated_of_acknowledged rfl hacknowledged)
  obtain ⟨hsolved, hcopy, hhex⟩ := submits_of_reachable h id share block blockHex hcall
  obtain ⟨_, _, _, _, _, hnew⟩ :=
    BlockSubmission.new_of_grounds (sound_of_reachable h share.session) hgrounds
  obtain ⟨hpays, hbranch⟩ := coinbase_of_grounds h hgrounds
  obtain ⟨address, htemplate, -⟩ := hgrounds.template
  have hheader := SubmittedBlock.blockToBuffer_header hjs hnew hcopy hgrounds.header
  rw [SubmittedBlock.copyAndUpdateBlock_eq hjs hnew] at hcopy
  obtain rfl := Option.some.inj hcopy
  exact
    { acknowledged := hacknowledged
      solved := hsolved
      header := hheader
      serialised := hhex
      template := ⟨address, htemplate⟩
      parent := ⟨rfl, rfl⟩
      transactions := ⟨_, hpays, rfl⟩
      merkleRoot := root_of_branches hjs (branches_of_reachable hproof h htemplate) hbranch hnew }

end Blocks

section Sample

open Reference

def handsBlock : Entry → Bool
  | .call _ (some _) (.submitBlock _ _) => true
  | _ => false

theorem consistent_of_reachable_solution :
    ∃ pool id share block blockHex,
      Reachable (Pool.step settings) (Pool.start 1700000000000) pool ∧
      Entry.call id (some share) (.submitBlock block blockHex) ∈ pool.history ∧
      Consistent settings pool.history share block blockHex := by
  obtain ⟨pool, hpool, hp⟩ := Reachable.of_any (Pool.step settings) (Pool.start 1700000000000)
    (BlockSubmission.solving (easyOpening 0 alice) ++
      [BlockSubmission.handling, BlockSubmission.handling])
    (fun pool ↦ pool.history.any handsBlock) (by decide +kernel)
  obtain ⟨entry, hmem, hhands⟩ := List.any_eq_true.mp hp
  rw [handsBlock.eq_def] at hhands
  split at hhands
  case h_1 id share block blockHex =>
    exact ⟨pool, id, share, block, blockHex, hpool, hmem,
      consistent_of_reachable settings serialises provesFirstLeaf 1700000000000 pool hpool id share
        block blockHex hmem⟩
  case h_2 => cases hhands

end Sample

end ElektronPool.NodeBlocks
