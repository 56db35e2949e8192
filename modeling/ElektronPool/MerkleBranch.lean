import ElektronPool.Lib.Merkle
import ElektronPool.Reference

namespace ElektronPool.MerkleBranch

open Lib Model Model.JobsService

variable {js : BitcoinJs} {blockTemplate : IBlockTemplate} {service service' : JobsService}
  {address : String} {now timestamp : ℕ} {block : Block ℕ} {merkleBranch : List Hash}
  {jobTemplate : IJobTemplate}

def hashPair (js : BitcoinJs) (left right : Hash) : Hash := js.hash256 (left.toList ++ right.toList)

/-- The documented layout of merkle-lib's proof of a first leaf. -/
def ProvesFirstLeaf (js : BitcoinJs) : Prop :=
  ∀ leaf leaves, js.merkleProof (leaf :: leaves) = Merkle.proof (hashPair js) (leaf :: leaves)

theorem calculateMerkleRootHash_eq (js : BitcoinJs) (newRoot : Hash) (merkleBranches : List Hash) :
    MiningJob.calculateMerkleRootHash js newRoot merkleBranches =
      merkleBranches.foldl (hashPair js) newRoot := rfl

/-- The branch of a template is the way up from the place of the coinbase. -/
theorem merkleBranch_of_assembleBlock (hproof : ProvesFirstLeaf js)
    (h : assembleBlock js blockTemplate timestamp = some (block, merkleBranch)) :
    ∃ parsed txids, blockTemplate.transactions.mapM js.transactionFromBuffer = some parsed ∧
      parsed.mapM js.getHash = some txids ∧
      ∀ coinbaseHash, merkleBranch = Merkle.siblings (hashPair js) (coinbaseHash :: txids) := by
  simp only [assembleBlock, Option.bind_eq_bind, Option.bind_eq_some_iff, Option.pure_def,
    Option.some.injEq, Prod.mk.injEq, List.mapM_cons] at h
  obtain ⟨parsed, hparsed, leaves, ⟨placeholder, -, txids, htxids, rfl⟩, -, rfl⟩ := h
  refine ⟨parsed, txids, hparsed, htxids, ?_⟩
  intro coinbaseHash
  rw [hproof, Merkle.drop_dropLast_proof]
  apply Merkle.siblings_cons

theorem merkleBranch_of_buildTemplateFor (hproof : ProvesFirstLeaf js)
    (h : service.buildTemplateFor js address blockTemplate now = (service', some jobTemplate)) :
    ∃ parsed txids, blockTemplate.transactions.mapM js.transactionFromBuffer = some parsed ∧
      parsed.mapM js.getHash = some txids ∧
      ∀ coinbaseHash, jobTemplate.merkleBranch =
        Merkle.siblings (hashPair js) (coinbaseHash :: txids) := by
  simp only [buildTemplateFor] at h
  cases hassemble : assembleBlock js blockTemplate
      (if now / 1000 < blockTemplate.mintime then blockTemplate.mintime else now / 1000) with
  | none =>
    rw [hassemble] at h
    cases h
  | some assembled =>
    rw [hassemble] at h
    cases h
    exact merkleBranch_of_assembleBlock hproof hassemble

/-- Whatever coinbase takes the first place, the branch of the template that was built
takes it to the merkle root of the block. -/
theorem calculateMerkleRootHash_eq_root (js : BitcoinJs) (hproof : ProvesFirstLeaf js)
    (service service' : JobsService) (address : String) (blockTemplate : IBlockTemplate) (now : ℕ)
    (jobTemplate : IJobTemplate)
    (h : service.buildTemplateFor js address blockTemplate now = (service', some jobTemplate)) :
    ∃ parsed txids, blockTemplate.transactions.mapM js.transactionFromBuffer = some parsed ∧
      parsed.mapM js.getHash = some txids ∧
      ∀ coinbaseHash,
        some (MiningJob.calculateMerkleRootHash js coinbaseHash jobTemplate.merkleBranch) =
          Merkle.root (hashPair js) (coinbaseHash :: txids) := by
  obtain ⟨parsed, txids, hparsed, htxids, hbranch⟩ := merkleBranch_of_buildTemplateFor hproof h
  refine ⟨parsed, txids, hparsed, htxids, ?_⟩
  intro coinbaseHash
  rw [Merkle.root_cons, calculateMerkleRootHash_eq, ← hbranch coinbaseHash]

section Sample

open Reference

theorem nextLayer_eq (l : List Hash) : nextLayer l = Merkle.nextLevel (hashPair bitcoinJs) l := by
  induction l using nextLayer.induct with
  | case1 left right rest ih =>
    rw [nextLayer, Merkle.nextLevel, ih]
    rfl
  | case2 left => rfl
  | case3 => rfl

theorem climb_eq (fuel : ℕ) (l : List Hash) (h : l.length ≤ fuel) :
    climb fuel l =
      (Merkle.siblings (hashPair bitcoinJs) l, (Merkle.root (hashPair bitcoinJs) l).toList) := by
  induction fuel generalizing l with
  | zero =>
    obtain rfl := List.length_eq_zero_iff.mp (Nat.le_zero.mp h)
    rw [climb, Merkle.siblings, Merkle.root] <;> simp
  | succ fuel ih =>
    cases l with
    | nil => rw [climb, Merkle.siblings, Merkle.root] <;> simp
    | cons left rest =>
      cases rest with
      | nil => rw [climb, Merkle.siblings, Merkle.root] <;> simp
      | cons right rest =>
        have hnext : (nextLayer (left :: right :: rest)).length ≤ fuel := by
          rw [nextLayer_eq]
          have hlt := Merkle.length_nextLevel_lt (hashPair bitcoinJs) left right rest
          omega
        rw [climb, ih _ hnext, nextLayer_eq, Merkle.siblings, Merkle.root]
        rfl

theorem provesFirstLeaf : ProvesFirstLeaf bitcoinJs := by
  intro leaf leaves
  change merkleProof (leaf :: leaves) = _
  rw [merkleProof, climb_eq _ _ le_rfl]
  cases leaves with
  | nil => rw [Merkle.siblings, Merkle.root, Merkle.proof] <;> simp
  | cons right rest =>
    rw [Merkle.siblings, Merkle.proof, Merkle.root_cons]
    rfl

def spending (locktime : ℤ) : Transaction where
  version := 2
  locktime
  ins := [⟨hashOf 5, 0, [], 0, []⟩]
  outs := []

def crowded : IBlockTemplate :=
  { answer 101 (hashOf 7) with
    transactions := [0, 1, 2, 3].map fun locktime ↦ serialise true (spending locktime) }

theorem calculateMerkleRootHash_eq_root_crowded :
    ∃ service' jobTemplate,
      buildTemplateFor {} bitcoinJs alice crowded 0 = (service', some jobTemplate) ∧
      jobTemplate.merkleBranch.length = 3 ∧
      ∃ parsed txids, crowded.transactions.mapM bitcoinJs.transactionFromBuffer = some parsed ∧
        parsed.mapM bitcoinJs.getHash = some txids ∧
        ∀ coinbaseHash,
          some (MiningJob.calculateMerkleRootHash bitcoinJs coinbaseHash jobTemplate.merkleBranch) =
            Merkle.root (hashPair bitcoinJs) (coinbaseHash :: txids) := by
  obtain ⟨jobTemplate, hsome, hlength⟩ := (Option.any_eq_true
    (fun jobTemplate : IJobTemplate ↦ decide (jobTemplate.merkleBranch.length = 3))
    (buildTemplateFor {} bitcoinJs alice crowded 0).2).mp (by decide +kernel)
  have hbuild : buildTemplateFor {} bitcoinJs alice crowded 0 =
      ((buildTemplateFor {} bitcoinJs alice crowded 0).1, some jobTemplate) :=
    Prod.ext rfl hsome
  exact ⟨_, jobTemplate, hbuild, of_decide_eq_true hlength,
    calculateMerkleRootHash_eq_root bitcoinJs provesFirstLeaf {} _ alice crowded 0 jobTemplate hbuild⟩

end Sample

end ElektronPool.MerkleBranch
