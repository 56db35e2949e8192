import ElektronPool.SubmittedBlock

namespace ElektronPool.CoinbaseLayout

open Lib Lib.Bytes Lib.Codec Model Model.MiningJob

def inputLayout (input : TxIn) : Bytes :=
  input.hash.toList ++ littleEndian 4 input.index ++ varSlice input.script ++
    littleEndian 4 input.sequence

def outputLayout (output : TxOut) : Bytes :=
  littleEndian 8 output.value.toNat ++ varSlice output.script

def transactionLayout (tx : Transaction) : Bytes :=
  littleEndian 4 (BitVec.ofInt 32 tx.version).toNat ++ vector inputLayout tx.ins ++
    vector outputLayout tx.outs ++ littleEndian 4 tx.locktime.toNat

/-- What is relied on in `tx.__toBuffer()`: where it does not throw, it writes this format. -/
def WritesLayout (js : BitcoinJs) : Prop :=
  ∀ tx buffer, js.transactionNoWitness tx = some buffer → buffer = transactionLayout tx

/-- The first part of the coinbase as it is attested, up to the end of the scriptSig. -/
def coinb1 (scriptSig : Bytes) : Bytes :=
  [0x02, 0x00, 0x00, 0x00] ++ [0x01] ++ List.replicate 32 0x00 ++ List.replicate 4 0xff ++
    UInt8.ofNat scriptSig.length :: scriptSig

def coinb2 (coinbasevalue : ℕ) (payout : Bytes) (required : List TxOut) (height : ℕ) : Bytes :=
  [0xfe, 0xff, 0xff, 0xff] ++ varInt (1 + required.length) ++
    (littleEndian 8 coinbasevalue ++ varSlice payout) ++ required.flatMap outputLayout ++
    littleEndian 4 (height - 1)

section Layout

variable {js : BitcoinJs} {network : Network} {recipient : AddressObject}
  {template : IJobTemplate} {scriptSig payout : Bytes}

/-- The payout takes the whole reward, whatever part of it the percentage rounds to. -/
theorem outs_createCoinbaseTransaction (js : BitcoinJs) (network : Network)
    (recipient : AddressObject) (reward : ℕ) :
    (createCoinbaseTransaction js network [recipient] reward).outs =
      [⟨reward, getPaymentScript js network recipient.address⟩] := by
  simp [createCoinbaseTransaction]

theorem varInt_of_lt {n : ℕ} (h : n < 253) : varInt n = [UInt8.ofNat n] := by
  rw [varInt, if_pos h]
  rfl

theorem vector_inputLayout (hlt : scriptSig.length < 253) (witness : List Bytes) :
    vector inputLayout [⟨zeroHash, 0xffffffff, scriptSig, 0xfffffffe, witness⟩] =
      [0x01] ++ List.replicate 32 0x00 ++ List.replicate 4 0xff ++
        UInt8.ofNat scriptSig.length :: scriptSig ++ [0xfe, 0xff, 0xff, 0xff] := by
  have hcount : varInt 1 = [0x01] := by decide
  have hhash : zeroHash.toList = List.replicate 32 0x00 := rfl
  have hindex : littleEndian 4 0xffffffff = List.replicate 4 0xff := by decide
  have hsequence : littleEndian 4 0xfffffffe = [0xfe, 0xff, 0xff, 0xff] := by decide
  rw [vector, List.length_singleton, hcount, List.flatMap_singleton, inputLayout, hhash, hindex,
    varSlice, varInt_of_lt hlt, hsequence]
  simp only [List.append_assoc, List.cons_append, List.nil_append]

theorem vector_outputLayout (coinbasevalue : ℕ) (required : List TxOut) :
    vector outputLayout (⟨coinbasevalue, payout⟩ :: required) =
      varInt (1 + required.length) ++ (littleEndian 8 coinbasevalue ++ varSlice payout) ++
        required.flatMap outputLayout := by
  rw [vector, List.length_cons, Nat.add_comm, List.flatMap_cons, outputLayout, Int.toNat_natCast]
  simp only [List.append_assoc]

theorem coinbaseTransactionOf_eq (hscriptSig : template.coinbaseScriptSigPrefix = some scriptSig)
    (hne : scriptSig ≠ []) (hrequired : template.coinbaseRequiredOutputs ≠ [])
    (hpayout : js.toOutputScript network recipient.address = some payout) :
    coinbaseTransactionOf js network [recipient] template =
      { version := 2
        locktime := (template.blockData.height : ℤ) - 1
        ins := [⟨zeroHash, 0xffffffff, scriptSig, 0xfffffffe, [List.replicate 32 0]⟩]
        outs := ⟨template.blockData.coinbasevalue, payout⟩ ::
          template.coinbaseRequiredOutputs } := by
  have hscript : MiningJob.scriptSig js template = scriptSig := by
    obtain ⟨b, bs, rfl⟩ := List.exists_cons_of_ne_nil hne
    rw [MiningJob.scriptSig, hscriptSig]
  have happended : appendedOutputs js template = template.coinbaseRequiredOutputs := by
    rw [appendedOutputs, if_pos (List.length_pos_iff.mpr hrequired)]
  simp only [coinbaseTransactionOf, outs_createCoinbaseTransaction, getPaymentScript, hpayout,
    Option.getD_some, happended, hscript]
  rfl

theorem transactionLayout_coinbase (hscriptSig : template.coinbaseScriptSigPrefix = some scriptSig)
    (hne : scriptSig ≠ []) (hlt : scriptSig.length < 253)
    (hrequired : template.coinbaseRequiredOutputs ≠ [])
    (hpayout : js.toOutputScript network recipient.address = some payout) :
    transactionLayout (coinbaseTransactionOf js network [recipient] template) =
      coinb1 scriptSig ++ coinb2 template.blockData.coinbasevalue payout
        template.coinbaseRequiredOutputs template.blockData.height := by
  have hversion : littleEndian 4 (BitVec.ofInt 32 2).toNat = [0x02, 0x00, 0x00, 0x00] := by decide
  have hlocktime : ((template.blockData.height : ℤ) - 1).toNat = template.blockData.height - 1 := by
    omega
  rw [coinbaseTransactionOf_eq hscriptSig hne hrequired hpayout, transactionLayout, hversion,
    vector_inputLayout hlt, vector_outputLayout, hlocktime, coinb1, coinb2]
  simp only [List.append_assoc, List.cons_append, List.nil_append]

theorem length_coinb1 (scriptSig : Bytes) :
    (coinb1 scriptSig).length = 41 + 1 + scriptSig.length := by
  simp only [coinb1, List.length_append, List.length_cons, List.length_nil, List.length_replicate]
  omega

theorem parts_of_new {payouts : List AddressObject} {jobId : String} {now : ℕ} {job : MiningJob}
    {buffer : Bytes} (hjob : MiningJob.new js network jobId payouts template now = some job)
    (hbuffer : js.transactionNoWitness job.coinbaseTransaction = some buffer) :
    job.coinbasePart1Buffer = buffer.take (41 + 1 + (MiningJob.scriptSig js template).length) ∧
      job.coinbasePart2Buffer =
        buffer.drop (41 + 1 + (MiningJob.scriptSig js template).length) := by
  simp only [MiningJob.new, Option.ite_none_left_eq_some, Option.bind_eq_bind,
    Option.bind_eq_some_iff, Option.pure_def, Option.some.injEq] at hjob
  obtain ⟨-, buffer', hbuffer', rfl⟩ := hjob
  obtain rfl : buffer' = buffer := Option.some.inj (hbuffer'.symm.trans hbuffer)
  exact ⟨rfl, rfl⟩

/-- The coinbase of a job is the attested one, cut at the end of its scriptSig
and announced so, and its clone carries it with the one witness item. -/
theorem layout_of_new (js : BitcoinJs) (hjs : js.Serialises) (hlayout : WritesLayout js)
    (network : Network) (jobId : String) (recipient : AddressObject) (template : IJobTemplate)
    (now : ℕ) (job : MiningJob)
    (hjob : MiningJob.new js network jobId [recipient] template now = some job)
    (scriptSig : Bytes) (hscriptSig : template.coinbaseScriptSigPrefix = some scriptSig)
    (hne : scriptSig ≠ []) (hlt : scriptSig.length < 253)
    (hrequired : template.coinbaseRequiredOutputs ≠ []) (payout : Bytes)
    (hpayout : js.toOutputScript network recipient.address = some payout) :
    job.coinbasePart1Buffer = coinb1 scriptSig ∧
      job.coinbasePart2Buffer = coinb2 template.blockData.coinbasevalue payout
        template.coinbaseRequiredOutputs template.blockData.height ∧
      (∀ jobTemplate, ofHex (job.response jobTemplate).coinbasePart1.toList = coinb1 scriptSig ∧
        ofHex (job.response jobTemplate).coinbasePart2.toList =
          coinb2 template.blockData.coinbasevalue payout template.coinbaseRequiredOutputs
            template.blockData.height) ∧
      ∃ coinbase, job.cloneCoinbaseTransaction js = some coinbase ∧
        js.transactionNoWitness coinbase =
          some (job.coinbasePart1Buffer ++ job.coinbasePart2Buffer) ∧
        coinbase.ins.map TxIn.witness = [[List.replicate 32 0x00]] := by
  obtain ⟨hcoinbase, hbuffer, -⟩ := new_eq_some hjob
  obtain ⟨hpart1, hpart2⟩ := parts_of_new hjob hbuffer
  have hscript : MiningJob.scriptSig js template = scriptSig := by
    obtain ⟨b, bs, rfl⟩ := List.exists_cons_of_ne_nil hne
    rw [MiningJob.scriptSig, hscriptSig]
  have hparts : job.coinbasePart1Buffer ++ job.coinbasePart2Buffer =
      coinb1 scriptSig ++ coinb2 template.blockData.coinbasevalue payout
        template.coinbaseRequiredOutputs template.blockData.height := by
    rw [hlayout _ _ hbuffer, hcoinbase]
    exact transactionLayout_coinbase hscriptSig hne hlt hrequired hpayout
  rw [hparts, hscript, ← length_coinb1] at hpart1 hpart2
  rw [List.take_left] at hpart1
  rw [List.drop_left] at hpart2
  refine ⟨hpart1, hpart2, fun jobTemplate ↦ ?_, job.coinbaseTransaction,
    (SubmittedBlock.cloneCoinbaseTransaction_eq hjs hjob).1, hbuffer, ?_⟩
  · simp only [response, String.toList_ofList, ofHex_toHex]
    exact ⟨hpart1, hpart2⟩
  · rw [hcoinbase, coinbaseTransactionOf_eq hscriptSig hne hrequired hpayout]
    rfl

end Layout

section Sample

open Reference

theorem writesLayout : WritesLayout bitcoinJs := by
  intro tx buffer h
  change toBuffer false tx = some buffer at h
  rw [toBuffer, Option.ite_none_right_eq_some] at h
  obtain ⟨-, h⟩ := h
  rw [← Option.some.inj h, serialise]
  simp only [Bool.false_and, Bool.false_eq_true, if_false, List.append_nil]
  rfl

def attested : IJobTemplate where
  block :=
    { version := 0x20000000
      prevHash := hashOf 7
      merkleRoot := none
      timestamp := 1700000000
      bits := 0x207fffff
      nonce := 0
      witnessCommit := none
      transactions := [] }
  merkleBranch := []
  coinbaseRequiredOutputs := [⟨0, [0x6a, 0x01, 0x07]⟩, ⟨546, [0x51]⟩]
  coinbaseScriptSigPrefix := some [0x01, 0x65]
  blockData :=
    { id := "1"
      creation := 1700000000000
      coinbasevalue := 5000000000
      networkDifficulty := 1
      height := 101
      clearJobs := true }

theorem layout_of_new_attested : ∃ job,
    MiningJob.new bitcoinJs .elektronRegtest "1" [⟨alice, 100⟩] attested 1700000000000 =
      some job ∧
    job.coinbasePart1Buffer = coinb1 [0x01, 0x65] ∧
    job.coinbasePart2Buffer = coinb2 5000000000 (0x00 :: 0x14 :: List.replicate 20 0x11)
      attested.coinbaseRequiredOutputs 101 := by
  obtain ⟨job, hjob⟩ := Option.isSome_iff_exists.mp (show (MiningJob.new bitcoinJs
    .elektronRegtest "1" [⟨alice, 100⟩] attested 1700000000000).isSome by decide +kernel)
  obtain ⟨hpart1, hpart2, -⟩ := layout_of_new bitcoinJs serialises writesLayout .elektronRegtest "1"
    ⟨alice, 100⟩ attested 1700000000000 job hjob [0x01, 0x65] rfl (by decide) (by decide)
    (by decide) (0x00 :: 0x14 :: List.replicate 20 0x11) (by decide +kernel)
  exact ⟨job, hjob, hpart1, hpart2⟩

end Sample

end ElektronPool.CoinbaseLayout
