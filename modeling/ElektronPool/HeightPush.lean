import ElektronPool.CoinbaseLayout

namespace ElektronPool.HeightPush

open Lib Lib.Bytes Model Model.MiningJob

/-- The minimal bytes of a number, least significant first; the top bit of the
last is its sign. -/
def scriptNumber (n : ℕ) : Bytes :=
  let digits := (Nat.digits 256 n).map UInt8.ofNat
  if digits.getLast?.any (0x80 ≤ ·) then digits ++ [0x00] else digits

/-- `CScript() << height` -/
def heightPush (height : ℕ) : Bytes :=
  if height = 0 then [0x00]
  else if height ≤ 16 then [UInt8.ofNat (0x50 + height)]
  else UInt8.ofNat (scriptNumber height).length :: scriptNumber height

/-- The node's scriptSig: the height push, padded with `OP_0` to two bytes. -/
def nodeScriptSig (height : ℕ) : Bytes :=
  if (heightPush height).length < 2 then heightPush height ++ [0x00] else heightPush height

theorem scriptNumber_of_le {n : ℕ} (hpos : n ≠ 0) (hle : n ≤ 16) :
    scriptNumber n = [UInt8.ofNat n] := by
  have hdigits : Nat.digits 256 n = [n] := Nat.digits_of_lt 256 n hpos (by omega)
  have htop : ¬ (0x80 : UInt8) ≤ UInt8.ofNat n := by
    rw [UInt8.le_iff_toNat_le, UInt8.toNat_ofNat']
    simp only [UInt8.toNat_ofNat]
    omega
  simp [scriptNumber, hdigits, htop]

theorem length_scriptNumber_pos {n : ℕ} (hpos : n ≠ 0) : 0 < (scriptNumber n).length := by
  have hdigits : Nat.digits 256 n ≠ [] := Nat.digits_ne_nil_iff_ne_zero.mpr hpos
  rw [List.length_pos_iff, scriptNumber]
  split
  · simp
  · simpa using hdigits

variable {js : BitcoinJs} {template : IJobTemplate}

theorem scriptSig_eq (hnone : template.coinbaseScriptSigPrefix.getD [] = [])
    (hencode : js.scriptNumberEncode template.blockData.height =
      scriptNumber template.blockData.height) :
    scriptSig js template =
      if template.blockData.height = 0 then [0x00, 0x00]
      else UInt8.ofNat (scriptNumber template.blockData.height).length ::
        scriptNumber template.blockData.height := by
  have hfallback : scriptSig js template =
      let pushed := UInt8.ofNat (scriptNumber template.blockData.height).length ::
        scriptNumber template.blockData.height
      if pushed.length < 2 then pushed ++ [0x00] else pushed := by
    rw [scriptSig, hencode]
    cases hscriptSig : template.coinbaseScriptSigPrefix with
    | none => rfl
    | some bytes =>
      obtain rfl : bytes = [] := by simpa [hscriptSig] using hnone
      rfl
  rw [hfallback]
  by_cases hzero : template.blockData.height = 0
  · rw [if_pos hzero, hzero]
    rfl
  · have hlength := length_scriptNumber_pos hzero
    rw [if_neg hzero]
    exact if_neg (by rw [List.length_cons]; omega)

theorem nodeScriptSig_eq (height : ℕ) :
    nodeScriptSig height =
      if height = 0 then [0x00, 0x00]
      else if height ≤ 16 then [UInt8.ofNat (0x50 + height), 0x00]
      else UInt8.ofNat (scriptNumber height).length :: scriptNumber height := by
  by_cases hzero : height = 0
  · subst hzero
    rfl
  · by_cases hsmall : height ≤ 16
    · rw [nodeScriptSig, heightPush, if_neg hzero, if_neg hzero, if_pos hsmall, if_pos hsmall]
      rfl
    · have hlength := length_scriptNumber_pos hzero
      rw [nodeScriptSig, heightPush, if_neg hzero, if_neg hzero, if_neg hsmall, if_neg hsmall]
      exact if_neg (by rw [List.length_cons]; omega)

/-- Without a prefix, the scriptSig of a job is the node's exactly where the node
uses no one-byte opcode for the height. -/
theorem script_eq_nodeScriptSig_iff (js : BitcoinJs) (network : Network) (jobId : String)
    (payout : List AddressObject) (template : IJobTemplate) (now : ℕ) (job : MiningJob)
    (hjob : MiningJob.new js network jobId payout template now = some job)
    (hnone : template.coinbaseScriptSigPrefix.getD [] = [])
    (hencode : js.scriptNumberEncode template.blockData.height =
      scriptNumber template.blockData.height) :
    job.coinbaseTransaction.ins.map TxIn.script = [nodeScriptSig template.blockData.height] ↔
      template.blockData.height = 0 ∨ 16 < template.blockData.height := by
  have hscript : job.coinbaseTransaction.ins.map TxIn.script = [scriptSig js template] := by
    rw [(new_eq_some hjob).1]
    rfl
  rw [hscript, List.singleton_inj, scriptSig_eq hnone hencode, nodeScriptSig_eq]
  by_cases hzero : template.blockData.height = 0
  · simp [hzero]
  · by_cases hsmall : template.blockData.height ≤ 16
    · refine iff_of_false ?_ (by omega)
      rw [if_neg hzero, if_neg hzero, if_pos hsmall, scriptNumber_of_le hzero hsmall]
      intro heq
      have hopcode : UInt8.ofNat 1 = UInt8.ofNat (0x50 + template.blockData.height) :=
        (List.cons.inj heq).1
      have := congrArg UInt8.toNat hopcode
      simp only [UInt8.toNat_ofNat'] at this
      omega
    · rw [if_neg hzero, if_neg hzero, if_neg hsmall]
      exact iff_of_true rfl (.inr (by omega))

section Sample

open Reference CoinbaseLayout

def unprefixed (height : ℕ) : IJobTemplate :=
  { attested with
    coinbaseScriptSigPrefix := none
    blockData := { attested.blockData with height } }

theorem script_eq_nodeScriptSig_iff_unprefixed : ∃ job,
    MiningJob.new bitcoinJs .elektronRegtest "1" [⟨alice, 100⟩] (unprefixed 32768)
      1700000000000 = some job ∧
    job.coinbaseTransaction.ins.map TxIn.script = [[0x03, 0x00, 0x80, 0x00]] := by
  obtain ⟨job, hjob⟩ := Option.isSome_iff_exists.mp (show (MiningJob.new bitcoinJs
    .elektronRegtest "1" [⟨alice, 100⟩] (unprefixed 32768) 1700000000000).isSome by
      decide +kernel)
  have hnode : nodeScriptSig 32768 = [0x03, 0x00, 0x80, 0x00] := by decide +kernel
  exact ⟨job, hjob, hnode ▸ (script_eq_nodeScriptSig_iff bitcoinJs .elektronRegtest "1"
    [⟨alice, 100⟩] (unprefixed 32768) 1700000000000 job hjob rfl (by decide +kernel)).mpr
      (.inr (by decide))⟩

/-- At height one the node pushes `OP_1` and pads it; the job has a pushed byte. -/
theorem not_script_eq_nodeScriptSig_at_one : ¬ ∀ (js : BitcoinJs) (network : Network)
    (jobId : String) (payout : List AddressObject) (template : IJobTemplate) (now : ℕ)
    (job : MiningJob), MiningJob.new js network jobId payout template now = some job →
      template.coinbaseScriptSigPrefix.getD [] = [] →
      js.scriptNumberEncode template.blockData.height = scriptNumber template.blockData.height →
        job.coinbaseTransaction.ins.map TxIn.script =
          [nodeScriptSig template.blockData.height] := by
  intro h
  obtain ⟨job, hjob⟩ := Option.isSome_iff_exists.mp (show (MiningJob.new bitcoinJs
    .elektronRegtest "1" [⟨alice, 100⟩] (unprefixed 1) 1700000000000).isSome by decide +kernel)
  have hscript := h bitcoinJs .elektronRegtest "1" [⟨alice, 100⟩] (unprefixed 1) 1700000000000 job
    hjob rfl (by decide +kernel)
  rw [(new_eq_some hjob).1] at hscript
  exact absurd hscript (by decide +kernel)

end Sample

end ElektronPool.HeightPush
