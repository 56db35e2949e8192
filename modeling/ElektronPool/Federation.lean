import ElektronPool.ExternalShares
import ElektronPool.Work.Sessions
import ElektronPool.Moves

namespace ElektronPool.Federation

open Lib Lib.Bytes Lib.JavaScript Lib.Runs Model Model.View Work Moves ExternalShares

variable {cfg : Config} {v₀ v v' : View} {e : SessionEvent} {share : Share} {call : Call}
  {message : Message} {header : Bytes}

section Header

theorem headerOf_eq (h : HeaderOf cfg share) : ∃ before after : Bytes,
    before.length = 68 ∧ after.length = 8 ∧
      share.header = before ++ littleEndian 4 share.timestamp.toInt32.toNat ++ after := by
  simp only [HeaderOf, MiningJob.buildHeaderBuffer, Option.bind_eq_bind, Option.bind_eq_some_iff,
    Option.pure_def, Option.some.injEq] at h
  obtain ⟨version, hversion, time, htime, bits, hbits, nonce, hnonce, hheader⟩ := h
  have hhash (hash : Hash) : hash.toList.length = 32 := hash.2
  generalize MiningJob.calculateMerkleRootHash _ _ _ = root at hheader
  refine ⟨version ++ share.jobTemplate.block.prevHash.toList ++ root.toList, bits ++ nonce,
    ?_, ?_, ?_⟩
  · simp only [List.length_append, hhash, writeInt32LE_length hversion]
  · rw [List.length_append, writeUInt32LE_length hbits, writeUInt32LE_length hnonce]
  · rw [← hheader, writeUInt32LE_eq_some htime, List.append_assoc _ bits nonce]

theorem length_of_headerOf (h : HeaderOf cfg share) : share.header.length = 80 := by
  obtain ⟨before, after, hbefore, hafter, hheader⟩ := headerOf_eq h
  rw [hheader, List.length_append, List.length_append, hbefore, hafter, length_littleEndian]

theorem headerTimestamp_of_headerOf (h : HeaderOf cfg share) :
    headerTimestamp share.header = share.timestamp.toInt32.toNat := by
  obtain ⟨before, after, hbefore, hafter, hheader⟩ := headerOf_eq h
  have htime : (littleEndian 4 share.timestamp.toInt32.toNat).length = 4 := length_littleEndian ..
  rw [hheader, headerTimestamp, List.append_assoc, List.drop_left' hbefore, List.take_left' htime]
  exact ofLittleEndian_littleEndian (BitVec.isLt _)

end Header

section Reports

/-- A proof of work that the pool accepted. -/
structure Genuine (cfg : Config) (share : Share) : Prop where
  header : HeaderOf cfg share
  meets : share.Meets cfg.js

def taskShare : Task → Option Share
  | .write (.accepted share) _ => some share
  | .share share _ _ => some share
  | _ => none

/-- What a call to another pool tells it. -/
structure Report (cfg : Config) (share : Share) (address : String) (header : Bytes) : Prop where
  genuine : Genuine cfg share
  header_eq : header = share.header
  address : cfg.isBitcoinAddress address = true
  difficulty : ∃ minimumDifficulty, cfg.externalShareDifficulty = some minimumDifficulty ∧
    (minimumDifficulty : Difficulty) ≤ share.submissionDifficulty cfg.js

/-- The session goes on with accepted proofs of work, and only such were reported. -/
structure Honest (cfg : Config) (v : View) : Prop where
  authorization : ∀ authorization, v.session.clientAuthorization = some authorization →
    cfg.isBitcoinAddress authorization.address = true
  shares : ∀ task ∈ v.session.tasks, ∀ share, taskShare task = some share → Genuine cfg share
  reports : ∀ self share address worker userAgent header,
    .call self (some share) (.submitExternalShare address worker userAgent header) ∈ v.history →
      Report cfg share address header

theorem Honest.genuine (h : Honest cfg v₀) (hcontinues : Continues v₀ e share) :
    Genuine cfg share := by
  cases hcontinues with
  | accepted rest hresumed => exact h.shares _ (mem_of_resumed hresumed) share rfl
  | waiting wait rest hresumed => exact h.shares _ (mem_of_resumed hresumed) share rfl

theorem Honest.push (h : Honest cfg v) {task : Task}
    (htask : ∀ share, taskShare task = some share → Genuine cfg share) :
    Honest cfg (v.suspend task) := by
  refine ⟨h.authorization, fun other hmem ↦ ?_, h.reports⟩
  rcases List.mem_append.mp hmem with hold | hnew
  · exact h.shares other hold
  · rw [List.mem_singleton.mp hnew]
    exact htask

theorem Honest.log (h : Honest cfg v) {entry : Entry}
    (hentry : ∀ self share address worker userAgent header,
      entry = .call self (some share) (.submitExternalShare address worker userAgent header) →
        Report cfg share address header) : Honest cfg (v.log entry) := by
  refine ⟨h.authorization, h.shares, fun self share address worker userAgent header hmem ↦ ?_⟩
  rcases List.mem_cons.mp hmem with hnew | hold
  · exact hentry self share address worker userAgent header hnew.symm
  · exact h.reports self share address worker userAgent header hold

theorem Honest.write (h : Honest cfg v) {after : AfterWrite} (rest : List Line)
    (hafter : ∀ share, taskShare (.write after rest) = some share → Genuine cfg share) :
    Honest cfg (v.write message after rest) := by
  rw [View.write, View.nextLines]
  split
  · split
    · exact h
    · exact h.push fun _ hsome ↦ by cases hsome
  · exact Honest.push (v := v.send message) ⟨h.authorization, h.shares, h.reports⟩ hafter

theorem Honest.move (h : Honest cfg v) (h₀ : Honest cfg v₀) (hmove : Move cfg v₀ e v v') :
    Honest cfg v' := by
  have hnone (after : AfterWrite) (rest : List Line)
      (hafter : taskShare (.write after rest) = none) (share : Share)
      (hsome : taskShare (.write after rest) = some share) : Genuine cfg share := by
    rw [hafter] at hsome
    cases hsome
  cases hmove with
  | erase i =>
    refine ⟨h.authorization, fun task hmem ↦ ?_, h.reports⟩
    exact h.shares task (List.mem_of_mem_eraseIdx hmem)
  | wait task hwaits =>
    apply h.push
    intro share hshare
    cases hwaits with
    | lines | template => cases hshare
    | share share wait rest hcontinues =>
      cases hshare
      exact h₀.genuine hcontinues
  | write message after rest hopen hwrites =>
    have hsent : Honest cfg (v.send message) := ⟨h.authorization, h.shares, h.reports⟩
    apply hsent.push
    intro share hshare
    cases hwrites with
    | accepted share hheader hmeets =>
      cases hshare
      exact ⟨hheader, hmeets⟩
    | _ => cases hshare
  | log entry hlogs =>
    apply h.log
    intro self share address worker userAgent header hentry
    cases hlogs with
    | call share call hcontinues hcalls =>
      cases hentry
      cases hcalls with
      | submitExternalShare authorization subscription hauthorization _ minimumDifficulty hminimum
          hle =>
        exact ⟨h₀.genuine hcontinues, rfl, h.authorization authorization hauthorization,
          minimumDifficulty, hminimum, hle⟩
    | _ => cases hentry
  | create authorization subscription share hcontinues hcreating =>
    have hlogged : Honest cfg (v.log (.call v.self (some share)
        (.insertClient (newRow v.session authorization subscription)))) :=
      h.log fun _ _ _ _ _ _ hentry ↦ by cases hentry
    have hpending : Honest cfg ((v.update fun s ↦ { s with creatingEntity := some .pending }).call
        (some share) (.insertClient (newRow v.session authorization subscription))) :=
      ⟨hlogged.authorization, hlogged.shares, hlogged.reports⟩
    exact hpending.push fun _ hsome ↦ by cases hsome
  | adjust f hprofile =>
    have hauthorization : (f v.session).clientAuthorization = v.session.clientAuthorization :=
      congrArg Profile.clientAuthorization hprofile
    have htasks : (f v.session).tasks = v.session.tasks := congrArg Profile.tasks hprofile
    refine ⟨fun authorization hsome ↦ ?_, fun task hmem ↦ ?_, h.reports⟩
    · exact h.authorization authorization (hauthorization.symm.trans hsome)
    · exact h.shares task (htasks ▸ hmem)
  | addJob sent =>
    refine ⟨h.authorization, h.shares, fun self share address worker userAgent header hmem ↦ ?_⟩
    rcases List.mem_cons.mp hmem with hnew | hold
    · cases hnew
    · exact h.reports self share address worker userAgent header hold
  | subscribe subscription rest =>
    apply Honest.write
    · exact ⟨h.authorization, h.shares, h.reports⟩
    · exact hnone _ _ rfl
  | authorize authorization rest haddress =>
    apply Honest.write
    · refine ⟨fun other hother ↦ ?_, h.shares, h.reports⟩
      cases hother
      exact haddress
    · exact hnone _ _ rfl
  | suggest suggestedDifficulty rest =>
    apply Honest.write
    · exact ⟨h.authorization, h.shares, h.reports⟩
    · exact hnone _ _ rfl
  | _ => exact ⟨h.authorization, h.shares, h.reports⟩

theorem Honest.trace (h₀ : Honest cfg v₀) (h : Trace cfg v₀ e v₀ v) : Honest cfg v := by
  induction h with
  | refl => exact h₀
  | tail _ hmove ih => exact ih.move h₀ hmove

theorem honest_kept : Kept cfg (fun _ ↦ True) (fun _ _ ↦ True) (Honest cfg) where
  tick _ _ h := ⟨h.authorization, h.shares, h.reports⟩
  act _ _ _ _ h _ hact := h.trace (.of_act hact)
  other _ _ _ _ _ _ _ hother h _ hact :=
    ⟨hother.authorization, hother.shares, (h.trace (.of_act hact)).reports⟩

theorem honest_of_reachable {now : ℕ} {pool : Pool}
    (h : Reachable (Pool.step cfg) (Pool.start now) pool) (id : SessionId) :
    Honest cfg (pool.view id) := by
  apply honest_kept.reach (fun _ _ _ ↦ trivial) (fun _ ↦ ?_) (reachable_of_reach h) id
  refine ⟨fun _ hsome ↦ ?_, fun _ hmem ↦ absurd hmem List.not_mem_nil,
    fun _ _ _ _ _ _ hmem ↦ absurd hmem List.not_mem_nil⟩
  cases hsome

end Reports

section Receiving

variable {validator : ShareValidator} {controller : ExternalShareController}
  {body : ExternalShareBody} {table : List ExternalSharesEntity} {apiKey : Option String}
  {receivedAt time : ℕ}

def reportedRow (body : ExternalShareBody) (difficulty : Difficulty) (time : ℕ) :
    ExternalSharesEntity where
  address := body.address
  clientName := body.worker
  time
  difficulty
  userAgent := body.userAgent
  externalPoolName := body.externalPoolName
  header := body.header

/-- A header with enough work is stored with its difficulty, unless it is too old. -/
theorem post_eq (hvalid : body.Valid validator) (hreads : ReadsHeaders controller.blockFromBuffer)
    (hkey : controller.admits apiKey) (hheader : ofHex body.header.toList = header)
    (hlength : header.length = 80)
    (hdifficulty : controller.minimumDifficulty ≤ calculateDifficulty controller.js header) :
    controller.post validator table body apiKey receivedAt time =
      if headerTimestamp header + 600 < receivedAt / 1000 then
        (table, .unauthorized "Share timestamp too old - must be within last 10 minutes")
      else
        (table ++ [reportedRow body (calculateDifficulty controller.js header) time],
          .success (calculateDifficulty controller.js header)) := by
  obtain ⟨block, hblock⟩ := Option.isSome_iff_exists.mp (hreads.header header hlength)
  have hold : (block.timestamp : ℤ) < (receivedAt / 1000 : ℕ) - 10 * 60 ↔
      headerTimestamp header + 600 < receivedAt / 1000 := by
    rw [hreads.timestamp header block hblock]
    omega
  simp only [ExternalShareController.post, dif_pos hvalid,
    ExternalShareController.submitExternalShare, hkey, not_true, if_false, hheader,
    if_neg (not_lt.mpr hdifficulty), hblock]
  by_cases hlate : headerTimestamp header + 600 < receivedAt / 1000
  · rw [if_pos hlate, if_pos (hold.mpr hlate)]
  · rw [if_neg hlate, if_neg fun h ↦ hlate (hold.mp h)]
    rfl

/-- The lengths that a receiving pool allows of what is not checked for a report. -/
structure Fits (validator : ShareValidator) (body : ExternalShareBody) : Prop where
  worker : validator.count body.worker ≤ 64
  userAgent : validator.count body.userAgent ≤ 128
  externalPoolName : validator.count body.externalPoolName ≤ 128

end Receiving

/-- In every run, what a session reports to another pool is an accepted share of an address
of the network; and a pool of this network that asks for no more work and knows the key stores
what is posted of it with the difficulty this pool found, unless the names are too long for it
or the miner's time is more than ten minutes behind its clock. -/
theorem stored_of_reported (cfg : Config) (now : ℕ) (pool : Pool)
    (h : Reachable (Pool.step cfg) (Pool.start now) pool) (id : SessionId) (share : Share)
    (address worker userAgent : String) (header : Bytes)
    (hreported : .call id (some share) (.submitExternalShare address worker userAgent header) ∈
      pool.history)
    (poolIdentifier : Option String) (controller : ExternalShareController)
    (hjs : controller.js = cfg.js) (hreads : ReadsHeaders controller.blockFromBuffer)
    (hminimum : ∀ minimumDifficulty, cfg.externalShareDifficulty = some minimumDifficulty →
      controller.minimumDifficulty ≤ minimumDifficulty)
    (apiKey : Option String) (hkey : controller.admits apiKey) (validator : ShareValidator)
    (hnetwork : ∀ address, cfg.isBitcoinAddress address = true →
      validator.isBitcoinAddress address = true)
    (hfits : Fits validator (externalShareBody poolIdentifier address worker userAgent header))
    (table : List ExternalSharesEntity) (receivedAt time : ℕ) :
    let body := externalShareBody poolIdentifier address worker userAgent header
    cfg.isBitcoinAddress address = true ∧ share.Meets cfg.js ∧
      controller.post validator table body apiKey receivedAt time =
        if share.timestamp.toInt32.toNat + 600 < receivedAt / 1000 then
          (table, .unauthorized "Share timestamp too old - must be within last 10 minutes")
        else
          (table ++ [reportedRow body (share.submissionDifficulty cfg.js) time],
            .success (share.submissionDifficulty cfg.js)) := by
  intro body
  have hreport := (honest_of_reachable h id).reports id share address worker userAgent header
    hreported
  obtain ⟨minimumDifficulty, hsome, hle⟩ := hreport.difficulty
  refine ⟨hreport.address, hreport.genuine.meets, ?_⟩
  have hdifficulty : calculateDifficulty controller.js header =
      share.submissionDifficulty cfg.js := by
    rw [hjs, hreport.header_eq, Share.submissionDifficulty]
  have hlength : header.length = 80 := by
    rw [hreport.header_eq]
    exact length_of_headerOf hreport.genuine.header
  have hne : header ≠ [] := by
    rintro rfl
    cases hlength
  have hvalid : body.Valid validator :=
    { worker := hfits.worker
      address := hnetwork address hreport.address
      userAgent := hfits.userAgent
      externalPoolName := hfits.externalPoolName
      header := isNumeral_ofList hne }
  have hbody : ofHex body.header.toList = header := by
    change ofHex (String.ofList (toHex header)).toList = header
    rw [String.toList_ofList, ofHex_toHex]
  rw [post_eq hvalid hreads hkey hbody hlength, hdifficulty, hreport.header_eq,
    headerTimestamp_of_headerOf hreport.genuine.header]
  rw [hdifficulty]
  exact le_trans (WithTop.coe_le_coe.mpr (hminimum minimumDifficulty hsome)) hle

section Sample

open Reference

def sharing : Config := { settings with externalShareDifficulty := some 0 }

def reporting : List Event :=
  easyOpening 0 alice ++ working 0 (answer 101 (hashOf 7)) ++
    crediting 0 ⟨"3", "1", "", "6553f105", "00000003", "00000000"⟩

/-- A report of a share that was found at this second, under names that are short enough. -/
def reportsAt (seconds : ℕ) : Entry → Bool
  | .call 0 (some share) (.submitExternalShare _ worker userAgent _) =>
    share.timestamp.toInt32.toNat = seconds && decide (worker.length ≤ 64) &&
      decide (userAgent.length ≤ 128)
  | _ => false

theorem stored_of_reported_reporting :
    ∃ body difficulty, (keyless 0).post ExternalShares.plainValidator [] body none 1700000605000
      1700000605000 = ([reportedRow body difficulty 1700000605000], .success difficulty) := by
  obtain ⟨pool, hpool, hp⟩ := Reachable.of_any (Pool.step sharing) (Pool.start 1700000000000)
    reporting (fun pool ↦ pool.history.any (reportsAt 1700000005)) (by decide +kernel)
  obtain ⟨entry, hmem, hreports⟩ := List.any_eq_true.mp hp
  rw [reportsAt.eq_def] at hreports
  split at hreports
  case h_1 share address worker userAgent header =>
    simp only [Bool.and_eq_true, decide_eq_true_eq] at hreports
    obtain ⟨⟨htime, hworker⟩, huserAgent⟩ := hreports
    have hpoolName : ExternalShares.plainValidator.count
        (externalShareBody none address worker userAgent header).externalPoolName ≤ 128 := by
      simp only [externalShareBody, ExternalShares.plainValidator]
      decide
    have hstored := stored_of_reported sharing 1700000000000 pool hpool 0 share address worker
      userAgent header hmem none (keyless 0) rfl readsHeaders
      (fun minimumDifficulty hsome ↦ by cases hsome; exact le_rfl) none (.inl rfl)
      ExternalShares.plainValidator (fun _ h ↦ h) ⟨hworker, huserAgent, hpoolName⟩ [] 1700000605000
      1700000605000
    refine ⟨externalShareBody none address worker userAgent header,
      share.submissionDifficulty sharing.js, ?_⟩
    rw [hstored.2.2, htime]
    rfl
  case h_2 => cases hreports

end Sample

end ElektronPool.Federation
