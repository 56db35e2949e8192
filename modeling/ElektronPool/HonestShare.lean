import ElektronPool.HeaderAgreement
import ElektronPool.JobLookup
import ElektronPool.Requests
import ElektronPool.SubmitVerdict

namespace ElektronPool.HonestShare

open Lib Lib.Runs Lib.Bytes Lib.Log Lib.JavaScript Model Model.Json Work Talk HeaderAgreement
  JobLookup Requests SubmitVerdict Wire

structure Solution (lib : RequestLibrary) where
  id : Json
  userId : String
  extraNonce2 : String
  versionMask : ℕ
  nonce : ℕ
  ntime : ℕ
  versionMaskText : String
  nonceText : String
  ntimeText : String
  isId : IsId lib id
  rolls : versionMask &&& versionRollingMask = versionMask
  nonce_lt : nonce < 2 ^ 32
  ntime_lt : ntime < 2 ^ 32
  spellsVersionMask : Spells versionMaskText versionMask
  spellsNonce : Spells nonceText nonce
  spellsNtime : Spells ntimeText ntime

namespace Solution

variable {lib : RequestLibrary} (solution : Solution lib) (params : IMiningNotify)

def ask : Ask :=
  .submit solution.id solution.userId params.jobId solution.extraNonce2 solution.ntimeText
    solution.nonceText solution.versionMaskText

def text : List Char := Json.text (.object (solution.ask params).request)

def submission : MiningSubmitMessage where
  id := solution.id.stringify
  jobId := params.jobId
  extraNonce2 := solution.extraNonce2
  ntime := solution.ntimeText
  nonce := solution.nonceText
  versionMask := solution.versionMaskText

def header (js : BitcoinJs) : Bytes :=
  minerHeader js params solution.versionMask solution.nonce solution.ntime

end Solution

variable {cfg : Config} {lib : RequestLibrary} {solution : Solution lib} {params : IMiningNotify}
  {pool : Pool} {self : SessionId} {keys : List String} {header : Bytes} {difficulty : ℚ}
  {verdict : Verdict}

/-- The job and its template are still registered, by what was fetched since. -/
def Standing (history : List Entry) (jobId : String) : Prop :=
  ∃ session job sent address jobTemplate, Stands Drops history (.job session job sent) ∧
    job.jobId = jobId ∧ Stands Drops history (.template address jobTemplate) ∧
    jobTemplate.blockData.id = job.jobTemplateId

/-- The hash of the header, as a number, is within the target of the difficulty. -/
def Meets (js : BitcoinJs) (difficulty : ℚ) (header : Bytes) : Prop :=
  difficulty * (ofLittleEndian (js.hash256 header).toList : ℚ) ≤ 65535 * 2 ^ 208

/-- The verdict that is due to a solution, which the miner can tell but for the keys of the
shares before it. -/
inductive Earns (js : BitcoinJs) (history : List Entry) (keys : List String) (difficulty : ℚ)
    (params : IMiningNotify) (solution : Solution lib) : Verdict → Prop
  | jobNotFound (h : ¬ Standing history params.jobId) :
      Earns js history keys difficulty params solution (.refused .jobNotFound)
  | duplicateShare (h : Standing history params.jobId)
      (hseen : submissionHash (solution.submission params) ∈ keys) :
      Earns js history keys difficulty params solution (.refused .duplicateShare)
  | lowDifficultyShare (h : Standing history params.jobId)
      (hnew : submissionHash (solution.submission params) ∉ keys)
      (hlow : ¬ Meets js difficulty (solution.header params js)) :
      Earns js history keys difficulty params solution (.refused .lowDifficultyShare)
  | accepted (h : Standing history params.jobId)
      (hnew : submissionHash (solution.submission params) ∉ keys)
      (hmeets : Meets js difficulty (solution.header params js)) :
      Earns js history keys difficulty params solution .accepted

theorem meets_iff (js : BitcoinJs) :
    Meets js difficulty header ↔ (difficulty : Difficulty) ≤ calculateDifficulty js header := by
  have htrue : trueDiffOne = 65535 * 2 ^ 208 := rfl
  rw [Meets, ← htrue, calculateDifficulty, hashDifficulty, le256todouble_eq, quotient]
  generalize ofLittleEndian (js.hash256 header).toList = n
  split
  case isTrue hzero =>
    rw [hzero, mul_zero]
    exact iff_of_true (by norm_num [trueDiffOne]) le_top
  case isFalse hne =>
    have hpos : (0 : ℚ) < n := lt_of_le_of_ne (Nat.cast_nonneg n) (Ne.symm hne)
    rw [WithTop.coe_le_coe, le_div_iff₀ hpos]

theorem ofText_text (hlib : Lawful lib) (hcopies : Copies lib) :
    Line.ofText lib (solution.text params) = .submit (solution.submission params) := by
  have hsound : (Json.object (solution.ask params).request).Sound lib.print :=
    sound_request hlib solution.isId trivial
  rw [Solution.text, Line.ofText, parse_text _ hsound]
  exact line_request hcopies solution.isId trivial

theorem standing_iff {now : ℕ} (h : Reachable (Pool.step cfg) (Pool.start now) pool)
    (submission : MiningSubmitMessage) :
    Standing pool.history submission.jobId ↔ (workOf (pool.view self) submission).isSome := by
  have hrecorded := recorded_of_reachable h
  rw [workOf, Option.isSome_iff_exists]
  simp only [Option.bind_eq_some_iff, Option.map_eq_some_iff]
  constructor
  · rintro ⟨session, job, sent, address, jobTemplate, hjob, hid, htemplate, htemplateId⟩
    exact ⟨(job, jobTemplate), job, (hrecorded.jobs _ _).mpr ⟨session, sent, hjob, hid⟩,
      jobTemplate, (hrecorded.blocks _ _).mpr ⟨address, htemplate, htemplateId⟩, rfl⟩
  · rintro ⟨-, job, hjob, jobTemplate, htemplate, -⟩
    obtain ⟨session, sent, hstands, hid⟩ := (hrecorded.jobs _ _).mp hjob
    obtain ⟨address, htemplate, htemplateId⟩ := (hrecorded.blocks _ _).mp htemplate
    exact ⟨session, job, sent, address, jobTemplate, hstands, hid, htemplate, htemplateId⟩

/-- The header the pool builds is the one the miner hashed. -/
theorem headerOf_submission {now : ℕ} (h : Reachable (Pool.step cfg) (Pool.start now) pool)
    (hnotify : Message.notify params ∈ (pool.sessions self).wire)
    (hversion : Hex.value params.version.toList < 2 ^ 31) {work : MiningJob × IJobTemplate}
    (hwork : workOf (pool.view self) (solution.submission params) = some work) :
    headerOf cfg (solution.submission params) work = some (solution.header params cfg.js) := by
  have hnotices := (sound_of_reachable h self).held.notices
  have hparams : params ∈ (pool.sessions self).sentJobs.map SentJob.params := by
    rw [← show _ = (pool.sessions self).sentJobs.map SentJob.params from hnotices]
    exact List.mem_filterMap.mpr ⟨_, hnotify, rfl⟩
  obtain ⟨sent, hsent, rfl⟩ := List.mem_map.mp hparams
  simp only [workOf, Option.bind_eq_some_iff, Option.map_eq_some_iff] at hwork
  obtain ⟨job, hjob, jobTemplate, htemplate, rfl⟩ := hwork
  obtain ⟨rfl, hsame, hbranch, ⟨rotationState, hjobVersion⟩, hprev, hbits⟩ :=
    registered_of_sent h .refl hsent hjob htemplate
  have hmask : solution.versionMask < 2 ^ 32 := by
    rw [← solution.rolls]
    exact Nat.and_le_right.trans_lt (by decide : versionRollingMask < 2 ^ 32)
  have hlt : rotatedVersion sent.jobTemplate.block.version rotationState < 2 ^ 31 := by
    rw [hsame, MiningJob.response, hjobVersion] at hversion
    simpa only [toString16_natCast, String.toList_ofList, Hex.value_numeral] using hversion
  simp only [headerOf, Solution.submission, Solution.header,
    solution.spellsVersionMask.parseInt16_eq hmask,
    solution.spellsNonce.parseInt16_eq solution.nonce_lt,
    solution.spellsNtime.parseInt16_eq solution.ntime_lt]
  rw [hsame]
  exact buildHeaderBuffer_eq_minerHeader cfg.js hbranch hjobVersion hlt hprev hbits hmask
    solution.nonce_lt solution.ntime_lt

theorem due_of_earns {now : ℕ} (h : Reachable (Pool.step cfg) (Pool.start now) pool)
    (hnotify : Message.notify params ∈ (pool.sessions self).wire)
    (hversion : Hex.value params.version.toList < 2 ^ 31)
    (hinitialized : (pool.sessions self).stratumInitialized = true)
    (hearns : Earns cfg.js pool.history keys (pool.sessions self).sessionDifficulty params solution
      verdict) :
    Due cfg keys (pool.view self) (.submit (solution.submission params))
      (some (solution.id.stringify, verdict)) := by
  have hwork (hstanding : Standing pool.history params.jobId) :
      ∃ work, workOf (pool.view self) (solution.submission params) = some work :=
    Option.isSome_iff_exists.mp
      ((standing_iff h (solution.submission params)).mp hstanding)
  cases hearns with
  | jobNotFound hgone =>
    refine Due.jobNotFound _ hinitialized (Option.not_isSome_iff_eq_none.mp fun hsome ↦ hgone ?_)
    exact (standing_iff h (solution.submission params)).mpr hsome
  | duplicateShare hstanding hseen =>
    obtain ⟨work, hwork⟩ := hwork hstanding
    exact .duplicateShare _ work hinitialized hwork hseen
  | lowDifficultyShare hstanding hnew hlow =>
    obtain ⟨work, hwork⟩ := hwork hstanding
    exact .lowDifficultyShare _ work _ hinitialized hwork hnew
      (headerOf_submission h hnotify hversion hwork) fun hle ↦ hlow ((meets_iff cfg.js).mpr hle)
  | accepted hstanding hnew hmeets =>
    obtain ⟨work, hwork⟩ := hwork hstanding
    exact .accepted _ work _ hinitialized hwork hnew
      (headerOf_submission h hnotify hversion hwork) ((meets_iff cfg.js).mp hmeets)

theorem exists_earns (js : BitcoinJs) (history : List Entry) (keys : List String) (difficulty : ℚ)
    (params : IMiningNotify) (solution : Solution lib) :
    ∃ verdict, Earns js history keys difficulty params solution verdict := by
  by_cases hstanding : Standing history params.jobId
  · by_cases hseen : submissionHash (solution.submission params) ∈ keys
    · exact ⟨_, .duplicateShare hstanding hseen⟩
    · by_cases hmeets : Meets js difficulty (solution.header params js)
      · exact ⟨_, .accepted hstanding hseen hmeets⟩
      · exact ⟨_, .lowDifficultyShare hstanding hseen hmeets⟩
  · exact ⟨_, .jobNotFound hstanding⟩

/-- A miner that hashes the work it was announced, and writes what it found as a line of JSON, is
answered on the hash of its own header alone: the share is accepted exactly when the job still
stands, the share is new and the hash meets the difficulty of the session, without rounding. -/
theorem earned_of_reachable (cfg : Config) (lib : RequestLibrary) (hlib : Lawful lib)
    (hcopies : Copies lib) (now : ℕ) (self : SessionId) (pool : Pool) (record : Record)
    (h : Noted cfg (fun _ _ ↦ True) self (Record.note cfg) (Pool.start now, {}) (pool, record))
    (params : IMiningNotify) (hnotify : Message.notify params ∈ (pool.sessions self).wire)
    (hversion : Hex.value params.version.toList < 2 ^ 31) (solution : Solution lib)
    (e : SessionEvent) (rest : List Line) (v' : View)
    (he : handles (pool.view self) e = some (Line.ofText lib (solution.text params), rest))
    (hact : (pool.view self).act cfg e = some v')
    (hinitialized : (pool.sessions self).stratumInitialized = true)
    (hopen : (pool.sessions self).isSocketClosed = false) :
    ∃ verdict, Earns cfg.js pool.history record.keys (pool.sessions self).sessionDifficulty params
        solution verdict ∧
      ∀ reply, SubmitVerdict.Writes (pool.view self) v' reply ↔
        reply = some (solution.id.stringify, verdict) := by
  have hpool := Reachable.of_noted h
  have hremembers : Remembers (pool.sessions self) record :=
    Noted.keeps (P := Remembers) (J := fun v ↦ Ready v.session)
      (fun pool hpool ↦ ready_of_reachable hpool self) (fun _ ↦ Iff.rfl)
      (fun _ _ _ _ hready h _ hact ↦ h.act hready hact) h
  rw [ofText_text hlib hcopies] at he
  have hjudged := judged_submit hremembers he hact
  obtain ⟨verdict, hearns⟩ := exists_earns cfg.js pool.history record.keys
    (pool.sessions self).sessionDifficulty params solution
  refine ⟨verdict, hearns, fun reply ↦ ?_⟩
  have hdue := due_of_earns hpool hnotify hversion hinitialized hearns
  rw [hjudged.due hopen]
  constructor
  · intro hother
    exact hother.inj hdue
  · rintro rfl
    exact hdue

section Sample

open Reference

def found : Solution plain where
  id := .number "4"
  userId := "rig"
  extraNonce2 := ""
  versionMask := 0x20000
  nonce := 7
  ntime := 0x6553f100
  versionMaskText := "00020000"
  nonceText := "00000007"
  ntimeText := "6553F100"
  isId := show plain.print "4" = some "4" by decide
  rolls := by decide
  nonce_lt := by decide
  ntime_lt := by decide
  spellsVersionMask := ⟨⟨by decide, List.all_eq_true.mp rfl⟩, rfl⟩
  spellsNonce := ⟨⟨by decide, List.all_eq_true.mp rfl⟩, rfl⟩
  spellsNtime := ⟨⟨by decide, List.all_eq_true.mp rfl⟩, rfl⟩

def foundText : List Char :=
  Json.text (.object (Ask.submit (.number "4") "rig" "1" "" "6553F100" "00000007" "00020000").request)

def isEarning (pool : Pool) : Bool :=
  match (pool.view 0).act settings (.resume 0 .done), (pool.sessions 0).wire.filterMap notice with
  | some v', [params] =>
    decide (handles (pool.view 0) (.resume 0 .done) = some (Line.ofText plain foundText, [])) &&
      decide (params.jobId = "1") && decide (Hex.value params.version.toList < 2 ^ 31) &&
      (pool.sessions 0).stratumInitialized && !(pool.sessions 0).isSocketClosed &&
      decide (replies v'.session = ("4", .accepted) :: replies (pool.sessions 0))
  | _, _ => false

theorem earned_of_reachable_share :
    ∃ pool record params, Noted settings (fun _ _ ↦ True) 0 (Record.note settings)
        (Pool.start 1700000000000, {}) (pool, record) ∧
      Message.notify params ∈ (pool.sessions 0).wire ∧
      Earns bitcoinJs pool.history record.keys (pool.sessions 0).sessionDifficulty params found
        .accepted := by
  obtain ⟨⟨pool, record⟩, hpool, hp⟩ := Reach.of_any
    (noted (Pool.step settings) (ofSession 0 (Record.note settings)))
    (fun p event ↦ onSession (fun _ _ ↦ True) p.1 event) (Pool.start 1700000000000, {})
    (easyOpening 0 alice ++ working 0 (answer 101 (hashOf 7)) ++
      [.session 0 (.data [Line.ofText plain foundText])])
    (fun p ↦ isEarning p.1) (by decide +kernel) (by decide +kernel)
  rw [isEarning] at hp
  split at hp
  case h_1 v' params hact hnotices =>
    simp only [Bool.and_eq_true, decide_eq_true_eq, Bool.not_eq_true'] at hp
    obtain ⟨⟨⟨⟨⟨hhandles, hjobId⟩, hversion⟩, hinitialized⟩, hopen⟩, hreplies⟩ := hp
    have hnotify : Message.notify params ∈ (pool.sessions 0).wire := by
      have hmem : params ∈ (pool.sessions 0).wire.filterMap notice := by
        rw [hnotices]
        exact List.mem_singleton_self params
      obtain ⟨message, hmessage, hparams⟩ := List.mem_filterMap.mp hmem
      cases message <;> cases hparams
      exact hmessage
    have htext : found.text params = foundText := by
      rw [Solution.text, Solution.ask, hjobId]
      rfl
    rw [← htext] at hhandles
    obtain ⟨verdict, hearns, hwrites⟩ := earned_of_reachable settings plain lawful_plain copies_plain
      1700000000000 0 pool record hpool params hnotify hversion found _ [] v' hhandles hact
      hinitialized hopen
    obtain ⟨-, rfl⟩ := Prod.mk.inj (Option.some.inj ((hwrites (some ("4", .accepted))).mp hreplies))
    exact ⟨pool, record, params, hpool, hnotify, hearns⟩
  case h_2 => cases hp

end Sample

end ElektronPool.HonestShare
