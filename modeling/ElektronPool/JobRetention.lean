import ElektronPool.Reference
import ElektronPool.Work.Provenance

namespace ElektronPool.JobRetention

open Lib Lib.Runs Model Model.View Work

variable {cfg : Config} {v v' : View} {e : SessionEvent} {work before : List Entry}
  {jobTemplate : IJobTemplate} {job : MiningJob} {sent : SentJob} {now : ℕ}
  {jobsService jobsService' : JobsService}

/-- The event delivers a template that is taken for one on a new tip, which wipes the registry. -/
def wipes (cfg : Config) (v : View) (e : SessionEvent) : Bool :=
  (receives v e).any fun (address, _, blockTemplate) ↦
    v.jobsService.isNewHeight address blockTemplate.height &&
      (JobsService.assembleBlock cfg.js blockTemplate 0).isSome

def isFresh (before : List Entry) (now : ℕ) : Entry → Bool
  | .job session job jobTemplate =>
    Entry.job session job jobTemplate ∉ before && now - jobTemplate.blockData.creation ≤
      JobsService.maxAge
  | _ => false

/-- The event sends work again from a template that the registry no longer holds. -/
def resendsWiped (v : View) (e : SessionEvent) : Bool :=
  (e = .localTimer || e = .difficultyTimer) && v.session.currentJobTemplate.any fun t ↦
    (v.jobsService.getJobTemplateById t.blockData.id).isNone &&
      decide (v.now - t.blockData.creation ≤ JobsService.maxAge)

/-- No job that was sent since `before` is wiped, and none is sent from a wiped template. -/
def KeepsWork (cfg : Config) (before : List Entry) (v : View) (e : SessionEvent) : Prop :=
  (wipes cfg v e = true → v.history.any (isFresh before v.now) = false) ∧ resendsWiped v e = false

instance (v : View) (e : SessionEvent) : Decidable (KeepsWork cfg before v e) :=
  inferInstanceAs (Decidable ((_ → _) ∧ _))

/-- A submission for the job finds it and its template. -/
def Acceptable (jobsService : JobsService) (history : List Entry) (job : MiningJob) : Prop :=
  jobsService.getJobById job.jobId = some job ∧
    ∃ address base, Entry.template address base ∈ history ∧
      base.blockData.id = job.jobTemplateId ∧
      jobsService.getJobTemplateById job.jobTemplateId = some base

/-- Every job sent since `before` is in the registry with its template, as long
as the template is not too old. -/
def Retained (before : List Entry) (now : ℕ) (jobsService : JobsService) (work : List Entry) :
    Prop :=
  ∀ s j t, Entry.job s j t ∈ work → isFresh before now (.job s j t) = true →
    jobsService.jobs j.jobId = some j ∧ (jobsService.blocks j.jobTemplateId).isSome

def Stocked (now : ℕ) (jobsService : JobsService) (jobTemplate : IJobTemplate) : Prop :=
  now - jobTemplate.blockData.creation ≤ JobsService.maxAge →
    (jobsService.blocks jobTemplate.blockData.id).isSome

theorem isFresh_job {s : SessionId} : isFresh before now (.job s job jobTemplate) = true ↔
    Entry.job s job jobTemplate ∉ before ∧
      now - jobTemplate.blockData.creation ≤ JobsService.maxAge := by
  simp [isFresh]

theorem Retained.later (h : Retained before now jobsService work) (milliseconds : ℕ) :
    Retained before (now + milliseconds) jobsService work := fun s j t hmem hfresh ↦ by
  rw [isFresh_job] at hfresh
  exact h s j t hmem (isFresh_job.mpr ⟨hfresh.1, by omega⟩)

/-- A new template, when the registry is not wiped for it, leaves the work that is not too old. -/
theorem Retained.addTemplate (h : Retained before now jobsService work)
    (hregistry : Registry cfg now jobsService work) (address : String)
    (hid : jobTemplate.blockData.id = jobsService.getNextTemplateId)
    (hwipe : jobTemplate.blockData.clearJobs = true → work.any (isFresh before now) = false)
    (height : ℕ) :
    Retained before now
      (((jobsService.recordHeight address height).keep jobTemplate.blockData.clearJobs
        now).addTemplate jobTemplate)
      (.template address jobTemplate :: work) := by
  intro s j t hmem hfresh
  have hmem : Entry.job s j t ∈ work := by simpa using hmem
  have hclear : jobTemplate.blockData.clearJobs = false := by
    by_contra hclear
    have hnone := hwipe (by simpa using hclear)
    exact (List.any_eq_false.mp hnone _ hmem) hfresh
  obtain ⟨hjob, hblock⟩ := h s j t hmem hfresh
  obtain ⟨block, hblock⟩ := Option.isSome_iff_exists.mp hblock
  obtain ⟨htid, a, base, hbase, hbid, hcreation, hle⟩ := (hregistry.built _ _ _ hmem).template
  obtain ⟨hblockId, a', hblockMem⟩ := hregistry.blocks _ _ hblock
  obtain ⟨-, rfl⟩ := hregistry.templateUnique _ _ _ _ hblockMem hbase (hblockId.trans hbid.symm)
  have hage := (isFresh_job.mp hfresh).2
  have hne : j.jobTemplateId ≠ jobTemplate.blockData.id := by
    rw [← hbid, hid]
    exact hregistry.fresh_templateId hbase
  refine ⟨JobsService.jobs_keep.mpr ⟨hclear, hjob, by omega⟩, ?_⟩
  rw [JobsService.blocks_addTemplate_of_ne hne]
  exact Option.isSome_iff_exists.mpr
    ⟨block, JobsService.blocks_keep.mpr ⟨hclear, hblock, by omega⟩⟩

theorem Retained.addJob (h : Retained before now jobsService work)
    (hregistry : Registry cfg now jobsService work) (hid : job.jobId = jobsService.getNextId)
    (htemplate : job.jobTemplateId = jobTemplate.blockData.id)
    (hstocked : Stocked now jobsService jobTemplate) (s : SessionId) :
    Retained before now (jobsService.addJob job) (.job s job jobTemplate :: work) := by
  intro s' j t hmem hfresh
  rcases List.mem_cons.mp hmem with hmem | hmem
  · cases hmem
    refine ⟨JobsService.jobs_addJob_self, ?_⟩
    rw [htemplate]
    exact hstocked (isFresh_job.mp hfresh).2
  · obtain ⟨hjob, hblock⟩ := h s' j t hmem hfresh
    have hne : j.jobId ≠ job.jobId := by
      rw [hid]
      exact hregistry.fresh_jobId hmem
    exact ⟨(JobsService.jobs_addJob_of_ne hne).trans hjob, hblock⟩

def RetainedBy (before : List Entry) (v : View) : Prop :=
  Retained before v.now v.jobsService (v.history.filter isWork)

theorem RetainedBy.quiet (h : RetainedBy before v) (hquiet : Quiet v v') : RetainedBy before v' := by
  rw [RetainedBy, hquiet.now, hquiet.jobsService, hquiet.work]
  exact h

theorem RetainedBy.cacheTemplate (h : RetainedBy before v) (jobTemplate : IJobTemplate)
    (clear : Bool) : RetainedBy before (v.cacheTemplate jobTemplate clear) := h

theorem RetainedBy.sends {address : String} (h : RetainedBy before v) (hsound : Sound cfg v)
    (hstems : Stems (v.history.filter isWork) address jobTemplate)
    (hstocked : Stocked v.now v.jobsService jobTemplate) (hsends : Sends cfg v jobTemplate v') :
    RetainedBy before v' := by
  cases hsends with
  | nothing hquiet => exact h.quiet hquiet
  | issued sent hissues hquiet =>
    obtain ⟨hbuilt, hid, -⟩ := hissues.sound hsound hstems
    refine RetainedBy.quiet (v := issue v sent) ?_ hquiet
    have hadded := Retained.addJob h hsound.registry hid hbuilt.template.1 hstocked v.self
    rw [← hissues.template] at hadded
    exact hadded

theorem RetainedBy.build {address : String} {purpose : Purpose} {blockTemplate : IBlockTemplate}
    (h : RetainedBy before v) (hsound : Sound cfg v) (hguard : KeepsWork cfg before v e)
    (he : receives v e = some (address, purpose, blockTemplate))
    (hbuild : v.jobsService.buildTemplateFor cfg.js address blockTemplate v.now =
      (jobsService, some jobTemplate)) :
    RetainedBy before ({ v with jobsService }.log (.template address jobTemplate)) ∧
      Stocked v.now jobsService jobTemplate := by
  have hbuilds := JobsService.builds_of_buildTemplateFor hbuild
  have hwipe : jobTemplate.blockData.clearJobs = true →
      (v.history.filter isWork).any (isFresh before v.now) = false := by
    intro hclear
    have hwipes : wipes cfg v e = true := by
      rw [wipes, he, Option.any_some, Bool.and_eq_true]
      exact ⟨hbuilds.clearJobs.symm.trans hclear, JobsService.assembles_of_buildTemplateFor hbuild 0⟩
    rw [List.any_eq_false]
    intro entry hentry
    exact List.any_eq_false.mp (hguard.1 hwipes) entry (List.mem_of_mem_filter hentry)
  refine ⟨?_, fun _ ↦ ?_⟩
  · have hadded := Retained.addTemplate h hsound.registry address hbuilds.id hwipe
      blockTemplate.height
    rw [← hbuilds.service'] at hadded
    exact hadded
  · rw [hbuilds.service', JobsService.blocks_addTemplate_self]
    rfl

theorem stocked_of_guard (hguard : KeepsWork cfg before v e)
    (he : e = .localTimer ∨ e = .difficultyTimer)
    (hcache : v.session.currentJobTemplate = some jobTemplate) :
    Stocked v.now v.jobsService jobTemplate := by
  intro hage
  have hresends := hguard.2
  by_contra hnone
  simp only [resendsWiped, hcache, Option.any_some, JobsService.getJobTemplateById] at hresends
  simp_all

theorem RetainedBy.step (h : RetainedBy before v) (hsound : Sound cfg v)
    (hguard : KeepsWork cfg before v e) (hstep : Step cfg v e v') : RetainedBy before v' := by
  cases hstep with
  | quiet hquiet => exact h.quiet hquiet
  | authorized message he hquiet => exact RetainedBy.quiet (v := v.update _) h hquiet
  | requested message purpose _ hquiet => exact RetainedBy.quiet (v := v.suspend _) h hquiet
  | threw address purpose blockTemplate jobsService he hbuild hquiet =>
    refine RetainedBy.quiet (v := { v with jobsService }) ?_ hquiet
    rw [JobsService.eq_of_buildTemplateFor_none hbuild]
    exact h
  | refreshed address purpose blockTemplate jobsService jobTemplate he hpurpose hbuild hsends =>
    obtain ⟨hretained, hstocked⟩ := h.build hsound hguard he hbuild
    exact (hretained.cacheTemplate jobTemplate _).sends
      ((hsound.build (JobsService.builds_of_buildTemplateFor hbuild)).cacheTemplate
        List.mem_cons_self _) (.of_mem List.mem_cons_self) hstocked hsends
  | retargeted address blockTemplate jobsService jobTemplate timestamp he hbuild hsends =>
    obtain ⟨hretained, hstocked⟩ := h.build hsound hguard he hbuild
    exact (hretained.cacheTemplate jobTemplate _).sends
      ((hsound.build (JobsService.builds_of_buildTemplateFor hbuild)).cacheTemplate
        List.mem_cons_self _) (.retimed List.mem_cons_self timestamp true) hstocked hsends
  | renewed jobTemplate timestamp he hcache hsends =>
    obtain ⟨address, hmem⟩ := hsound.held.cached jobTemplate hcache
    have hstocked := stocked_of_guard hguard (.inl he) hcache
    exact h.sends hsound (.retimed hmem timestamp false) hstocked hsends
  | resent jobTemplate timestamp he hcache hsends =>
    obtain ⟨address, hmem⟩ := hsound.held.cached jobTemplate hcache
    have hstocked := stocked_of_guard hguard (.inr he) hcache
    exact (h.cacheTemplate jobTemplate false).sends (hsound.cacheTemplate hmem false)
      (.retimed hmem timestamp true) hstocked hsends

theorem retained_kept : Kept cfg (Sound cfg) (KeepsWork cfg before) (RetainedBy before) where
  tick _ milliseconds h := Retained.later h milliseconds
  act _ _ _ hsound h hguard hact := h.step hsound hguard (step_of_act hact)
  other _ _ _ _ _ _ hsound _ h hguard hact := by
    have hretained := h.step hsound hguard (step_of_act hact)
    exact hretained

/-- In every period that meets the guard, a job that was sent in it stays
acceptable until its template is too old. -/
theorem acceptable_of_keepsWork (cfg : Config) (now : ℕ) (pool₀ pool : Pool)
    (hpool₀ : Reachable (Pool.step cfg) (Pool.start now) pool₀)
    (h : Reach (Pool.step cfg) (onSession (KeepsWork cfg pool₀.history)) pool₀ pool)
    (session : SessionId) (job : MiningJob) (jobTemplate : IJobTemplate)
    (hjob : Entry.job session job jobTemplate ∈ pool.history)
    (hsent : Entry.job session job jobTemplate ∉ pool₀.history)
    (hage : pool.now - jobTemplate.blockData.creation ≤ JobsService.maxAge) :
    Acceptable pool.jobsService pool.history job := by
  have hregistry := (sound_of_reachable (hpool₀.trans h.reachable) 0).registry
  have hretained : ∀ id, RetainedBy pool₀.history (pool.view id) := by
    refine retained_kept.reach (fun p hp ↦ sound_of_reachable (hpool₀.trans hp))
      (fun id s j t hmem hfresh ↦ ?_) h
    exact absurd (List.mem_of_mem_filter hmem) (isFresh_job.mp hfresh).1
  obtain ⟨hregistered, hblock⟩ := hretained 0 session job jobTemplate
    (List.mem_filter.mpr ⟨hjob, rfl⟩) (isFresh_job.mpr ⟨hsent, hage⟩)
  obtain ⟨base, hbase⟩ := Option.isSome_iff_exists.mp hblock
  obtain ⟨hid, address, hmem⟩ := hregistry.blocks _ _ hbase
  exact ⟨hregistered, address, base, List.mem_of_mem_filter hmem, hid, hbase⟩

section Sample

open Reference

def SameTip (previousblockhash : Hash) (v : View) (e : SessionEvent) : Prop :=
  (receives v e).all (fun (_, _, blockTemplate) ↦
    decide (blockTemplate.previousblockhash = previousblockhash)) = true

instance (previousblockhash : Hash) (v : View) (e : SessionEvent) :
    Decidable (SameTip previousblockhash v e) := inferInstanceAs (Decidable (_ = _))

theorem acceptable_of_keepsWork_run :
    ∃ pool job, Reach (Pool.step settings) (onSession (KeepsWork settings []))
        (Pool.start 1700000000000) pool ∧
      (pool.sessions 0).sentJobs.length = 2 ∧ job.jobId = "1" ∧
      Acceptable pool.jobsService pool.history job := by
  obtain ⟨pool, hpool, hp⟩ := Reach.of_any (Pool.step settings)
    (onSession (KeepsWork settings [])) (Pool.start 1700000000000)
    (opening 0 alice ++ working 0 (answer 101 (hashOf 7)) ++
      .tick 60000 :: working 0 (answer 101 (hashOf 7)))
    (fun pool ↦ (pool.sessions 0).sentJobs.length = 2 && pool.history.any fun
      | .job _ job jobTemplate => job.jobId = "1" &&
        decide (pool.now - jobTemplate.blockData.creation ≤ JobsService.maxAge)
      | _ => false)
    (by decide +kernel) (by decide +kernel)
  simp only [Bool.and_eq_true, List.any_eq_true] at hp
  obtain ⟨hlength, entry, hentry, hjob⟩ := hp
  cases entry with
  | job session job jobTemplate =>
    simp only [Bool.and_eq_true, decide_eq_true_eq] at hjob
    exact ⟨pool, job, hpool, of_decide_eq_true hlength, hjob.1,
      acceptable_of_keepsWork settings 1700000000000 (Pool.start 1700000000000) pool .refl hpool
        session job jobTemplate hentry List.not_mem_nil hjob.2⟩
  | _ => cases hjob

/-- The first refresh of another address on the same tip wipes a job that was just sent. -/
theorem not_acceptable_of_first_refresh :
    ¬ ∀ (cfg : Config) (now : ℕ) (pool₀ pool : Pool) (previousblockhash : Hash),
      Reachable (Pool.step cfg) (Pool.start now) pool₀ →
      Reach (Pool.step cfg) (onSession (SameTip previousblockhash)) pool₀ pool →
      ∀ (session : SessionId) (job : MiningJob) (jobTemplate : IJobTemplate),
        Entry.job session job jobTemplate ∈ pool.history →
        Entry.job session job jobTemplate ∉ pool₀.history →
        pool.now - jobTemplate.blockData.creation ≤ JobsService.maxAge →
        Acceptable pool.jobsService pool.history job := by
  intro h
  obtain ⟨pool, hpool, hp⟩ := Reach.of_any (Pool.step settings) (onSession (SameTip (hashOf 7)))
    (Pool.start 1700000000000)
    (opening 0 alice ++ working 0 (answer 101 (hashOf 7)) ++ opening 1 bob ++
      working 1 (answer 101 (hashOf 7)))
    (fun pool ↦ pool.history.any fun
      | .job _ job jobTemplate => (pool.jobsService.getJobById job.jobId).isNone &&
        decide (pool.now - jobTemplate.blockData.creation ≤ JobsService.maxAge)
      | _ => false)
    (by decide +kernel) (by decide +kernel)
  obtain ⟨entry, hentry, hjob⟩ := List.any_eq_true.mp hp
  cases entry with
  | job session job jobTemplate =>
    simp only [Bool.and_eq_true, decide_eq_true_eq, Option.isNone_iff_eq_none] at hjob
    obtain ⟨hnone, hage⟩ := hjob
    obtain ⟨hsome, -⟩ := h settings _ _ pool _ .refl hpool session job jobTemplate hentry
      List.not_mem_nil hage
    simp [hnone] at hsome
  | _ => cases hjob

end Sample

end ElektronPool.JobRetention
