import ElektronPool.Lib.Log
import ElektronPool.Reference
import ElektronPool.Work.Provenance

namespace ElektronPool.JobLookup

open Lib Lib.Runs Lib.JavaScript Lib.Log Model Model.View Work

variable {cfg : Config} {v v' : View} {e : SessionEvent} {work history : List Entry}
  {entry other : Entry} {jobTemplate : IJobTemplate} {job : MiningJob} {sent : SentJob}
  {address : String} {jobsService jobsService' : JobsService} {now latest : ℕ} {ids : List String}
  {self : SessionId}

/-- When the registry was given a job or a template. -/
def creation : Entry → ℕ
  | .job _ job _ => job.creation
  | .template _ jobTemplate => jobTemplate.blockData.creation
  | _ => 0

/-- A template for a new tip drops all that is registered, any other one what is too old. -/
def Drops : Entry → Entry → Prop
  | .job _ _ _, _ => False
  | .template _ jobTemplate, entry => jobTemplate.blockData.clearJobs = true ∨
    JobsService.maxAge < jobTemplate.blockData.creation - creation entry
  | _, _ => False

def jobId : Entry → Option String
  | .job _ job _ => some job.jobId
  | _ => none

def templateId : Entry → Option String
  | .job _ _ _ => none
  | .template _ jobTemplate => some jobTemplate.blockData.id
  | _ => none

/-- The ids, newest first, are the numbers from one up to before the next, in hex. -/
def Counts (ids : List String) (latest : ℕ) : Prop :=
  ∃ n, latest = n + 1 ∧ ids.reverse = (List.range n).map fun k ↦ toString16 (k + 1 : ℕ)

theorem counts_nil : Counts [] 1 := ⟨0, rfl, rfl⟩

theorem Counts.cons (h : Counts ids latest) : Counts (toString16 latest :: ids) (latest + 1) := by
  obtain ⟨n, rfl, hids⟩ := h
  refine ⟨n + 1, rfl, ?_⟩
  rw [List.reverse_cons, hids, List.range_succ, List.map_append, List.map_singleton]

/-- What the registry holds is what stands in the history, and the ids are numbered in its
order. -/
structure Recorded (jobsService : JobsService) (history : List Entry) : Prop where
  jobs : ∀ id job, jobsService.getJobById id = some job ↔
    ∃ session jobTemplate, Stands Drops history (.job session job jobTemplate) ∧ job.jobId = id
  blocks : ∀ id jobTemplate, jobsService.getJobTemplateById id = some jobTemplate ↔
    ∃ address, Stands Drops history (.template address jobTemplate) ∧ jobTemplate.blockData.id = id
  jobIds : Counts (history.filterMap jobId) jobsService.latestJobId
  templateIds : Counts (history.filterMap templateId) jobsService.latestJobTemplateId

section Work

theorem not_drops_of_not_work (h : isWork other = false) : ¬ Drops other entry := by
  intro hdrops
  cases other with
  | template _ _ => cases h
  | _ => exact hdrops

theorem stands_work (hentry : isWork entry = true) :
    Stands Drops (history.filter isWork) entry ↔ Stands Drops history entry :=
  stands_filter hentry fun _ ↦ not_drops_of_not_work

theorem filterMap_work {f : Entry → Option String} (hf : ∀ e, isWork e = false → f e = none) :
    (history.filter isWork).filterMap f = history.filterMap f := by
  rw [List.filterMap_filter]
  apply List.filterMap_congr
  intro e _
  cases he : isWork e with
  | true => rfl
  | false => exact (hf e he).symm

theorem Recorded.of_work (h : Recorded jobsService (history.filter isWork)) :
    Recorded jobsService history where
  jobs id job := by
    have hstands (session : SessionId) (jobTemplate : IJobTemplate) :
        Stands Drops (history.filter isWork) (.job session job jobTemplate) ↔
          Stands Drops history (.job session job jobTemplate) := stands_work rfl
    simp only [h.jobs, hstands]
  blocks id jobTemplate := by
    have hstands (address : String) :
        Stands Drops (history.filter isWork) (.template address jobTemplate) ↔
          Stands Drops history (.template address jobTemplate) := stands_work rfl
    simp only [h.blocks, hstands]
  jobIds := by
    rw [← filterMap_work (f := jobId) fun e he ↦ by cases e <;> first | rfl | cases he]
    exact h.jobIds
  templateIds := by
    rw [← filterMap_work (f := templateId) fun e he ↦ by cases e <;> first | rfl | cases he]
    exact h.templateIds

end Work

section Registering

theorem recorded_start : Recorded {} [] where
  jobs _ _ := by
    constructor
    · intro h
      cases h
    · rintro ⟨_, _, hstands, _⟩
      exact absurd hstands not_stands_nil
  blocks _ _ := by
    constructor
    · intro h
      cases h
    · rintro ⟨_, hstands, _⟩
      exact absurd hstands not_stands_nil
  jobIds := counts_nil
  templateIds := counts_nil

theorem Recorded.addJob (h : Recorded jobsService work)
    (hregistry : Registry cfg now jobsService work) (hid : job.jobId = jobsService.getNextId) :
    Recorded (jobsService.addJob job) (.job self job jobTemplate :: work) where
  jobs id j := by
    simp only [stands_cons]
    by_cases hnext : id = job.jobId
    · subst hnext
      rw [JobsService.getJobById, JobsService.jobs_addJob_self, Option.some.injEq]
      constructor
      · rintro rfl
        exact ⟨self, jobTemplate, .inl rfl, rfl⟩
      · rintro ⟨s, t, hj | ⟨-, hj⟩, hsame⟩
        · cases hj
          rfl
        · exact absurd (hsame.trans hid) (hregistry.fresh_jobId hj.mem)
    · rw [JobsService.getJobById, JobsService.jobs_addJob_of_ne hnext, ← JobsService.getJobById,
        h.jobs]
      constructor
      · rintro ⟨s, t, hj, rfl⟩
        exact ⟨s, t, .inr ⟨id, hj⟩, rfl⟩
      · rintro ⟨s, t, hj | ⟨-, hj⟩, rfl⟩
        · cases hj
          exact absurd rfl hnext
        · exact ⟨s, t, hj, rfl⟩
  blocks id t := by
    have hblocks := h.blocks id t
    simp only [stands_cons, reduceCtorEq, false_or]
    refine hblocks.trans ⟨?_, ?_⟩
    · rintro ⟨a, ht, rfl⟩
      exact ⟨a, ⟨fun hdrops ↦ hdrops, ht⟩, rfl⟩
    · rintro ⟨a, ⟨-, ht⟩, rfl⟩
      exact ⟨a, ht, rfl⟩
  jobIds := by
    have hcons : (Entry.job self job jobTemplate :: work).filterMap jobId =
        toString16 jobsService.latestJobId :: work.filterMap jobId :=
      congrArg (· :: work.filterMap jobId) hid
    rw [hcons]
    exact h.jobIds.cons
  templateIds := h.templateIds

theorem drops_template (hcreation : jobTemplate.blockData.creation = now) :
    ¬ Drops (.template address jobTemplate) entry ↔
      jobTemplate.blockData.clearJobs = false ∧ now - creation entry ≤ JobsService.maxAge := by
  rw [Drops, hcreation, not_or, Bool.not_eq_true, Nat.not_lt]

theorem Recorded.builds {blockTemplate : IBlockTemplate} (h : Recorded jobsService work)
    (hregistry : Registry cfg now jobsService work)
    (hbuild : JobsService.Builds cfg.js jobsService address blockTemplate now jobsService'
      jobTemplate) : Recorded jobsService' (.template address jobTemplate :: work) where
  jobs id j := by
    have hjobs : jobsService'.getJobById id = some j ↔ jobTemplate.blockData.clearJobs = false ∧
        jobsService.getJobById id = some j ∧ now - j.creation ≤ JobsService.maxAge := by
      rw [hbuild.service']
      exact JobsService.jobs_keep
    simp only [hjobs, h.jobs, stands_cons, reduceCtorEq, false_or, drops_template hbuild.creation]
    constructor
    · rintro ⟨hclear, ⟨s, t, hj, rfl⟩, hage⟩
      exact ⟨s, t, ⟨⟨hclear, hage⟩, hj⟩, rfl⟩
    · rintro ⟨s, t, ⟨⟨hclear, hage⟩, hj⟩, rfl⟩
      exact ⟨hclear, ⟨s, t, hj, rfl⟩, hage⟩
  blocks id t := by
    simp only [stands_cons, drops_template hbuild.creation]
    rw [hbuild.service', JobsService.getJobTemplateById]
    by_cases hnext : id = jobTemplate.blockData.id
    · subst hnext
      rw [JobsService.blocks_addTemplate_self, Option.some.injEq]
      constructor
      · rintro rfl
        exact ⟨address, .inl rfl, rfl⟩
      · rintro ⟨a, ht | ⟨-, ht⟩, hsame⟩
        · cases ht
          rfl
        · exact absurd (hsame.trans hbuild.id) (hregistry.fresh_templateId ht.mem)
    · rw [JobsService.blocks_addTemplate_of_ne hnext, JobsService.blocks_keep]
      have hblocks := h.blocks id t
      constructor
      · rintro ⟨hclear, hheld, hage⟩
        obtain ⟨a, ht, rfl⟩ := hblocks.mp hheld
        exact ⟨a, .inr ⟨⟨hclear, hage⟩, ht⟩, rfl⟩
      · rintro ⟨a, ht | ⟨⟨hclear, hage⟩, ht⟩, rfl⟩
        · cases ht
          exact absurd rfl hnext
        · exact ⟨hclear, hblocks.mpr ⟨a, ht, rfl⟩, hage⟩
  jobIds := by
    rw [hbuild.service']
    simp only [JobsService.addTemplate, JobsService.latestJobId_keep]
    exact h.jobIds
  templateIds := by
    have hcons : (Entry.template address jobTemplate :: work).filterMap templateId =
        toString16 jobsService.latestJobTemplateId :: work.filterMap templateId :=
      congrArg (· :: work.filterMap templateId) hbuild.id
    rw [hcons, hbuild.service']
    simp only [JobsService.addTemplate, JobsService.latestJobTemplateId_keep]
    exact h.templateIds.cons

theorem Recorded.recordHeight (h : Recorded jobsService work) (height : ℕ) :
    Recorded (jobsService.recordHeight address height) work := ⟨h.jobs, h.blocks, h.jobIds,
  h.templateIds⟩

end Registering

section Runs

/-- The registry as one session sees it. -/
def RecordedBy (v : View) : Prop := Recorded v.jobsService (v.history.filter isWork)

theorem RecordedBy.quiet (h : RecordedBy v) (hquiet : Quiet v v') : RecordedBy v' := by
  rw [RecordedBy, hquiet.jobsService, hquiet.work]
  exact h

theorem RecordedBy.sends (h : RecordedBy v) (hsound : Sound cfg v)
    (hsends : Sends cfg v jobTemplate v') : RecordedBy v' := by
  cases hsends with
  | nothing hquiet => exact h.quiet hquiet
  | issued sent hissues hquiet =>
    obtain ⟨authorization, network, -, -, hjob⟩ := hissues.built
    obtain ⟨-, -, -, -, -, -, hid⟩ := MiningJob.new_eq_some hjob
    exact RecordedBy.quiet (v := issue v sent) (h.addJob hsound.registry hid) hquiet

theorem RecordedBy.fetches {blockTemplate : IBlockTemplate} {sending : IJobTemplate} {clear : Bool}
    (h : RecordedBy v) (hsound : Sound cfg v)
    (hbuild : v.jobsService.buildTemplateFor cfg.js address blockTemplate v.now =
      (jobsService, some jobTemplate))
    (hsends : Sends cfg (({ v with jobsService }.log (.template address jobTemplate)).cacheTemplate
      jobTemplate clear) sending v') : RecordedBy v' := by
  have hbuilds := JobsService.builds_of_buildTemplateFor hbuild
  have hlogged := hsound.build hbuilds
  have hrecorded : RecordedBy (({ v with jobsService }.log (.template address jobTemplate)
    ).cacheTemplate jobTemplate clear) := h.builds hsound.registry hbuilds
  exact hrecorded.sends (hlogged.cacheTemplate List.mem_cons_self clear) hsends

theorem RecordedBy.step (h : RecordedBy v) (hsound : Sound cfg v) (hstep : Step cfg v e v') :
    RecordedBy v' := by
  cases hstep with
  | quiet hquiet => exact h.quiet hquiet
  | authorized message he hquiet => exact RecordedBy.quiet (v := v.update _) h hquiet
  | requested message purpose _ hquiet => exact RecordedBy.quiet (v := v.suspend _) h hquiet
  | threw address purpose blockTemplate jobsService he hbuild hquiet =>
    refine RecordedBy.quiet (v := { v with jobsService }) ?_ hquiet
    rw [JobsService.eq_of_buildTemplateFor_none hbuild]
    exact h.recordHeight blockTemplate.height
  | refreshed address purpose blockTemplate jobsService jobTemplate he hpurpose hbuild hsends =>
    exact h.fetches hsound hbuild hsends
  | retargeted address blockTemplate jobsService jobTemplate timestamp he hbuild hsends =>
    exact h.fetches hsound hbuild hsends
  | renewed jobTemplate timestamp he hcache hsends => exact h.sends hsound hsends
  | resent jobTemplate timestamp he hcache hsends =>
    obtain ⟨address, hmem⟩ := hsound.held.cached jobTemplate hcache
    exact RecordedBy.sends (v := v.cacheTemplate jobTemplate false) h
      (hsound.cacheTemplate hmem false) hsends

theorem recorded_kept : Kept cfg (Sound cfg) (fun _ _ ↦ True) RecordedBy where
  tick _ _ h := h
  act _ _ _ hsound h _ hact := h.step hsound (step_of_act hact)
  other _ _ v' _ _ _ hsound _ h _ hact := by
    have hstep : RecordedBy v' := h.step hsound (step_of_act hact)
    exact hstep

theorem recorded_of_reachable {pool : Pool}
    (h : Reachable (Pool.step cfg) (Pool.start now) pool) :
    Recorded pool.jobsService pool.history := by
  have hrecorded : RecordedBy (pool.view 0) :=
    recorded_kept.reach (fun _ hpool ↦ sound_of_reachable hpool) (fun _ ↦ recorded_start)
      (reachable_of_reach h) 0
  exact Recorded.of_work hrecorded

end Runs

/-- A submission finds a job and its template exactly when both stand in the history: no template
for a new tip was fetched since, and each of the others within five minutes. The ids
are the numbers of the jobs and of the templates, so any session finds any of them. -/
theorem found_iff_of_reachable (cfg : Config) (now : ℕ) (pool : Pool)
    (h : Reachable (Pool.step cfg) (Pool.start now) pool) :
    (∀ id job jobTemplate, pool.jobsService.getJobById id = some job ∧
        pool.jobsService.getJobTemplateById job.jobTemplateId = some jobTemplate ↔
      (∃ session sent, Stands Drops pool.history (.job session job sent) ∧ job.jobId = id) ∧
        ∃ address, Stands Drops pool.history (.template address jobTemplate) ∧
          jobTemplate.blockData.id = job.jobTemplateId) ∧
      Counts (pool.history.filterMap jobId) pool.jobsService.latestJobId ∧
      Counts (pool.history.filterMap templateId) pool.jobsService.latestJobTemplateId := by
  have hrecorded := recorded_of_reachable h
  refine ⟨fun id job jobTemplate ↦ ?_, hrecorded.jobIds, hrecorded.templateIds⟩
  rw [hrecorded.jobs, hrecorded.blocks]

section Sample

open Reference

theorem found_iff_of_reachable_run :
    ∃ pool, Reachable (Pool.step settings) (Pool.start 1700000000000) pool ∧
      (pool.sessions 0).sentJobs.map (fun sent ↦ sent.job.jobId) = ["2", "1"] ∧
      (∃ session job sent, Stands Drops pool.history (.job session job sent) ∧ job.jobId = "2") ∧
      ¬ ∃ session job sent address jobTemplate,
        Stands Drops pool.history (.job session job sent) ∧ job.jobId = "1" ∧
          Stands Drops pool.history (.template address jobTemplate) ∧
          jobTemplate.blockData.id = job.jobTemplateId := by
  obtain ⟨pool, hpool, hp⟩ := Reachable.of_any (Pool.step settings) (Pool.start 1700000000000)
    (opening 0 alice ++ working 0 (answer 101 (hashOf 7)) ++
      .tick 300001 :: working 0 (answer 101 (hashOf 7)))
    (fun pool ↦ (pool.sessions 0).sentJobs.map (fun sent ↦ sent.job.jobId) == ["2", "1"] &&
      (pool.jobsService.getJobById "2").any (fun job ↦
        (pool.jobsService.getJobTemplateById job.jobTemplateId).isSome) &&
      (pool.jobsService.getJobById "1").isNone) (by decide +kernel)
  simp only [Bool.and_eq_true, beq_iff_eq, Option.isNone_iff_eq_none] at hp
  obtain ⟨⟨hsent, hsecond⟩, hfirst⟩ := hp
  obtain ⟨job, hjob, hsome⟩ := (Option.any_eq_true _ _).mp hsecond
  obtain ⟨jobTemplate, htemplate⟩ := Option.isSome_iff_exists.mp hsome
  obtain ⟨hfound, -, -⟩ := found_iff_of_reachable settings 1700000000000 pool hpool
  refine ⟨pool, hpool, hsent, ?_, ?_⟩
  · obtain ⟨⟨session, sent, hstands, hid⟩, -⟩ := (hfound "2" job jobTemplate).mp ⟨hjob, htemplate⟩
    exact ⟨session, job, sent, hstands, hid⟩
  · rintro ⟨session, job, sent, address, jobTemplate, hstands, hid, htemplate, htemplateId⟩
    have hlookup := (hfound "1" job jobTemplate).mpr
      ⟨⟨session, sent, hstands, hid⟩, address, htemplate, htemplateId⟩
    rw [hfirst] at hlookup
    cases hlookup.1

end Sample

end ElektronPool.JobLookup
