import ElektronPool.Reference
import ElektronPool.Work.Offer
import ElektronPool.Work.Provenance

namespace ElektronPool.JobReferences

open Lib Lib.Runs Model Model.View Work

variable {cfg : Config} {v v' : View} {e : SessionEvent} {jobTemplate : IJobTemplate}
  {jobsService : JobsService}

/-- Every job of the registry has its template there. -/
def Resolves (jobsService : JobsService) : Prop :=
  ∀ id job, jobsService.jobs id = some job → (jobsService.blocks job.jobTemplateId).isSome

def outlives (v : View) : Entry → Bool
  | .job _ job jobTemplate =>
    decide (v.jobsService.jobs job.jobId = some job) &&
      decide (v.now - job.creation ≤ JobsService.maxAge) &&
      decide (JobsService.maxAge < v.now - jobTemplate.blockData.creation)
  | _ => false

/-- The event delivers a template on the recorded height, for which the registry is aged. -/
def ages (cfg : Config) (v : View) (e : SessionEvent) : Bool :=
  (receives v e).any fun (address, _, blockTemplate) ↦
    !v.jobsService.isNewHeight address blockTemplate.height &&
      (JobsService.assembleBlock cfg.js blockTemplate 0).isSome

/-- No template is aged out while a job of it stays, and no work is sent again
from a template that the registry no longer holds. -/
def KeepsTemplates (cfg : Config) (v : View) (e : SessionEvent) : Prop :=
  (ages cfg v e = true → v.history.any (outlives v) = false) ∧
    (renews cfg v e).all (fun t ↦ (v.jobsService.blocks t.blockData.id).isSome) = true

instance (v : View) (e : SessionEvent) : Decidable (KeepsTemplates cfg v e) :=
  inferInstanceAs (Decidable ((_ → _) ∧ _))

theorem Resolves.addJob {job : MiningJob} (h : Resolves jobsService)
    (hblock : (jobsService.blocks job.jobTemplateId).isSome) :
    Resolves (jobsService.addJob job) := by
  intro id j hj
  by_cases hid : id = job.jobId
  · subst hid
    rw [JobsService.jobs_addJob_self] at hj
    cases hj
    exact hblock
  · rw [JobsService.jobs_addJob_of_ne hid] at hj
    exact h id j hj

theorem Resolves.addTemplate (h : Resolves jobsService) :
    Resolves (jobsService.addTemplate jobTemplate) := by
  intro id job hjob
  by_cases hid : job.jobTemplateId = jobTemplate.blockData.id
  · rw [hid, JobsService.blocks_addTemplate_self]
    rfl
  · rw [JobsService.blocks_addTemplate_of_ne hid]
    exact h id job hjob

theorem Resolves.ageOut (h : Resolves v.jobsService) (hsound : Sound cfg v)
    (hyoung : v.history.any (outlives v) = false) (address : String) (height : ℕ) :
    Resolves ((v.jobsService.recordHeight address height).keep false v.now) := by
  intro id job hjob
  obtain ⟨-, hjob, hage⟩ := JobsService.jobs_keep.mp hjob
  obtain ⟨block, hblock⟩ := Option.isSome_iff_exists.mp (h id job hjob)
  refine Option.isSome_iff_exists.mpr ⟨block, JobsService.blocks_keep.mpr ⟨rfl, hblock, ?_⟩⟩
  obtain ⟨hid, s, t, hmem⟩ := hsound.registry.jobs id job hjob
  obtain ⟨-, a, base, hbase, hbaseId, hcreation, -⟩ := (hsound.registry.built _ _ _ hmem).template
  obtain ⟨hblockId, a', hblockMem⟩ := hsound.registry.blocks _ _ hblock
  obtain ⟨-, rfl⟩ := hsound.registry.templateUnique _ _ _ _ hblockMem hbase
    (hblockId.trans hbaseId.symm)
  have hnot := List.any_eq_false.mp hyoung _ (List.mem_of_mem_filter hmem)
  subst hid
  simp only [outlives, Bool.and_eq_true, decide_eq_true_eq, not_and, not_lt] at hnot
  rw [hcreation]
  exact hnot ⟨hjob, hage⟩

theorem Resolves.build {address : String} {purpose : Purpose} {blockTemplate : IBlockTemplate}
    (h : Resolves v.jobsService) (hsound : Sound cfg v) (hguard : KeepsTemplates cfg v e)
    (he : receives v e = some (address, purpose, blockTemplate))
    (hbuild : v.jobsService.buildTemplateFor cfg.js address blockTemplate v.now =
      (jobsService, some jobTemplate)) :
    Resolves jobsService ∧ (jobsService.blocks jobTemplate.blockData.id).isSome := by
  have hbuilds := JobsService.builds_of_buildTemplateFor hbuild
  rw [hbuilds.service']
  refine ⟨Resolves.addTemplate ?_, by rw [JobsService.blocks_addTemplate_self]; rfl⟩
  cases hclear : jobTemplate.blockData.clearJobs with
  | true =>
    intro id job hjob
    simpa using (JobsService.jobs_keep.mp hjob).1
  | false =>
    refine h.ageOut hsound (hguard.1 ?_) address blockTemplate.height
    rw [ages, he, Option.any_some, Bool.and_eq_true, Bool.not_eq_true']
    exact ⟨hbuilds.clearJobs.symm.trans hclear, JobsService.assembles_of_buildTemplateFor hbuild 0⟩

theorem Resolves.sends (h : Resolves v.jobsService)
    (hblock : v'.session.sentJobs ≠ v.session.sentJobs →
      (v.jobsService.blocks jobTemplate.blockData.id).isSome)
    (hsends : Sends cfg v jobTemplate v') : Resolves v'.jobsService := by
  cases hsends with
  | nothing hquiet =>
    rw [hquiet.jobsService]
    exact h
  | issued sent hissues hquiet =>
    rw [hquiet.jobsService]
    refine h.addJob ?_
    obtain ⟨authorization, network, -, -, hjob⟩ := hissues.built
    obtain ⟨-, -, -, -, hid, -⟩ := MiningJob.new_eq_some hjob
    rw [hid]
    refine hblock ?_
    rw [hquiet.sentJobs]
    exact List.cons_ne_self _ _

theorem registered_of_renews (hact : v.act cfg e = some v') (hguard : KeepsTemplates cfg v e)
    (hreceives : receives v e = none) (hcache : v.session.currentJobTemplate = some jobTemplate)
    (hsent : v'.session.sentJobs ≠ v.session.sentJobs) :
    (v.jobsService.blocks jobTemplate.blockData.id).isSome := by
  obtain ⟨sent, -, hoffers, -⟩ := (offers_of_act hact).resolve_left hsent
  rw [offers, brings, hreceives, Option.bind_none, ite_self, Option.or_none] at hoffers
  have hregistered := hguard.2
  rw [hoffers, Option.all_some] at hregistered
  rw [renews.eq_def] at hoffers
  split at hoffers
  · obtain ⟨-, h⟩ := Option.ite_none_left_eq_some.mp hoffers
    rw [hcache, Option.map_some, Option.some.injEq] at h
    rwa [← h] at hregistered
  · obtain ⟨-, h⟩ := Option.ite_none_left_eq_some.mp hoffers
    rw [hcache, Option.map_some, Option.some.injEq] at h
    rwa [← h] at hregistered
  · cases hoffers

theorem Resolves.act (h : Resolves v.jobsService) (hsound : Sound cfg v)
    (hguard : KeepsTemplates cfg v e) (hact : v.act cfg e = some v') :
    Resolves v'.jobsService := by
  cases step_of_act hact with
  | quiet hquiet => exact hquiet.jobsService ▸ h
  | authorized _ _ hquiet => exact hquiet.jobsService ▸ h
  | requested _ _ _ hquiet => exact hquiet.jobsService ▸ h
  | threw address purpose blockTemplate jobsService he hbuild hquiet =>
    rw [hquiet.jobsService]
    change Resolves jobsService
    rw [JobsService.eq_of_buildTemplateFor_none hbuild]
    exact h
  | refreshed address purpose blockTemplate jobsService jobTemplate he hpurpose hbuild hsends =>
    obtain ⟨hresolves, hblock⟩ := h.build hsound hguard he hbuild
    exact Resolves.sends hresolves (fun _ ↦ hblock) hsends
  | retargeted address blockTemplate jobsService jobTemplate timestamp he hbuild hsends =>
    obtain ⟨hresolves, hblock⟩ := h.build hsound hguard he hbuild
    exact Resolves.sends hresolves (fun _ ↦ hblock) hsends
  | renewed jobTemplate timestamp he hcache hsends =>
    subst he
    have hblock := registered_of_renews hact hguard rfl hcache
    refine Resolves.sends h ?_ hsends
    exact hblock
  | resent jobTemplate timestamp he hcache hsends =>
    subst he
    have hblock := registered_of_renews hact hguard rfl hcache
    refine Resolves.sends (v := v.cacheTemplate jobTemplate false) h ?_ hsends
    exact hblock

theorem resolves_kept :
    Kept cfg (Sound cfg) (KeepsTemplates cfg) fun v ↦ Resolves v.jobsService where
  tick _ _ h := h
  act _ _ _ hsound h hguard hact := h.act hsound hguard hact
  other _ _ _ _ _ _ hsound _ h hguard hact := by
    have hresolves := h.act hsound hguard hact
    exact hresolves

/-- In every run whose steps meet the guard no job of the registry dangles. -/
theorem resolves_of_keepsTemplates (cfg : Config) (now : ℕ) (pool : Pool)
    (h : Reach (Pool.step cfg) (onSession (KeepsTemplates cfg)) (Pool.start now) pool) :
    Resolves pool.jobsService :=
  resolves_kept.reach (fun _ hpool ↦ sound_of_reachable hpool)
    (fun _ _ _ hjob ↦ by cases hjob) h 0

section Sample

open Reference

theorem resolves_of_keepsTemplates_run :
    ∃ pool, Reach (Pool.step settings) (onSession (KeepsTemplates settings))
        (Pool.start 1700000000000) pool ∧
      (pool.sessions 0).sentJobs.length = 3 ∧ Resolves pool.jobsService := by
  obtain ⟨pool, hpool, hp⟩ := Reach.of_any (Pool.step settings)
    (onSession (KeepsTemplates settings)) (Pool.start 1700000000000)
    (opening 0 alice ++ working 0 (answer 101 (hashOf 7)) ++
      [.tick 1000, .session 0 .localTimer, .session 0 (.resume 0 .done)] ++
      .tick 29000 :: working 0 (answer 101 (hashOf 7)))
    (fun pool ↦ (pool.sessions 0).sentJobs.length = 3) (by decide +kernel) (by decide +kernel)
  exact ⟨pool, hpool, of_decide_eq_true hp,
    resolves_of_keepsTemplates settings 1700000000000 pool hpool⟩

/-- Five minutes after a template was fetched it is dropped, and the local work
that was sent from it a little later stays. -/
theorem not_resolves_of_local_work :
    ¬ ∀ (cfg : Config) (now : ℕ) (pool : Pool),
      Reachable (Pool.step cfg) (Pool.start now) pool → Resolves pool.jobsService := by
  intro h
  obtain ⟨pool, hpool, hp⟩ := Reachable.of_any (Pool.step settings) (Pool.start 1700000000000)
    (opening 0 alice ++ working 0 (answer 101 (hashOf 7)) ++
      [.tick 29000, .session 0 .localTimer, .session 0 (.resume 0 .done)] ++
      .tick 272000 :: working 0 (answer 101 (hashOf 7)))
    (fun pool ↦ (pool.jobsService.jobs "2").any fun job ↦
      (pool.jobsService.blocks job.jobTemplateId).isNone) (by decide +kernel)
  obtain ⟨job, hjob, hnone⟩ := (Option.any_eq_true _ _).mp hp
  have hsome := h settings _ pool hpool "2" job hjob
  rw [Option.isNone_iff_eq_none] at hnone
  simp [hnone] at hsome

end Sample

end ElektronPool.JobReferences
