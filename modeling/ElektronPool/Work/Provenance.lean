import ElektronPool.Lib.Codec
import ElektronPool.Work.Sessions

namespace ElektronPool.Work

open Lib Lib.Runs Lib.JavaScript Model Model.View

variable {cfg : Config} {v v' : View} {e : SessionEvent} {work work' : List Entry}
  {jobTemplate base : IJobTemplate} {job job' : MiningJob} {address : String} {sent : SentJob}
  {pool pool' : Pool} {id : SessionId}

/-- A template that was fetched for an address, at some time, for a new block or not. -/
def Stems (work : List Entry) (address : String) (jobTemplate : IJobTemplate) : Prop :=
  ∃ base timestamp clearJobs, Entry.template address base ∈ work ∧
    jobTemplate = retimedJobTemplate base timestamp clearJobs

theorem Stems.of_mem (h : Entry.template address base ∈ work) : Stems work address base :=
  ⟨base, base.block.timestamp, base.blockData.clearJobs, h, rfl⟩

theorem Stems.retimed (h : Entry.template address base ∈ work) (timestamp : ℕ) (clearJobs : Bool) :
    Stems work address (retimedJobTemplate base timestamp clearJobs) :=
  ⟨base, timestamp, clearJobs, h, rfl⟩

theorem Stems.mono (hwork : work ⊆ work') (h : Stems work address jobTemplate) :
    Stems work' address jobTemplate := by
  obtain ⟨base, timestamp, clearJobs, hmem, heq⟩ := h
  exact ⟨base, timestamp, clearJobs, hwork hmem, heq⟩

/-- What every template keeps of the answer it was built from. -/
structure Fetched (js : BitcoinJs) (jobTemplate : IJobTemplate) : Prop where
  networkDifficulty : jobTemplate.blockData.networkDifficulty =
    calculateNetworkDifficulty jobTemplate.block.bits
  transactions : ∀ tx ∈ jobTemplate.block.transactions.tail,
    ∃ buffer, js.transactionFromBuffer buffer = some tx

/-- A job that was built, for a valid address, from a template that was fetched. -/
structure Built (cfg : Config) (work : List Entry) (job : MiningJob) (jobTemplate : IJobTemplate) :
    Prop where
  stems : ∃ address, Stems work address jobTemplate
  made : ∃ network payee rotationState, cfg.network = some network ∧
    (cfg.js.toOutputScript network payee).isSome ∧
    MiningJob.new cfg.js network job.jobId [⟨payee, 100⟩]
      (versionedJobTemplate jobTemplate rotationState) job.creation = some job
  creation : jobTemplate.blockData.creation ≤ job.creation

theorem Built.mono (hwork : work ⊆ work') (h : Built cfg work job jobTemplate) :
    Built cfg work' job jobTemplate := by
  obtain ⟨address, hstems⟩ := h.stems
  exact ⟨⟨address, hstems.mono hwork⟩, h.made, h.creation⟩

theorem Built.template (h : Built cfg work job jobTemplate) :
    job.jobTemplateId = jobTemplate.blockData.id ∧
      ∃ a base, Entry.template a base ∈ work ∧ base.blockData.id = job.jobTemplateId ∧
        base.blockData.creation = jobTemplate.blockData.creation ∧
        base.blockData.creation ≤ job.creation := by
  obtain ⟨⟨a, base, timestamp, clearJobs, hmem, rfl⟩, ⟨network, payee, rotationState, -, -, hnew⟩,
    hcreation⟩ := h
  obtain ⟨-, -, -, -, hid, -⟩ := MiningJob.new_eq_some hnew
  exact ⟨hid, a, base, hmem, hid.symm, rfl, hcreation⟩

/-- The registry holds fetched templates and built jobs, each under an id of its own. -/
structure Registry (cfg : Config) (now : ℕ) (jobsService : JobsService) (work : List Entry) :
    Prop where
  templateId : ∀ a t, Entry.template a t ∈ work →
    ∃ n < jobsService.latestJobTemplateId, t.blockData.id = toString16 n
  templateCreation : ∀ a t, Entry.template a t ∈ work → t.blockData.creation ≤ now
  templateUnique : ∀ a t a' t', Entry.template a t ∈ work → Entry.template a' t' ∈ work →
    t.blockData.id = t'.blockData.id → a = a' ∧ t = t'
  fetched : ∀ a t, Entry.template a t ∈ work → Fetched cfg.js t
  jobId : ∀ s j t, Entry.job s j t ∈ work → ∃ n < jobsService.latestJobId, j.jobId = toString16 n
  jobCreation : ∀ s j t, Entry.job s j t ∈ work → j.creation ≤ now
  jobUnique : ∀ s j t s' j' t', Entry.job s j t ∈ work → Entry.job s' j' t' ∈ work →
    j.jobId = j'.jobId → s = s' ∧ j = j' ∧ t = t'
  built : ∀ s j t, Entry.job s j t ∈ work → Built cfg work j t
  blocks : ∀ id t, jobsService.blocks id = some t → t.blockData.id = id ∧
    ∃ a, Entry.template a t ∈ work
  jobs : ∀ id j, jobsService.jobs id = some j → j.jobId = id ∧ ∃ s t, Entry.job s j t ∈ work

structure Held (cfg : Config) (id : SessionId) (session : Session) (work : List Entry) : Prop where
  valid : ∀ message, session.clientAuthorization = some message →
    cfg.isBitcoinAddress message.address = true
  cached : ∀ t, session.currentJobTemplate = some t → ∃ a, Entry.template a t ∈ work
  sent : ∀ sent ∈ session.sentJobs, Entry.job id sent.job sent.jobTemplate ∈ work ∧
    sent.params = sent.job.response (versionedJobTemplate sent.jobTemplate sent.rotationState)
  notices : session.wire.filterMap notice = session.sentJobs.map SentJob.params

structure Sound (cfg : Config) (v : View) : Prop where
  registry : Registry cfg v.now v.jobsService (v.history.filter isWork)
  held : Held cfg v.self v.session (v.history.filter isWork)

theorem Held.mono {session : Session} (hwork : work ⊆ work') (h : Held cfg id session work) :
    Held cfg id session work' where
  valid := h.valid
  cached t ht := by
    obtain ⟨a, ha⟩ := h.cached t ht
    exact ⟨a, hwork ha⟩
  sent sent hsent := ⟨hwork (h.sent sent hsent).1, (h.sent sent hsent).2⟩
  notices := h.notices

theorem Registry.later {now : ℕ} {jobsService : JobsService} (h : Registry cfg now jobsService work)
    (milliseconds : ℕ) : Registry cfg (now + milliseconds) jobsService work :=
  { h with
    templateCreation := fun a t ht ↦ (h.templateCreation a t ht).trans (Nat.le_add_right _ _)
    jobCreation := fun s j t hj ↦ (h.jobCreation s j t hj).trans (Nat.le_add_right _ _) }

theorem Quiet.mem_iff (h : Quiet v v') {entry : Entry} (hentry : isWork entry = true) :
    entry ∈ v'.history ↔ entry ∈ v.history := by
  have hmem : entry ∈ v'.history.filter isWork ↔ entry ∈ v.history.filter isWork := by rw [h.work]
  simpa only [List.mem_filter, hentry, and_true] using hmem

theorem Sound.quiet (hsound : Sound cfg v) (h : Quiet v v') : Sound cfg v' := by
  have hregistry := hsound.registry
  have hheld := hsound.held
  rw [← h.now, ← h.jobsService, ← h.work] at hregistry
  rw [← h.work, ← h.self] at hheld
  refine ⟨hregistry, ⟨?_, ?_, ?_, ?_⟩⟩
  · rw [h.clientAuthorization]
    exact hheld.valid
  · intro t ht
    rcases h.currentJobTemplate with hcache | hcache
    · exact hheld.cached t (hcache ▸ ht)
    · simp [hcache] at ht
  · rw [h.sentJobs]
    exact hheld.sent
  · rw [h.notices, h.sentJobs]
    exact hheld.notices

section Registering

variable {now : ℕ} {jobsService jobsService' : JobsService}

theorem Registry.shrink (h : Registry cfg now jobsService work)
    (htemplates : jobsService'.latestJobTemplateId = jobsService.latestJobTemplateId)
    (hcounter : jobsService'.latestJobId = jobsService.latestJobId)
    (hblocks : ∀ id t, jobsService'.blocks id = some t → jobsService.blocks id = some t)
    (hjobs : ∀ id j, jobsService'.jobs id = some j → jobsService.jobs id = some j) :
    Registry cfg now jobsService' work where
  templateId := by
    rw [htemplates]
    exact h.templateId
  templateCreation := h.templateCreation
  templateUnique := h.templateUnique
  fetched := h.fetched
  jobId := by
    rw [hcounter]
    exact h.jobId
  jobCreation := h.jobCreation
  jobUnique := h.jobUnique
  built := h.built
  blocks id t ht := h.blocks id t (hblocks id t ht)
  jobs id j hj := h.jobs id j (hjobs id j hj)

theorem Registry.fresh_templateId (h : Registry cfg now jobsService work)
    (hmem : Entry.template address base ∈ work) :
    base.blockData.id ≠ jobsService.getNextTemplateId := by
  obtain ⟨n, hn, hid⟩ := h.templateId _ _ hmem
  intro heq
  have hnext : n = jobsService.latestJobTemplateId :=
    toString16_natCast_injective (hid.symm.trans heq)
  omega

theorem Registry.addTemplate (h : Registry cfg now jobsService work)
    (hid : jobTemplate.blockData.id = jobsService.getNextTemplateId)
    (hcreation : jobTemplate.blockData.creation = now) (hfetched : Fetched cfg.js jobTemplate) :
    Registry cfg now (jobsService.addTemplate jobTemplate)
      (.template address jobTemplate :: work) where
  templateId a t ht := by
    rcases List.mem_cons.mp ht with ht | ht
    · cases ht
      exact ⟨_, Nat.lt_succ_self _, hid⟩
    · obtain ⟨n, hn, hid⟩ := h.templateId a t ht
      exact ⟨n, Nat.lt_succ_of_lt hn, hid⟩
  templateCreation a t ht := by
    rcases List.mem_cons.mp ht with ht | ht
    · cases ht
      exact hcreation.le
    · exact h.templateCreation a t ht
  templateUnique a t a' t' ht ht' heq := by
    rcases List.mem_cons.mp ht with ht | ht <;> rcases List.mem_cons.mp ht' with ht' | ht'
    · cases ht
      cases ht'
      exact ⟨rfl, rfl⟩
    · cases ht
      exact absurd (heq.symm.trans hid) (h.fresh_templateId ht')
    · cases ht'
      exact absurd (heq.trans hid) (h.fresh_templateId ht)
    · exact h.templateUnique a t a' t' ht ht' heq
  fetched a t ht := by
    rcases List.mem_cons.mp ht with ht | ht
    · cases ht
      exact hfetched
    · exact h.fetched a t ht
  jobId s j t hj := h.jobId s j t (by simpa using hj)
  jobCreation s j t hj := h.jobCreation s j t (by simpa using hj)
  jobUnique s j t s' j' t' hj hj' :=
    h.jobUnique s j t s' j' t' (by simpa using hj) (by simpa using hj')
  built s j t hj := (h.built s j t (by simpa using hj)).mono (List.subset_cons_self _ _)
  blocks id t ht := by
    by_cases hnext : id = jobTemplate.blockData.id
    · subst hnext
      rw [JobsService.blocks_addTemplate_self] at ht
      cases ht
      exact ⟨rfl, address, List.mem_cons_self⟩
    · rw [JobsService.blocks_addTemplate_of_ne hnext] at ht
      obtain ⟨hid, a, ha⟩ := h.blocks id t ht
      exact ⟨hid, a, List.mem_cons_of_mem _ ha⟩
  jobs id j hj := by
    obtain ⟨hid, s, t, hmem⟩ := h.jobs id j hj
    exact ⟨hid, s, t, List.mem_cons_of_mem _ hmem⟩

theorem Registry.fresh_jobId (h : Registry cfg now jobsService work)
    (hmem : Entry.job id job jobTemplate ∈ work) : job.jobId ≠ jobsService.getNextId := by
  obtain ⟨n, hn, hid⟩ := h.jobId _ _ _ hmem
  intro heq
  have hnext : n = jobsService.latestJobId := toString16_natCast_injective (hid.symm.trans heq)
  omega

theorem Registry.addJob (h : Registry cfg now jobsService work)
    (hid : job.jobId = jobsService.getNextId) (hcreation : job.creation = now)
    (hbuilt : Built cfg work job jobTemplate) :
    Registry cfg now (jobsService.addJob job) (.job id job jobTemplate :: work) where
  templateId a t ht := h.templateId a t (by simpa using ht)
  templateCreation a t ht := h.templateCreation a t (by simpa using ht)
  templateUnique a t a' t' ht ht' :=
    h.templateUnique a t a' t' (by simpa using ht) (by simpa using ht')
  fetched a t ht := h.fetched a t (by simpa using ht)
  jobId s j t hj := by
    rcases List.mem_cons.mp hj with hj | hj
    · cases hj
      exact ⟨_, Nat.lt_succ_self _, hid⟩
    · obtain ⟨n, hn, hid⟩ := h.jobId s j t hj
      exact ⟨n, Nat.lt_succ_of_lt hn, hid⟩
  jobCreation s j t hj := by
    rcases List.mem_cons.mp hj with hj | hj
    · cases hj
      exact hcreation.le
    · exact h.jobCreation s j t hj
  jobUnique s j t s' j' t' hj hj' heq := by
    rcases List.mem_cons.mp hj with hj | hj <;> rcases List.mem_cons.mp hj' with hj' | hj'
    · cases hj
      cases hj'
      exact ⟨rfl, rfl, rfl⟩
    · cases hj
      exact absurd (heq.symm.trans hid) (h.fresh_jobId hj')
    · cases hj'
      exact absurd (heq.trans hid) (h.fresh_jobId hj)
    · exact h.jobUnique s j t s' j' t' hj hj' heq
  built s j t hj := by
    rcases List.mem_cons.mp hj with hj | hj
    · cases hj
      exact hbuilt.mono (List.subset_cons_self _ _)
    · exact (h.built s j t hj).mono (List.subset_cons_self _ _)
  blocks id t ht := by
    obtain ⟨hid, a, ha⟩ := h.blocks id t ht
    exact ⟨hid, a, List.mem_cons_of_mem _ ha⟩
  jobs id' j hj := by
    by_cases hnext : id' = job.jobId
    · subst hnext
      rw [JobsService.jobs_addJob_self] at hj
      cases hj
      exact ⟨rfl, id, jobTemplate, List.mem_cons_self⟩
    · rw [JobsService.jobs_addJob_of_ne hnext] at hj
      obtain ⟨hid, s, t, hmem⟩ := h.jobs id' j hj
      exact ⟨hid, s, t, List.mem_cons_of_mem _ hmem⟩

theorem fetched_of_builds {js : BitcoinJs} {now : ℕ} {blockTemplate : IBlockTemplate}
    (hbuild : JobsService.Builds js jobsService address blockTemplate now jobsService'
      jobTemplate) : Fetched js jobTemplate where
  networkDifficulty := hbuild.networkDifficulty
  transactions tx htx := by
    obtain ⟨parsed, hparsed, htransactions⟩ := hbuild.transactions
    rw [htransactions, List.tail_cons] at htx
    obtain ⟨buffer, -, hbuffer⟩ := Codec.exists_of_mem_mapM hparsed htx
    exact ⟨buffer, hbuffer⟩

theorem Registry.builds {blockTemplate : IBlockTemplate} (h : Registry cfg now jobsService work)
    (hbuild : JobsService.Builds cfg.js jobsService address blockTemplate now jobsService'
      jobTemplate) :
    Registry cfg now jobsService' (.template address jobTemplate :: work) := by
  rw [hbuild.service']
  refine (h.shrink ?_ ?_ (fun _ _ ht ↦ ?_) fun _ _ hj ↦ ?_).addTemplate ?_ hbuild.creation
    (fetched_of_builds hbuild)
  · exact JobsService.latestJobTemplateId_keep
  · exact JobsService.latestJobId_keep
  · exact (JobsService.blocks_keep.mp ht).2.1
  · exact (JobsService.jobs_keep.mp hj).2.1
  · rw [hbuild.id, JobsService.getNextTemplateId, JobsService.getNextTemplateId,
      JobsService.latestJobTemplateId_keep]
    rfl

end Registering

section Moves

theorem Sound.cacheTemplate (h : Sound cfg v)
    (hmem : Entry.template address jobTemplate ∈ v.history.filter isWork) (clear : Bool) :
    Sound cfg (v.cacheTemplate jobTemplate clear) where
  registry := h.registry
  held :=
    { valid := h.held.valid
      cached := fun t ht ↦ by
        cases ht
        exact ⟨address, hmem⟩
      sent := h.held.sent
      notices := h.held.notices }

theorem Sound.build {blockTemplate : IBlockTemplate} {jobsService : JobsService} (h : Sound cfg v)
    (hbuild : JobsService.Builds cfg.js v.jobsService address blockTemplate v.now jobsService
      jobTemplate) :
    Sound cfg ({ v with jobsService }.log (.template address jobTemplate)) where
  registry := h.registry.builds hbuild
  held := h.held.mono (List.subset_cons_self _ _)

theorem Issues.sound (h : Sound cfg v) (hissues : Issues cfg v jobTemplate sent)
    (hstems : Stems (v.history.filter isWork) address jobTemplate) :
    Built cfg (v.history.filter isWork) sent.job jobTemplate ∧
      sent.job.jobId = v.jobsService.getNextId ∧ sent.job.creation = v.now := by
  obtain ⟨authorization, network, hauthorization, hnetwork, hjob⟩ := hissues.built
  obtain ⟨-, -, -, -, -, hcreation, hid⟩ := MiningJob.new_eq_some hjob
  have hvalid := h.held.valid authorization hauthorization
  simp only [Config.isBitcoinAddress, hnetwork, Option.any_some] at hvalid
  refine ⟨⟨⟨address, hstems⟩, ⟨network, authorization.address, _, hnetwork, hvalid,
    by rw [hid, hcreation]; exact hjob⟩, ?_⟩, hid, hcreation⟩
  obtain ⟨base, timestamp, clearJobs, hmem, rfl⟩ := hstems
  rw [hcreation]
  exact h.registry.templateCreation address base hmem

theorem Sound.issue (h : Sound cfg v) (hissues : Issues cfg v jobTemplate sent)
    (hstems : Stems (v.history.filter isWork) address jobTemplate) : Sound cfg (issue v sent) := by
  obtain ⟨hbuilt, hid, hcreation⟩ := hissues.sound h hstems
  rw [← hissues.template] at hbuilt
  refine ⟨h.registry.addJob hid hcreation hbuilt, h.held.valid, ?_, ?_, ?_⟩
  · intro t ht
    obtain ⟨a, ha⟩ := h.held.cached t ht
    exact ⟨a, List.mem_cons_of_mem _ ha⟩
  · intro sent' hsent'
    rcases List.mem_cons.mp hsent' with rfl | hsent'
    · exact ⟨List.mem_cons_self, by rw [hissues.template]; exact hissues.params⟩
    · obtain ⟨hmem, hparams⟩ := h.held.sent sent' hsent'
      exact ⟨List.mem_cons_of_mem _ hmem, hparams⟩
  · exact congrArg (sent.params :: ·) h.held.notices

theorem Sound.sends (h : Sound cfg v)
    (hstems : Stems (v.history.filter isWork) address jobTemplate)
    (hsends : Sends cfg v jobTemplate v') : Sound cfg v' := by
  cases hsends with
  | nothing hquiet => exact h.quiet hquiet
  | issued sent hissues hquiet => exact (h.issue hissues hstems).quiet hquiet

theorem isBitcoinAddress_of_authorizes {message : AuthorizationMessage}
    (h : authorizes cfg v e = some message) : cfg.isBitcoinAddress message.address = true := by
  rw [authorizes.eq_def] at h
  split at h
  · split at h
    · obtain ⟨hvalid, h⟩ := Option.ite_none_right_eq_some.mp h
      cases h
      exact (Bool.and_eq_true_iff.mp hvalid).2
    · cases h
  · cases h

theorem Sound.authorize (h : Sound cfg v) (message : AuthorizationMessage)
    (hvalid : cfg.isBitcoinAddress message.address = true) :
    Sound cfg (v.update fun s ↦ { s with clientAuthorization := some message }) where
  registry := h.registry
  held :=
    { valid := fun m hm ↦ by
        cases hm
        exact hvalid
      cached := h.held.cached
      sent := h.held.sent
      notices := h.held.notices }

theorem Sound.step (h : Sound cfg v) (hstep : Step cfg v e v') : Sound cfg v' := by
  cases hstep with
  | quiet hquiet => exact h.quiet hquiet
  | authorized message he hquiet =>
    exact (h.authorize message (isBitcoinAddress_of_authorizes he)).quiet hquiet
  | requested message purpose _ hquiet =>
    exact Sound.quiet (v := v.suspend _)
      ⟨h.registry, ⟨h.held.valid, h.held.cached, h.held.sent, h.held.notices⟩⟩ hquiet
  | threw address purpose blockTemplate jobsService he hbuild hquiet =>
    refine Sound.quiet (v := { v with jobsService }) ⟨?_, h.held⟩ hquiet
    rw [JobsService.eq_of_buildTemplateFor_none hbuild]
    exact h.registry.shrink rfl rfl (fun _ _ ht ↦ ht) fun _ _ hj ↦ hj
  | refreshed address purpose blockTemplate jobsService jobTemplate he hpurpose hbuild hsends =>
    exact ((h.build (JobsService.builds_of_buildTemplateFor hbuild)).cacheTemplate
      List.mem_cons_self _).sends (.of_mem List.mem_cons_self) hsends
  | retargeted address blockTemplate jobsService jobTemplate timestamp he hbuild hsends =>
    exact ((h.build (JobsService.builds_of_buildTemplateFor hbuild)).cacheTemplate
      List.mem_cons_self _).sends (.retimed List.mem_cons_self timestamp true) hsends
  | renewed jobTemplate timestamp he hcache hsends =>
    obtain ⟨address, hmem⟩ := h.held.cached jobTemplate hcache
    exact h.sends (.retimed hmem timestamp false) hsends
  | resent jobTemplate timestamp he hcache hsends =>
    obtain ⟨address, hmem⟩ := h.held.cached jobTemplate hcache
    exact (h.cacheTemplate hmem false).sends (.retimed hmem timestamp true) hsends

end Moves

theorem sound_start (now : ℕ) (id : SessionId) : Sound cfg ((Pool.start now).view id) where
  registry := by constructor <;> simp [Pool.start, Pool.view]
  held := by constructor <;> simp [Pool.start, Pool.view]

theorem sound_kept : Kept cfg (fun _ ↦ True) (fun _ _ ↦ True) (Sound cfg) where
  tick _ milliseconds h := ⟨h.registry.later milliseconds, h.held⟩
  act _ _ _ _ h _ hact := h.step (step_of_act hact)
  other _ _ _ _ _ _ _ hother h _ hact :=
    ⟨(h.step (step_of_act hact)).registry, hother.held.mono (extends_of_act hact).work⟩

/-- In every state of every run the registry and the sessions are sound. -/
theorem sound_of_reachable {now : ℕ} (h : Reachable (Pool.step cfg) (Pool.start now) pool) :
    ∀ id, Sound cfg (pool.view id) :=
  sound_kept.reach (fun _ _ _ ↦ trivial) (sound_start now) (reachable_of_reach h)

end ElektronPool.Work
