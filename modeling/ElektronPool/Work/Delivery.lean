import ElektronPool.Work.Sessions

namespace ElektronPool.Work

open Lib.Runs Model Model.View

variable {cfg : Config} {v v' : View} {e : SessionEvent} {jobTemplate t : IJobTemplate}
  {job : MiningJob} {s : SessionId} {pool : Pool} {now : ℕ}

def BuiltFor (cfg : Config) (session : Session) (job : MiningJob) : Prop :=
  ∃ message network jobId jobTemplate now, session.clientAuthorization = some message ∧
    cfg.network = some network ∧
    MiningJob.new cfg.js network jobId [⟨message.address, 100⟩] jobTemplate now = some job

theorem Quiet.mem_job (h : Quiet v v') (hmem : Entry.job s job t ∈ v'.history) :
    Entry.job s job t ∈ v.history := by
  have hwork : Entry.job s job t ∈ v'.history.filter isWork := List.mem_filter.mpr ⟨hmem, rfl⟩
  rw [h.work] at hwork
  exact List.mem_of_mem_filter hwork

/-- A job enters the history when its session sends it. -/
structure Delivers (cfg : Config) (v v' : View) : Prop where
  sentJobs : v.session.sentJobs ⊆ v'.session.sentJobs
  job : ∀ s job t, Entry.job s job t ∈ v'.history → Entry.job s job t ∈ v.history ∨
    s = v.self ∧ BuiltFor cfg v.session job ∧ ∃ sent ∈ v'.session.sentJobs, sent.job = job

theorem delivers_of_quiet {w : View} (hsent : w.session.sentJobs = v.session.sentJobs)
    (hhistory : w.history = v.history) (h : Quiet w v') : Delivers cfg v v' := by
  refine ⟨?_, fun s job t hmem ↦ .inl (hhistory ▸ h.mem_job hmem)⟩
  rw [h.sentJobs, hsent]
  exact List.Subset.refl _

theorem Sends.delivers (h : Sends cfg v jobTemplate v') : Delivers cfg v v' := by
  cases h with
  | nothing hquiet => exact delivers_of_quiet rfl rfl hquiet
  | issued sent hissues hquiet =>
    have hsent : v'.session.sentJobs = sent :: v.session.sentJobs := hquiet.sentJobs
    refine ⟨hsent ▸ List.subset_cons_self _ _, ?_⟩
    intro s job t hmem
    rcases List.mem_cons.mp (hquiet.mem_job hmem) with hmem | hmem
    · cases hmem
      obtain ⟨message, network, hauthorization, hnetwork, hjob⟩ := hissues.built
      exact .inr ⟨rfl, ⟨message, network, _, _, _, hauthorization, hnetwork, hjob⟩, sent,
        hsent ▸ List.mem_cons_self, rfl⟩
    · exact .inl hmem

theorem Step.delivers (h : Step cfg v e v') : Delivers cfg v v' := by
  have hbuilt {address : String} {jobsService : JobsService} {template cached used : IJobTemplate}
      {clear : Bool} (hsends : Sends cfg (({ v with jobsService }.log
        (.template address template)).cacheTemplate cached clear) used v') :
      Delivers cfg v v' := by
    refine ⟨hsends.delivers.sentJobs, ?_⟩
    intro s job t hmem
    rcases hsends.delivers.job s job t hmem with hmem | hnew
    · rcases List.mem_cons.mp hmem with hmem | hmem
      · cases hmem
      · exact .inl hmem
    · exact .inr hnew
  cases h with
  | quiet hquiet => exact delivers_of_quiet rfl rfl hquiet
  | authorized _ _ hquiet => exact delivers_of_quiet (w := v.update _) rfl rfl hquiet
  | requested _ _ _ hquiet => exact delivers_of_quiet (w := v.suspend _) rfl rfl hquiet
  | threw _ _ _ jobsService _ _ hquiet =>
    exact delivers_of_quiet (w := { v with jobsService }) rfl rfl hquiet
  | refreshed _ _ _ _ _ _ _ _ hsends => exact hbuilt hsends
  | retargeted _ _ _ _ _ _ _ hsends => exact hbuilt hsends
  | renewed _ _ _ _ hsends => exact hsends.delivers
  | resent _ _ _ _ hsends => exact ⟨hsends.delivers.sentJobs, hsends.delivers.job⟩

def Delivered (v : View) : Prop :=
  ∀ job t, Entry.job v.self job t ∈ v.history → ∃ sent ∈ v.session.sentJobs, sent.job = job

theorem Delivered.step (h : Delivered v) (hstep : Step cfg v e v') : Delivered v' := by
  intro job t hmem
  have hdelivers := hstep.delivers
  rw [hstep.extends.self] at hmem
  rcases hdelivers.job _ job t hmem with hold | ⟨-, -, hsent⟩
  · obtain ⟨sent, hsent, hjob⟩ := h job t hold
    exact ⟨sent, hdelivers.sentJobs hsent, hjob⟩
  · exact hsent

theorem delivered_kept : Kept cfg (fun _ ↦ True) (fun _ _ ↦ True) Delivered where
  tick _ _ h := h
  act _ _ _ _ h _ hact := h.step (step_of_act hact)
  other v e v' self session hne _ hother _ _ hact := by
    intro job t hmem
    rcases (step_of_act hact).delivers.job self job t hmem with hold | ⟨hself, -⟩
    · exact hother job t hold
    · exact absurd hself hne

/-- In every state of every run, a job that was built was sent by the session it was built for. -/
theorem sent_of_reachable (h : Reachable (Pool.step cfg) (Pool.start now) pool)
    (hmem : Entry.job s job t ∈ pool.history) :
    ∃ sent ∈ (pool.sessions s).sentJobs, sent.job = job := by
  refine delivered_kept.reach (fun _ _ _ ↦ trivial) (fun id job t hmem ↦ ?_)
    (reachable_of_reach h) s job t hmem
  cases hmem

end ElektronPool.Work
