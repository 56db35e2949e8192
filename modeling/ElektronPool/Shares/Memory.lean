import ElektronPool.Shares.Ledger

namespace ElektronPool.Shares

open Lib Lib.Runs Model Model.View Work

variable {cfg : Config} {v v' w : View} {e : SessionEvent} {share : Share} {entry : Entry}
  {entries : List Entry} {added : List Task} {pool : Pool} {now : ℕ}

theorem Adds.mem_of_new (h : Adds w v' entries added) (hw : w.history = v.history)
    (hentry : isRecord entry = true) (hnew : entry ∈ v'.history) (hold : entry ∉ v.history) :
    entry ∈ entries := by
  have hmem : entry ∈ v'.history.filter isRecord := List.mem_filter.mpr ⟨hnew, hentry⟩
  rw [h.records, hw] at hmem
  rcases List.mem_append.mp hmem with hmem | hmem
  · exact hmem
  · exact absurd (List.mem_of_mem_filter hmem) hold

theorem Deal.forgets (h : Deal cfg v e v') :
    v.session.miningSubmissionHashes ⊆ v'.session.miningSubmissionHashes ∨
      ∀ id, (v'.jobsService.jobs id).isSome → id = v.jobsService.getNextId := by
  have hpop := popped_pop v e
  have hsame (h : v'.session.miningSubmissionHashes = (pop v e).session.miningSubmissionHashes) :
      v.session.miningSubmissionHashes ⊆ v'.session.miningSubmissionHashes := by
    rw [h, hpop.hashes]
    exact List.Subset.refl _
  have hmore {submission : MiningSubmitMessage} (h : v'.session.miningSubmissionHashes =
      (remember (pop v e) submission).session.miningSubmissionHashes) :
      v.session.miningSubmissionHashes ⊆ v'.session.miningSubmissionHashes := by
    rw [h, ← hpop.hashes]
    exact List.subset_cons_self _ _
  cases h with
  | calm h => exact .inl (hsame h.hashes)
  | authorized _ _ h => exact .inl (hsame h.hashes)
  | cleared _ hwiped => exact .inr hwiped
  | refused _ _ h => exact .inl (hmore h.hashes)
  | evaluated _ _ _ _ _ h => exact .inl (hmore h.hashes)
  | answered _ _ _ _ _ _ h => exact .inl (hsame h.hashes)
  | continued _ _ _ _ _ _ h => exact .inl (hsame h.hashes)
  | inserted _ _ _ h => exact .inl (hsame h.hashes)

theorem Deal.remembers (h : Deal cfg v e v') (hnew : Entry.evaluated share ∈ v'.history)
    (hold : Entry.evaluated share ∉ v.history) :
    submissionHash share.submission ∈ v'.session.miningSubmissionHashes := by
  have hpop := (popped_pop v e).history
  cases h with
  | calm h => cases h.mem_of_new hpop rfl hnew hold
  | authorized _ _ h => cases h.mem_of_new hpop rfl hnew hold
  | cleared h => cases h.mem_of_new hpop rfl hnew hold
  | refused _ _ h => cases h.mem_of_new hpop rfl hnew hold
  | evaluated submission s added he hshare h hadded =>
    cases List.mem_singleton.mp (h.mem_of_new hpop rfl hnew hold)
    rw [h.hashes, hshare.same]
    exact List.mem_cons_self
  | answered s rest entries added hpopped hreplied h hanswers =>
    rcases List.mem_append.mp (h.mem_of_new hpop rfl hnew hold) with hmem | hmem
    · exact absurd hmem (hanswers.handles.evaluated share)
    · cases List.mem_singleton.mp hmem
  | continued s wait rest entries added hpopped h hfollows =>
    exact absurd (h.mem_of_new hpop rfl hnew hold) (hfollows.handles.evaluated share)
  | inserted _ _ _ h => cases h.mem_of_new hpop rfl hnew hold

/-- A session remembers its submissions for every job that is registered. -/
def Remembers (v : View) : Prop :=
  ∀ share, share.session = v.self → Entry.evaluated share ∈ v.history →
    (v.jobsService.jobs share.submission.jobId).isSome →
    submissionHash share.submission ∈ v.session.miningSubmissionHashes

/-- What is known of the registry and of the shares. -/
def Grounded (cfg : Config) (v : View) : Prop :=
  Sound cfg v ∧ ∀ share, Entry.evaluated share ∈ v.history → Grounds cfg v.history share

theorem Grounded.registered (h : Grounded cfg v) (hmem : Entry.evaluated share ∈ v.history)
    (hstep : Step cfg v e v') (hid : (v'.jobsService.jobs share.submission.jobId).isSome) :
    (v.jobsService.jobs share.submission.jobId).isSome := by
  have hgrounds := h.2 share hmem
  obtain ⟨s, t, hjob⟩ := hgrounds.job
  have hne : share.submission.jobId ≠ v.jobsService.getNextId := by
    rw [hgrounds.jobId]
    exact h.1.registry.fresh_jobId (List.mem_filter.mpr ⟨hjob, rfl⟩)
  exact (hstep.registered hid).resolve_right hne

theorem Remembers.act (h : Remembers v) (hgrounded : Grounded cfg v)
    (hact : v.act cfg e = some v') : Remembers v' := by
  intro share hsession hmem hregistered
  have hdeal := deal_of_act hact
  have hself : v'.self = v.self := (extends_of_act hact).self
  by_cases hold : Entry.evaluated share ∈ v.history
  · have hbefore := hgrounded.registered hold (step_of_act hact) hregistered
    rcases hdeal.forgets with hforgets | hforgets
    · exact hforgets (h share (hsession.trans hself) hold hbefore)
    · have hgrounds := hgrounded.2 share hold
      obtain ⟨s, t, hjob⟩ := hgrounds.job
      have hnext := hforgets _ hregistered
      rw [hgrounds.jobId] at hnext
      exact absurd hnext (hgrounded.1.registry.fresh_jobId (List.mem_filter.mpr ⟨hjob, rfl⟩))
  · exact hdeal.remembers hmem hold

theorem remembers_kept : Kept cfg (Grounded cfg) (fun _ _ ↦ True) Remembers where
  tick _ _ h := h
  act _ _ _ hgrounded h _ hact := h.act hgrounded hact
  other v e v' self session hne hgrounded hother _ _ hact := by
    intro share hsession hmem hregistered
    have hold : Entry.evaluated share ∈ v.history := by
      by_contra hold
      obtain ⟨-, hshare⟩ := (deal_of_act hact).entered.evaluates_of_new hmem hold
      exact hne (hsession.symm.trans hshare.session)
    exact hother share hsession hold
      (hgrounded.registered hold (step_of_act hact) hregistered)

theorem grounded_of_reachable (h : Reachable (Pool.step cfg) (Pool.start now) pool)
    (id : SessionId) : Grounded cfg (pool.view id) :=
  ⟨sound_of_reachable h id, fun _ hmem ↦ grounds_of_reachable h hmem⟩

theorem remembers_of_reachable (h : Reachable (Pool.step cfg) (Pool.start now) pool) :
    ∀ id, Remembers (pool.view id) := by
  refine remembers_kept.reach (fun _ hp ↦ grounded_of_reachable hp) (fun id share _ hmem ↦ ?_)
    (reachable_of_reach h)
  cases hmem

end ElektronPool.Shares
