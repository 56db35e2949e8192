import ElektronPool.Reference
import ElektronPool.Work.Provenance

namespace ElektronPool.StaleWork

open Lib Lib.Runs Model Model.View Work

variable {cfg : Config} {v v' : View} {e : SessionEvent} {jobTemplate : IJobTemplate}
  {sent last : SentJob}

def Renews (newer older : SentJob) : Prop :=
  newer.params.prevHash ≠ older.params.prevHash →
    newer.params.clearJobs = true ∧ newer.submissionHashes = [] ∧ newer.rotationState = 0

/-- Every job a session was sent is so in view of the one before; the last comes first. -/
def Told (session : Session) : Prop := session.sentJobs.IsChain Renews

def onTip (session : Session) (prevHash : Hash) : Bool :=
  session.sentJobs.head?.all fun last ↦ decide (last.jobTemplate.block.prevHash = prevHash)

/-- A fetched template on another previous block than the last job comes at a
height that is new for its address. Where the difficulty timer sends a template on
another previous block, the session has no shares to forget; a local refresh never does. -/
def StaysFresh (v : View) (e : SessionEvent) : Prop :=
  ((receives v e).all (fun (address, purpose, blockTemplate) ↦
    onTip v.session (JobsService.convertToLittleEndian blockTemplate.previousblockhash) ||
      if purpose = .vardiff then v.session.miningSubmissionHashes.isEmpty
      else v.jobsService.isNewHeight address blockTemplate.height) &&
    v.session.currentJobTemplate.all fun t ↦
      onTip v.session t.block.prevHash ||
        (e ≠ .localTimer &&
          (e ≠ .difficultyTimer || v.session.miningSubmissionHashes.isEmpty))) = true

instance (v : View) (e : SessionEvent) : Decidable (StaysFresh v e) :=
  inferInstanceAs (Decidable (_ = _))

theorem Told.quiet (h : Told v.session) (hquiet : Quiet v v') : Told v'.session := by
  rw [Told, hquiet.sentJobs]
  exact h

theorem prevHash_of_sent (hsound : Sound cfg v) (hlast : last ∈ v.session.sentJobs) :
    last.params.prevHash = String.ofList
      (Bytes.toHex (Bytes.swapWords last.jobTemplate.block.prevHash.toList)) := by
  rw [(hsound.held.sent last hlast).2]
  rfl

theorem Told.sends (hsends : Sends cfg v jobTemplate v') (h : Told v.session)
    (hsound : Sound cfg v)
    (hrenews : onTip v.session jobTemplate.block.prevHash = true ∨
      jobTemplate.blockData.clearJobs = true ∧ v.session.miningSubmissionHashes = []) :
    Told v'.session := by
  cases hsends with
  | nothing hquiet => exact h.quiet hquiet
  | issued sent hissues hquiet =>
    refine Told.quiet (v := issue v sent) ?_ hquiet
    apply List.IsChain.cons h
    intro last hlast hne
    have hparams : sent.params.prevHash = String.ofList
        (Bytes.toHex (Bytes.swapWords jobTemplate.block.prevHash.toList)) := by
      rw [hissues.params]
      rfl
    rcases hrenews with htip | ⟨hclear, hhashes⟩
    · rw [onTip, hlast, Option.all_some, decide_eq_true_eq] at htip
      rw [hparams, prevHash_of_sent hsound (List.mem_of_mem_head? hlast), htip] at hne
      exact absurd rfl hne
    · refine ⟨?_, hissues.submissionHashes.trans hhashes, hissues.restarted hclear⟩
      rw [hissues.params]
      exact hclear

theorem Told.step (h : Told v.session) (hsound : Sound cfg v) (hguard : StaysFresh v e)
    (hstep : Step cfg v e v') : Told v'.session := by
  rw [StaysFresh, Bool.and_eq_true] at hguard
  obtain ⟨hanswer, hcached⟩ := hguard
  cases hstep with
  | quiet hquiet => exact h.quiet hquiet
  | authorized message he hquiet =>
    rw [Told, hquiet.sentJobs]
    exact h
  | requested message purpose _ hquiet => exact Told.quiet (v := v.suspend _) h hquiet
  | threw address purpose blockTemplate jobsService he hbuild hquiet =>
    exact Told.quiet (v := { v with jobsService }) h hquiet
  | refreshed address purpose blockTemplate jobsService jobTemplate he hpurpose hbuild hsends =>
    have hbuilds := JobsService.builds_of_buildTemplateFor hbuild
    simp only [he, Option.all_some, if_neg hpurpose, Bool.or_eq_true, ← hbuilds.prevHash,
      ← hbuilds.clearJobs] at hanswer
    refine Told.sends hsends h ((hsound.build hbuilds).cacheTemplate List.mem_cons_self _) ?_
    refine hanswer.imp_right fun hclear ↦ ⟨hclear, ?_⟩
    rw [View.cacheTemplate, View.update, hclear]
    rfl
  | retargeted address blockTemplate jobsService jobTemplate timestamp he hbuild hsends =>
    have hbuilds := JobsService.builds_of_buildTemplateFor hbuild
    simp only [he, Option.all_some, if_true, Bool.or_eq_true, ← hbuilds.prevHash,
      List.isEmpty_iff] at hanswer
    exact Told.sends hsends h ((hsound.build hbuilds).cacheTemplate List.mem_cons_self _)
      (hanswer.imp_right fun hhashes ↦ ⟨rfl, hhashes⟩)
  | renewed jobTemplate timestamp he hcache hsends =>
    subst he
    have htip : onTip v.session jobTemplate.block.prevHash = true := by
      simpa [hcache] using hcached
    exact Told.sends hsends h hsound (.inl htip)
  | resent jobTemplate timestamp he hcache hsends =>
    subst he
    obtain ⟨address, hmem⟩ := hsound.held.cached jobTemplate hcache
    have hrenews : onTip v.session jobTemplate.block.prevHash = true ∨
        v.session.miningSubmissionHashes = [] := by simpa [hcache] using hcached
    exact Told.sends hsends h (hsound.cacheTemplate hmem false)
      (hrenews.imp_right fun hhashes ↦ ⟨rfl, hhashes⟩)

theorem told_kept : Kept cfg (Sound cfg) StaysFresh fun v ↦ Told v.session where
  tick _ _ h := h
  act _ _ _ hsound h hguard hact := h.step hsound hguard (step_of_act hact)
  other _ _ _ _ _ _ _ hother _ _ _ := hother

/-- In every run whose steps meet the guard, every session is told to drop its
work when it is sent a job on another previous block. -/
theorem told_of_staysFresh (cfg : Config) (now : ℕ) (pool : Pool)
    (h : Reach (Pool.step cfg) (onSession StaysFresh) (Pool.start now) pool) (id : SessionId) :
    Told (pool.sessions id) :=
  told_kept.reach (fun _ hpool ↦ sound_of_reachable hpool) (fun _ ↦ List.isChain_nil) h id

section Sample

open Reference

theorem told_of_staysFresh_run :
    ∃ pool, Reach (Pool.step settings) (onSession StaysFresh) (Pool.start 1700000000000) pool ∧
      (pool.sessions 0).sentJobs.length = 2 ∧ Told (pool.sessions 0) := by
  obtain ⟨pool, hpool, hp⟩ := Reach.of_any (Pool.step settings) (onSession StaysFresh)
    (Pool.start 1700000000000)
    (opening 0 alice ++ working 0 (answer 101 (hashOf 7)) ++ working 0 (answer 102 (hashOf 8)))
    (fun pool ↦ (pool.sessions 0).sentJobs.length = 2) (by decide +kernel) (by decide +kernel)
  exact ⟨pool, hpool, of_decide_eq_true hp,
    told_of_staysFresh settings 1700000000000 pool hpool 0⟩

def isUntold (session : Session) : Bool :=
  match session.sentJobs with
  | [newer, older] => newer.params.prevHash ≠ older.params.prevHash && !newer.params.clearJobs
  | _ => false

/-- Of two sessions with one address only the first to refresh is told of a new tip. -/
theorem not_told_of_shared_address :
    ¬ ∀ (cfg : Config) (now : ℕ) (pool : Pool), Reachable (Pool.step cfg) (Pool.start now) pool →
      ∀ id, Told (pool.sessions id) := by
  intro h
  obtain ⟨pool, hpool, hp⟩ := Reachable.of_any (Pool.step settings) (Pool.start 1700000000000)
    (opening 0 alice ++ opening 1 alice ++ working 0 (answer 101 (hashOf 7)) ++
      working 1 (answer 101 (hashOf 7)) ++ working 0 (answer 102 (hashOf 8)) ++
      working 1 (answer 102 (hashOf 8)))
    (fun pool ↦ isUntold (pool.sessions 1)) (by decide +kernel)
  rw [isUntold] at hp
  split at hp
  case h_1 newer older hsent =>
    rw [Bool.and_eq_true, decide_eq_true_eq, Bool.not_eq_true'] at hp
    have htold := h settings _ pool hpool 1
    rw [Told, hsent, List.isChain_pair] at htold
    simp [(htold hp.1).1] at hp
  · cases hp

end Sample

end ElektronPool.StaleWork
