import ElektronPool.Reference
import ElektronPool.Talk.Turn

namespace ElektronPool.DestroyedSession

open Lib Lib.Runs Model Model.View Work Shares Talk

variable {cfg : Config} {v v' : View} {e : SessionEvent}

/-- A destroyed session has nothing that works for it, and no event that meets
`G` makes it touch the jobs and templates every session shares. -/
structure Rests (cfg : Config) (G : View → SessionEvent → Prop) (v : View) : Prop where
  inert : Inert v.session
  registry : ∀ e v', v.session.destroyCalled = true → G v e → v.act cfg e = some v' →
    v'.jobsService.jobs = v.jobsService.jobs ∧ v'.jobsService.blocks = v.jobsService.blocks

/-- No answer of `getblocktemplate` that parses is delivered to a destroyed session. -/
def GetsNoTemplate (cfg : Config) (v : View) (e : SessionEvent) : Prop :=
  v.session.destroyCalled = true → ∀ answer ∈ receives v e,
    (JobsService.assembleBlock cfg.js answer.2.2 0).isNone = true

instance (v : View) (e : SessionEvent) : Decidable (GetsNoTemplate cfg v e) :=
  inferInstanceAs (Decidable (_ → _))

theorem not_destroyed_of_received {address : String} {purpose : Purpose}
    {blockTemplate : IBlockTemplate} {jobsService : JobsService} {jobTemplate : IJobTemplate}
    (hguard : GetsNoTemplate cfg v e) (he : receives v e = some (address, purpose, blockTemplate))
    (hbuild : v.jobsService.buildTemplateFor cfg.js address blockTemplate v.now =
      (jobsService, some jobTemplate)) : v.session.destroyCalled = false := by
  by_contra hcalled
  have hnone := hguard (by simpa using hcalled) _ he
  have hsome := JobsService.assembles_of_buildTemplateFor hbuild 0
  rw [Option.isNone_iff_eq_none.mp hnone] at hsome
  cases hsome

theorem inert_of_turn (h : Inert v.session) (hguard : GetsNoTemplate cfg v e)
    (hturn : Turn cfg v e v') : Inert v'.session := by
  have hpop : Inert (pop v e).session := by cases e <;> exact h
  cases hturn with
  | calm _ hsaid => exact hsaid.inert hpop
  | replied _ _ _ _ _ hsaid => exact hsaid.inert hpop
  | refused _ _ _ _ hsaid => exact hsaid.inert hpop
  | judged _ _ _ _ _ _ hjudges hsaid =>
    refine hsaid.inert ?_
    cases hjudges <;> exact hpop
  | authorized _ _ _ _ hsaid => exact hsaid.inert hpop
  | suggested _ _ _ _ hsaid => exact hsaid.inert hpop
  | blocked _ hsaid => exact hsaid.inert hpop
  | initialised _ _ _ _ hsaid => exact hsaid.inert hpop
  | received address purpose blockTemplate jobsService jobTemplate clear he hbuild _ hsaid =>
    apply hsaid.inert
    intro hcalled
    have hcalled : (pop v e).session.destroyCalled = true := hcalled
    have hlive := not_destroyed_of_received hguard he hbuild
    have hsame : (pop v e).session.destroyCalled = v.session.destroyCalled := by cases e <;> rfl
    rw [hsame, hlive] at hcalled
    cases hcalled
  | retargeted _ _ hsaid => exact hsaid.inert h

theorem registry_of_step (h : Inert v.session) (hcalled : v.session.destroyCalled = true)
    (hguard : GetsNoTemplate cfg v e) (hstep : Step cfg v e v') :
    v'.jobsService.jobs = v.jobsService.jobs ∧ v'.jobsService.blocks = v.jobsService.blocks := by
  obtain ⟨-, -, -, hcache⟩ := h hcalled
  have hlost {jobTemplate : IJobTemplate} (hsome : v.session.currentJobTemplate = some jobTemplate) :
      False := by
    rw [hcache] at hsome
    cases hsome
  have hanswer {address : String} {purpose : Purpose} {blockTemplate : IBlockTemplate}
      {jobsService : JobsService} {jobTemplate : IJobTemplate}
      (he : receives v e = some (address, purpose, blockTemplate))
      (hbuild : v.jobsService.buildTemplateFor cfg.js address blockTemplate v.now =
        (jobsService, some jobTemplate)) : False := by
    rw [not_destroyed_of_received hguard he hbuild] at hcalled
    cases hcalled
  cases hstep with
  | quiet hquiet => exact hquiet.jobsService ▸ ⟨rfl, rfl⟩
  | authorized _ _ hquiet => exact hquiet.jobsService ▸ ⟨rfl, rfl⟩
  | requested _ _ _ hquiet => exact hquiet.jobsService ▸ ⟨rfl, rfl⟩
  | threw address purpose blockTemplate jobsService he hbuild hquiet =>
    rw [hquiet.jobsService]
    change jobsService.jobs = _ ∧ jobsService.blocks = _
    rw [JobsService.eq_of_buildTemplateFor_none hbuild]
    exact ⟨rfl, rfl⟩
  | refreshed _ _ _ _ _ he _ hbuild => exact (hanswer he hbuild).elim
  | retargeted _ _ _ _ _ he hbuild => exact (hanswer he hbuild).elim
  | renewed _ _ _ hsome => exact (hlost hsome).elim
  | resent _ _ _ hsome => exact (hlost hsome).elim

theorem inert_kept :
    Kept cfg (fun v ↦ Ready v.session) (GetsNoTemplate cfg) fun v ↦ Inert v.session :=
  .of_session fun _ _ _ hready h hguard hact ↦ inert_of_turn h hguard (turn_of_act hready hact)

/-- In every run in which no destroyed session is delivered a template, destroyed
sessions are inert. -/
theorem rests_of_getsNoTemplate (cfg : Config) (now : ℕ) (pool : Pool)
    (h : Reach (Pool.step cfg) (onSession (GetsNoTemplate cfg)) (Pool.start now) pool)
    (id : SessionId) : Rests cfg (GetsNoTemplate cfg) (pool.view id) := by
  have hinert : Inert (pool.view id).session := by
    refine inert_kept.reach (fun _ hpool ↦ ready_of_reachable hpool) (fun _ hcalled ↦ ?_) h id
    cases hcalled
  exact ⟨hinert, fun e v' hcalled hguard hact ↦
    registry_of_step hinert hcalled hguard (step_of_act hact)⟩

section Sample

open Reference

theorem rests_of_getsNoTemplate_run :
    ∃ pool, Reach (Pool.step settings) (onSession (GetsNoTemplate settings))
        (Pool.start 1700000000000) pool ∧
      (pool.sessions 0).destroyCalled = true ∧
      Rests settings (GetsNoTemplate settings) (pool.view 0) := by
  obtain ⟨pool, hpool, hp⟩ := Reach.of_any (Pool.step settings)
    (onSession (GetsNoTemplate settings)) (Pool.start 1700000000000)
    (opening 0 alice ++ working 0 (answer 101 (hashOf 7)) ++
      [.session 0 .newBlock, .session 0 .socketClose, .session 0 (.resume 0 .failed)])
    (fun pool ↦ (pool.sessions 0).destroyCalled) (by decide +kernel) (by decide +kernel)
  exact ⟨pool, hpool, hp, rests_of_getsNoTemplate settings 1700000000000 pool hpool 0⟩

/-- A session is destroyed while a fetch is under way, and its answer is taken up. -/
theorem not_rests_of_late_answer :
    ¬ ∀ (cfg : Config) (now : ℕ) (pool : Pool), Reachable (Pool.step cfg) (Pool.start now) pool →
      ∀ id, Rests cfg (fun _ _ ↦ True) (pool.view id) := by
  intro h
  obtain ⟨pool, hpool, hp⟩ := Reachable.of_any (Pool.step settings) (Pool.start 1700000000000)
    (opening 0 alice ++ working 0 (answer 101 (hashOf 7)) ++
      [.session 0 .newBlock, .session 0 .socketClose,
        .session 0 (.resume 0 (.answered (answer 102 (hashOf 8))))])
    (fun pool ↦ (pool.sessions 0).destroyCalled && (pool.sessions 0).currentJobTemplate.isSome)
    (by decide +kernel)
  rw [Bool.and_eq_true] at hp
  obtain ⟨hcalled, hsome⟩ := hp
  obtain ⟨-, -, -, hnone⟩ := (h settings _ pool hpool 0).inert hcalled
  have hnone : (pool.sessions 0).currentJobTemplate = none := hnone
  rw [hnone] at hsome
  cases hsome

end Sample

end ElektronPool.DestroyedSession
