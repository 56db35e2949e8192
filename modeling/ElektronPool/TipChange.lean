import ElektronPool.Reference
import ElektronPool.Talk.Turn

namespace ElektronPool.TipChange

open Lib Lib.Runs Model Model.View Work Shares Talk

variable {cfg : Config} {v v' : View} {e : SessionEvent} {jobTemplate : IJobTemplate}
  {address : String} {blockTemplate former : IBlockTemplate}

/-- The last answer of the node for each address. -/
abbrev Answers := String → Option IBlockTemplate

def noteAnswer (answers : Answers) (pool : Pool) : Event → Answers
  | .tick _ => answers
  | .session id e =>
    (receives (pool.view id) e).elim answers fun (address, _, blockTemplate) ↦
      Function.update answers address (some blockTemplate)

def BuiltOn (history : List Entry) (address : String) (parent : Hash)
    (jobTemplate : IJobTemplate) : Prop :=
  Entry.template address jobTemplate ∈ history ∧
    jobTemplate.block.prevHash = JobsService.convertToLittleEndian parent

def Carries (service : JobsService) (history : List Entry) (address : String) (parent : Hash) :
    Prop :=
  ∃ jobTemplate, BuiltOn history address parent jobTemplate ∧
    ((∃ id, service.blocks id = some jobTemplate) ∨
      ∃ id job, service.jobs id = some job ∧ job.jobTemplateId = jobTemplate.blockData.id)

/-- The answer clears the old work: the template says so, and nothing of the
address is left on the former parent. -/
def Clears (js : BitcoinJs) (pool : Pool) (address : String)
    (former blockTemplate : IBlockTemplate) (now : ℕ) : Prop :=
  ∃ service' jobTemplate,
    pool.jobsService.buildTemplateFor js address blockTemplate now = (service', some jobTemplate) ∧
      jobTemplate.blockData.clearJobs = true ∧
      ¬ Carries service' (.template address jobTemplate :: pool.history) address
        former.previousblockhash

section Heights

/-- The registry goes by the heights of the last answers. -/
def Follows (pool : Pool) (answers : Answers) : Prop :=
  ∀ address, pool.jobsService.lastTemplateHeightByAddress address =
    (answers address).map IBlockTemplate.height

theorem heights_of_sends (h : Sends cfg v jobTemplate v') :
    v'.jobsService.lastTemplateHeightByAddress = v.jobsService.lastTemplateHeightByAddress := by
  cases h with
  | nothing hquiet => rw [hquiet.jobsService]
  | issued sent _ hquiet =>
    rw [hquiet.jobsService]
    rfl

theorem heights_of_step (h : Step cfg v e v') (hreceives : receives v e = none) :
    v'.jobsService.lastTemplateHeightByAddress = v.jobsService.lastTemplateHeightByAddress := by
  cases h with
  | quiet hquiet => rw [hquiet.jobsService]
  | authorized _ _ hquiet => rw [hquiet.jobsService, View.update]
  | requested _ _ _ hquiet => rw [hquiet.jobsService]; rfl
  | threw _ _ _ _ he _ _ => exact absurd (hreceives.symm.trans he) (by simp)
  | refreshed _ _ _ _ _ he _ _ _ => exact absurd (hreceives.symm.trans he) (by simp)
  | retargeted _ _ _ _ _ he _ _ => exact absurd (hreceives.symm.trans he) (by simp)
  | renewed _ _ _ _ hsends => exact heights_of_sends hsends
  | resent _ _ _ _ hsends => exact (heights_of_sends hsends).trans rfl

theorem heights_of_build {js : BitcoinJs} {service service' : JobsService} {now : ℕ}
    {result : Option IJobTemplate}
    (h : service.buildTemplateFor js address blockTemplate now = (service', result)) :
    service'.lastTemplateHeightByAddress =
      Function.update service.lastTemplateHeightByAddress address (some blockTemplate.height) := by
  cases result with
  | none => rw [JobsService.eq_of_buildTemplateFor_none h, JobsService.recordHeight]
  | some jobTemplate =>
    rw [(JobsService.builds_of_buildTemplateFor h).service', JobsService.addTemplate]
    exact JobsService.lastTemplateHeightByAddress_keep

theorem heights_of_receiveTemplate (w : View) (purpose : Purpose) :
    (w.receiveTemplate cfg address purpose
      (some blockTemplate)).jobsService.lastTemplateHeightByAddress =
      Function.update w.jobsService.lastTemplateHeightByAddress address
        (some blockTemplate.height) := by
  have hcatch (r : View × Bool) : (catchRefresh purpose r).jobsService = r.1.jobsService :=
    (quiet_catchRefresh purpose r).jobsService
  simp only [receiveTemplate]
  cases hbuild : w.jobsService.buildTemplateFor cfg.js address blockTemplate w.now with
  | mk jobsService result =>
    rw [← heights_of_build hbuild]
    cases result with
    | none => simp only [hcatch]
    | some jobTemplate =>
      cases purpose with
      | vardiff =>
        obtain ⟨timestamp, hsends⟩ := sends_resendMiningJob cfg
          ({ w with jobsService }.log (.template address jobTemplate)) jobTemplate
        simp only [hcatch]
        exact heights_of_sends hsends
      | newBlock =>
        simp only [hcatch]
        exact heights_of_sends (sends_sendNewMiningJob cfg _ jobTemplate)
      | refreshTimer =>
        simp only [hcatch]
        exact heights_of_sends (sends_sendNewMiningJob cfg _ jobTemplate)

theorem pop_jobsService (v : View) (e : SessionEvent) : (pop v e).jobsService = v.jobsService := by
  cases e <;> rfl

theorem Follows.step {pool pool' : Pool} {answers : Answers} {event : Event}
    (h : Follows pool answers) (hstep : pool.step cfg event = some pool') :
    Follows pool' (noteAnswer answers pool event) := by
  obtain ⟨milliseconds, rfl, rfl⟩ | ⟨id, e, v', rfl, hact, rfl⟩ := step_cases hstep
  · exact h
  · intro address
    change v'.jobsService.lastTemplateHeightByAddress address = _
    cases hreceives : receives (pool.view id) e with
    | none =>
      rw [heights_of_step (step_of_act hact) hreceives, noteAnswer, hreceives]
      exact h address
    | some answer =>
      obtain ⟨fetched, purpose, blockTemplate⟩ := answer
      rw [act_of_receives hreceives, Option.some.injEq] at hact
      rw [← hact, heights_of_receiveTemplate, noteAnswer, hreceives, pop_jobsService]
      by_cases haddress : address = fetched
      · subst haddress
        simp only [Option.elim_some, Function.update_self, Option.map_some]
      · simp only [Option.elim_some, Function.update_of_ne haddress]
        exact h address

theorem follows_of_reach {now : ℕ} {pool : Pool} {answers : Answers}
    (h : Reachable (noted (Pool.step cfg) noteAnswer) (Pool.start now, fun _ ↦ none)
      (pool, answers)) : Follows pool answers := by
  refine h.noted_invariant_of (I := Follows) (J := fun _ ↦ True) ?_ ?_ ?_
  · exact fun _ _ ↦ trivial
  · exact fun _ ↦ rfl
  · intro pool answers event pool' _ hfollows _ hstep
    exact hfollows.step hstep

end Heights

def Parses (js : BitcoinJs) (blockTemplate : IBlockTemplate) : Prop :=
  (JobsService.assembleBlock js blockTemplate 0).isSome

instance (js : BitcoinJs) (blockTemplate : IBlockTemplate) : Decidable (Parses js blockTemplate) :=
  inferInstanceAs (Decidable (_ = true))

section Answers

variable {pool : Pool} {answers : Answers} {now : ℕ}

theorem isNewHeight_iff (h : Follows pool answers) (hformer : answers address = some former) :
    pool.jobsService.isNewHeight address blockTemplate.height = true ↔
      blockTemplate.height ≠ former.height := by
  rw [JobsService.isNewHeight, h address, hformer, bne_iff_ne]
  exact ne_comm

theorem Clears.height_ne {js : BitcoinJs} (h : Follows pool answers)
    (hformer : answers address = some former)
    (hclears : Clears js pool address former blockTemplate now) :
    blockTemplate.height ≠ former.height ∧ Parses js blockTemplate := by
  obtain ⟨service', jobTemplate, hbuild, hclear, -⟩ := hclears
  have hbuilds := JobsService.builds_of_buildTemplateFor hbuild
  exact ⟨(isNewHeight_iff h hformer).mp (hbuilds.clearJobs.symm.trans hclear),
    JobsService.assembles_of_buildTemplateFor hbuild 0⟩

theorem not_carries_of_builds {js : BitcoinJs} {service service' : JobsService}
    {history : List Entry}
    (hbuilds : JobsService.Builds js service address blockTemplate now service' jobTemplate)
    (hclear : jobTemplate.blockData.clearJobs = true)
    (hchanged : blockTemplate.previousblockhash ≠ former.previousblockhash) :
    ¬ Carries service' history address former.previousblockhash := by
  rintro ⟨old, ⟨-, hparent⟩, ⟨id, hblock⟩ | ⟨id, job, hjob, -⟩⟩
  · rw [hbuilds.service'] at hblock
    by_cases hid : id = jobTemplate.blockData.id
    · rw [hid, JobsService.blocks_addTemplate_self, Option.some.injEq] at hblock
      rw [← hblock, hbuilds.prevHash] at hparent
      exact hchanged (List.Vector.reverse_reverse.symm.trans
        ((congrArg List.Vector.reverse hparent).trans List.Vector.reverse_reverse))
    · rw [JobsService.blocks_addTemplate_of_ne hid, JobsService.blocks_keep, hclear] at hblock
      exact absurd hblock.1 (by simp)
  · rw [hbuilds.service'] at hjob
    have hkept := (JobsService.jobs_keep.mp hjob).1
    rw [hclear] at hkept
    exact absurd hkept (by simp)

theorem clears_of_height_ne {js : BitcoinJs} (h : Follows pool answers)
    (hformer : answers address = some former)
    (hchanged : blockTemplate.previousblockhash ≠ former.previousblockhash)
    (hne : blockTemplate.height ≠ former.height) (hparses : Parses js blockTemplate) :
    Clears js pool address former blockTemplate now := by
  have hsome := JobsService.isSome_buildTemplateFor js pool.jobsService address blockTemplate now 0
  rw [hparses] at hsome
  cases hbuild : pool.jobsService.buildTemplateFor js address blockTemplate now with
  | mk service' result =>
    rw [hbuild] at hsome
    obtain ⟨jobTemplate, rfl⟩ := Option.isSome_iff_exists.mp hsome
    have hbuilds := JobsService.builds_of_buildTemplateFor hbuild
    have hclear : jobTemplate.blockData.clearJobs = true :=
      hbuilds.clearJobs.trans ((isNewHeight_iff h hformer).mpr hne)
    exact ⟨service', jobTemplate, hbuild, hclear, not_carries_of_builds hbuilds hclear hchanged⟩

/-- On a changed parent, the old work is cleared exactly when the height changed
too and the answer parses. -/
theorem clears_iff (cfg : Config) (start : ℕ) (pool : Pool) (answers : Answers)
    (h : Reachable (noted (Pool.step cfg) noteAnswer) (Pool.start start, fun _ ↦ none)
      (pool, answers)) (address : String) (former blockTemplate : IBlockTemplate)
    (hformer : answers address = some former)
    (hchanged : blockTemplate.previousblockhash ≠ former.previousblockhash) (now : ℕ) :
    Clears cfg.js pool address former blockTemplate now ↔
      blockTemplate.height ≠ former.height ∧ Parses cfg.js blockTemplate := by
  have hfollows := follows_of_reach h
  constructor
  · intro hclears
    exact hclears.height_ne hfollows hformer
  · rintro ⟨hne, hparses⟩
    exact clears_of_height_ne hfollows hformer hchanged hne hparses

end Answers

section Sample

open Reference

theorem sample_run : ∃ pool answers, Reachable (noted (Pool.step settings) noteAnswer)
      (Pool.start 1700000000000, fun _ ↦ none) (pool, answers) ∧
    answers alice = some (answer 101 (hashOf 7)) := by
  obtain ⟨⟨pool, answers⟩, hpool, hp⟩ := Reachable.of_any (noted (Pool.step settings) noteAnswer)
    (Pool.start 1700000000000, fun _ ↦ none) (opening 0 alice ++ working 0 (answer 101 (hashOf 7)))
    (fun p ↦ decide (p.2 alice = some (answer 101 (hashOf 7)))) (by decide +kernel)
  exact ⟨pool, answers, hpool, of_decide_eq_true hp⟩

theorem clears_iff_next : ∃ pool answers, Reachable (noted (Pool.step settings) noteAnswer)
      (Pool.start 1700000000000, fun _ ↦ none) (pool, answers) ∧
    Clears bitcoinJs pool alice (answer 101 (hashOf 7)) (answer 102 (hashOf 8)) 1700000001000 := by
  obtain ⟨pool, answers, hpool, hformer⟩ := sample_run
  exact ⟨pool, answers, hpool, (clears_iff settings 1700000000000 pool answers hpool alice
    (answer 101 (hashOf 7)) (answer 102 (hashOf 8)) hformer (by decide +kernel)
    1700000001000).mpr ⟨by decide, by decide +kernel⟩⟩

/-- The tip is replaced by another block of its height. -/
theorem not_clears_of_same_height : ¬ ∀ (cfg : Config) (start : ℕ) (pool : Pool)
    (answers : Answers), Reachable (noted (Pool.step cfg) noteAnswer)
      (Pool.start start, fun _ ↦ none) (pool, answers) →
    ∀ (address : String) (former blockTemplate : IBlockTemplate),
      answers address = some former →
      blockTemplate.previousblockhash ≠ former.previousblockhash → ∀ now : ℕ,
        Clears cfg.js pool address former blockTemplate now := by
  intro h
  obtain ⟨pool, answers, hpool, hformer⟩ := sample_run
  have hclears := h settings 1700000000000 pool answers hpool alice (answer 101 (hashOf 7))
    (answer 101 (hashOf 8)) hformer (by decide +kernel) 1700000001000
  exact (hclears.height_ne (follows_of_reach hpool) hformer).1 rfl

end Sample

end ElektronPool.TipChange
