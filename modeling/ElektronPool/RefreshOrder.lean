import ElektronPool.Reference
import ElektronPool.Talk.Turn
import ElektronPool.Work.Offer
import ElektronPool.Work.Provenance

namespace ElektronPool.RefreshOrder

open Lib Lib.Runs Model Model.View Work Shares Talk

variable {cfg : Config} {v v' : View} {e : SessionEvent} {heights : List ℕ} {session : Session}
  {jobTemplate : IJobTemplate} {answer : String × Purpose × IBlockTemplate}

def cachedHeight (session : Session) : Option ℕ :=
  session.currentJobTemplate.map fun jobTemplate ↦ jobTemplate.blockData.height

def writtenHeight (session : Session) : Option ℕ :=
  session.sentJobs.head?.map fun sent ↦ sent.jobTemplate.blockData.height

def noteHeight (heights : List ℕ) (v : View) (e : SessionEvent) : List ℕ :=
  ((receives v e).map fun answer ↦ answer.2.2.height).toList ++ heights

def parses (cfg : Config) (answer : String × Purpose × IBlockTemplate) : Bool :=
  (JobsService.assembleBlock cfg.js answer.2.2 0).isSome

/-- The entry is a registered job on a greater height than the answer, which would
remove it: as one of a new height, or because of the age of the job. -/
def endangers (v : View) (answer : String × Purpose × IBlockTemplate) : Entry → Bool
  | .job _ job jobTemplate =>
    decide (v.jobsService.jobs job.jobId = some job) &&
      decide (answer.2.2.height < jobTemplate.blockData.height) &&
      (v.jobsService.isNewHeight answer.1 answer.2.2.height ||
        decide (JobsService.maxAge < v.now - job.creation))
  | _ => false

/-- An answer to an open session that parses is not on a lower height than its
template, and one on a greater height brings work a job can be built from. No answer
endangers a job on a greater height. -/
def InOrder (cfg : Config) (v : View) (e : SessionEvent) : Prop :=
  ∀ answer ∈ receives v e,
    (v.session.isSocketClosed = false →
      (parses cfg answer = true →
        ∀ height ∈ cachedHeight v.session, height ≤ answer.2.2.height) ∧
      ((∀ height ∈ cachedHeight v.session, height < answer.2.2.height) →
        (brings cfg v e).any (isMintable cfg v) = true)) ∧
    (parses cfg answer = true → v.history.any (endangers v answer) = false)

instance (v : View) (e : SessionEvent) : Decidable (InOrder cfg v e) :=
  inferInstanceAs (Decidable (∀ answer ∈ receives v e, _ ∧ _))

/-- An open session is on the greatest height it was delivered, and so is its
miner, and no answer that meets the guard removes jobs on greater heights. -/
structure Forward (cfg : Config) (heights : List ℕ) (v : View) : Prop where
  cached : v.session.isSocketClosed = false → cachedHeight v.session = heights.max?
  written : v.session.isSocketClosed = false → writtenHeight v.session = heights.max?
  registry : ∀ e v', InOrder cfg v e → v.act cfg e = some v' → ∀ answer ∈ receives v e,
    ∀ id job jobTemplate, Entry.job id job jobTemplate ∈ v.history →
      v.jobsService.jobs job.jobId = some job →
      answer.2.2.height < jobTemplate.blockData.height →
      v'.jobsService.jobs job.jobId = some job

section Heights

theorem height_of_buildTemplateFor {js : BitcoinJs} {service service' : JobsService}
    {address : String} {blockTemplate : IBlockTemplate} {now : ℕ}
    (h : service.buildTemplateFor js address blockTemplate now = (service', some jobTemplate)) :
    jobTemplate.blockData.height = blockTemplate.height := by
  simp only [JobsService.buildTemplateFor] at h
  split at h
  · cases h
  · cases h
    rfl

theorem height_of_renews (h : renews cfg v e = some jobTemplate) :
    cachedHeight v.session = some jobTemplate.blockData.height := by
  rw [renews.eq_def] at h
  split at h
  · obtain ⟨-, h⟩ := Option.ite_none_left_eq_some.mp h
    obtain ⟨cached, hcached, rfl⟩ := Option.map_eq_some_iff.mp h
    rw [cachedHeight, hcached]
    rfl
  · obtain ⟨-, h⟩ := Option.ite_none_left_eq_some.mp h
    obtain ⟨cached, hcached, rfl⟩ := Option.map_eq_some_iff.mp h
    rw [cachedHeight, hcached]
    rfl
  · cases h

theorem renews_of_receives (h : receives v e = some answer) : renews cfg v e = none := by
  rw [receives.eq_def] at h
  split at h
  · rfl
  · cases h

theorem max?_cons_of_lt {height greatest : ℕ} (h : heights.max? = some greatest)
    (hle : height ≤ greatest) : (height :: heights).max? = some greatest := by
  rw [List.max?_cons, h, Option.elim_some, max_eq_right hle]

theorem max?_cons_of_le {height : ℕ} (h : ∀ greatest ∈ heights.max?, greatest ≤ height) :
    (height :: heights).max? = some height := by
  rw [List.max?_cons]
  cases hmax : heights.max? with
  | none => rfl
  | some greatest => rw [Option.elim_some, max_eq_left (h greatest hmax)]

end Heights

/-- A session with an open socket and its miner are on the greatest of these heights. -/
def Leads (session : Session) (heights : List ℕ) : Prop :=
  session.isSocketClosed = false →
    cachedHeight session = heights.max? ∧ writtenHeight session = heights.max?

theorem Leads.quiet (h : Leads v.session heights) (hready : Ready v.session)
    (hreceives : receives v e = none) (hact : v.act cfg e = some v') :
    Leads v'.session (noteHeight heights v e) := by
  intro hopen'
  have hturn := turn_of_act hready hact
  have hopen : v.session.isSocketClosed = false := by
    by_contra hclosed
    rw [hturn.closed (by simpa using hclosed)] at hopen'
    cases hopen'
  obtain ⟨hcached, hwritten⟩ := h hopen
  have hsame : cachedHeight v'.session = cachedHeight v.session := by
    rw [cachedHeight, hturn.template hreceives hopen', cachedHeight]
  rw [noteHeight, hreceives, Option.map_none, Option.toList_none, List.nil_append]
  refine ⟨hsame.trans hcached, ?_⟩
  rcases offers_of_act hact with hsent | ⟨sent, hsent, hoffers, -⟩
  · rw [writtenHeight, hsent]
    exact hwritten
  · have hbrings : brings cfg v e = none := by
      rw [brings, hreceives]
      split <;> rfl
    rw [offers, hbrings, Option.or_none] at hoffers
    rw [writtenHeight, hsent, ← hcached, height_of_renews hoffers]
    rfl

theorem brings_of_receives {address : String} {purpose : Purpose} {blockTemplate : IBlockTemplate}
    (hopen : v.session.isSocketClosed = false)
    (he : Work.receives v e = some (address, purpose, blockTemplate)) :
    brings cfg v e =
      (v.jobsService.buildTemplateFor cfg.js address blockTemplate v.now).2.map fun t ↦
        if purpose = .vardiff then retimedJobTemplate t (resendTimestamp v t) true else t := by
  simp only [brings, hopen, Bool.false_eq_true, if_false, he, Option.bind_some]

theorem leads_of_refused {address : String} {purpose : Purpose} {blockTemplate : IBlockTemplate}
    (hcached : cachedHeight v.session = heights.max?)
    (hwritten : writtenHeight v.session = heights.max?)
    (he : Work.receives v e = some (address, purpose, blockTemplate))
    (hact : v.act cfg e = some v') (hbrings : brings cfg v e = none)
    (hbelow : ∃ height ∈ cachedHeight v.session, blockTemplate.height ≤ height)
    (hsame : cachedHeight v'.session = cachedHeight v.session) :
    cachedHeight v'.session = (blockTemplate.height :: heights).max? ∧
      writtenHeight v'.session = (blockTemplate.height :: heights).max? := by
  obtain ⟨height, hheight, hle⟩ := hbelow
  have hmax := max?_cons_of_lt (hcached.symm.trans hheight) hle
  refine ⟨hsame.trans (hheight.trans hmax.symm), ?_⟩
  rcases offers_of_act hact with hsent | ⟨sent, -, hoffers, -⟩
  · rw [writtenHeight, hsent, hmax]
    exact (hwritten.trans hcached.symm).trans hheight
  · rw [offers, renews_of_receives he, hbrings] at hoffers
    cases hoffers

theorem writtenHeight_of_template {address : String} {purpose : Purpose}
    {blockTemplate : IBlockTemplate} {jobTemplate : IJobTemplate} {jobsService : JobsService}
    (hopen : v.session.isSocketClosed = false)
    (hwritten : writtenHeight v.session = heights.max?)
    (he : Work.receives v e = some (address, purpose, blockTemplate))
    (hact : v.act cfg e = some v') (hbuild : v.jobsService.buildTemplateFor cfg.js address
      blockTemplate v.now = (jobsService, some jobTemplate))
    (hle : ∀ greatest ∈ heights.max?, greatest ≤ blockTemplate.height)
    (hsends : (∀ height ∈ heights.max?, height < blockTemplate.height) →
      v'.session.sentJobs ≠ v.session.sentJobs) :
    writtenHeight v'.session = some blockTemplate.height := by
  have hbrings : brings cfg v e = _ := brings_of_receives hopen he
  rw [hbuild, Option.map_some] at hbrings
  have hoffered : ∀ sent : SentJob, offers cfg v e = some sent.jobTemplate →
      sent.jobTemplate.blockData.height = blockTemplate.height := by
    intro sent hsome
    rw [offers, renews_of_receives he, hbrings, Option.none_or, Option.some.injEq] at hsome
    rw [← hsome, ← height_of_buildTemplateFor hbuild]
    split <;> rfl
  rw [writtenHeight]
  rcases offers_of_act hact with hsent | ⟨sent, hsent, hsome, -⟩
  · have hold : ¬ ∀ height ∈ heights.max?, height < blockTemplate.height := fun hless ↦
      hsends hless hsent
    push Not at hold
    obtain ⟨height, hmem, hge⟩ := hold
    rw [hsent]
    refine hwritten.trans (Eq.trans hmem (congrArg some ?_))
    exact le_antisymm (hle height hmem) hge
  · rw [hsent, List.head?_cons, Option.map_some, hoffered sent hsome]

theorem Leads.receives {address : String} {purpose : Purpose} {blockTemplate : IBlockTemplate}
    (h : Leads v.session heights) (hready : Ready v.session) (hguard : InOrder cfg v e)
    (he : Work.receives v e = some (address, purpose, blockTemplate))
    (hact : v.act cfg e = some v') : Leads v'.session (noteHeight heights v e) := by
  intro hopen'
  have hopen : v.session.isSocketClosed = false := by
    by_contra hclosed
    rw [(turn_of_act hready hact).closed (by simpa using hclosed)] at hopen'
    cases hopen'
  obtain ⟨hcached, hwritten⟩ := h hopen
  obtain ⟨hahead, hnew⟩ := (hguard _ he).1 hopen
  have hservice : (pop v e).jobsService = v.jobsService := by cases e <;> rfl
  have hnow : (pop v e).now = v.now := by cases e <;> rfl
  have hpop : cachedHeight (pop v e).session = cachedHeight v.session := by cases e <;> rfl
  have hsentPop : (pop v e).session.sentJobs = v.session.sentJobs := by cases e <;> rfl
  have hparty := (pop_session_parties v e).2
  have hcounter : (pop v e).session.elektronPoolVersionCounter =
      v.session.elektronPoolVersionCounter := by cases e <;> rfl
  have htime (jobTemplate : IJobTemplate) :
      resendTimestamp (pop v e) jobTemplate = resendTimestamp v jobTemplate := by cases e <;> rfl
  have hresult : v.act cfg e =
      some ((pop v e).receiveTemplate cfg address purpose (some blockTemplate)) :=
    act_of_receives he
  have hbrings : brings cfg v e = _ := brings_of_receives hopen he
  rw [noteHeight, he, Option.map_some, Option.toList_some, List.singleton_append]
  rcases says_receiveTemplate cfg (pop v e) address purpose blockTemplate with
    ⟨jobsService, hbuild, hsaid⟩ | ⟨jobsService, jobTemplate, hbuild, hsaid⟩
  · rw [hservice, hnow] at hbuild
    rw [hbuild, Option.map_none] at hbrings
    have hbelow : ∃ height ∈ cachedHeight v.session, blockTemplate.height ≤ height := by
      by_contra hnot
      push Not at hnot
      have hmints := hnew hnot
      rw [hbrings] at hmints
      cases hmints
    refine leads_of_refused hcached hwritten he hact hbrings hbelow (Eq.trans ?_ hpop)
    rw [hact, Option.some.injEq] at hresult
    rw [← hresult] at hsaid
    rw [cachedHeight, hsaid.template hopen', cachedHeight]
  · rw [hservice, hnow] at hbuild
    rw [hbuild, Option.map_some] at hbrings
    have hparses : parses cfg (address, purpose, blockTemplate) = true :=
      JobsService.assembles_of_buildTemplateFor hbuild 0
    have hle := hahead hparses
    rw [hcached] at hle
    rw [max?_cons_of_le hle]
    refine ⟨?_, writtenHeight_of_template hopen hwritten he hact hbuild hle ?_⟩
    · rw [hact, Option.some.injEq] at hresult
      rw [← hresult] at hsaid
      rw [cachedHeight, hsaid.template hopen', ← height_of_buildTemplateFor hbuild]
      rfl
    · intro hless hsent
      rw [← hcached] at hless
      have hmints := hnew hless
      rw [hbrings, Option.any_some] at hmints
      rw [hact, Option.some.injEq] at hresult
      rw [hresult, ← hsentPop] at hsent
      refine sent_receiveTemplate (v := pop v e) ?_ (hservice ▸ hnow ▸ hbuild) ?_ hsent
      · rw [pop_session_closed, hopen]
      · rw [htime]
        exact (isMintable_congr hparty hcounter cfg _).trans hmints

theorem Leads.act (h : Leads v.session heights) (hready : Ready v.session)
    (hguard : InOrder cfg v e) (hact : v.act cfg e = some v') :
    Leads v'.session (noteHeight heights v e) := by
  cases he : Work.receives v e with
  | none => exact h.quiet hready he hact
  | some answer => exact h.receives hready hguard he hact

section Registry

variable {id : SessionId} {job : MiningJob}

theorem registered_of_sends {w : View} {sending : IJobTemplate} (h : Sends cfg w sending v')
    (hjob : w.jobsService.jobs job.jobId = some job)
    (hfresh : job.jobId ≠ w.jobsService.getNextId) : v'.jobsService.jobs job.jobId = some job := by
  cases h with
  | nothing hquiet => exact hquiet.jobsService ▸ hjob
  | issued sent hissues hquiet =>
    obtain ⟨authorization, network, -, -, hnew⟩ := hissues.built
    obtain ⟨-, -, -, -, -, -, hid⟩ := MiningJob.new_eq_some hnew
    rw [hquiet.jobsService]
    change (w.jobsService.addJob sent.job).jobs job.jobId = some job
    rw [JobsService.jobs_addJob_of_ne (hid ▸ hfresh)]
    exact hjob

theorem registered_of_build {address : String} {purpose : Purpose} {blockTemplate : IBlockTemplate}
    {jobsService : JobsService} (hguard : InOrder cfg v e)
    (he : receives v e = some (address, purpose, blockTemplate))
    (hbuild : v.jobsService.buildTemplateFor cfg.js address blockTemplate v.now =
      (jobsService, some jobTemplate))
    {base : IJobTemplate} (hmem : Entry.job id job base ∈ v.history)
    (hjob : v.jobsService.jobs job.jobId = some job)
    (hlt : blockTemplate.height < base.blockData.height) :
    jobsService.jobs job.jobId = some job ∧ jobsService.getNextId = v.jobsService.getNextId := by
  have hbuilds := JobsService.builds_of_buildTemplateFor hbuild
  have hparses : parses cfg (address, purpose, blockTemplate) = true :=
    JobsService.assembles_of_buildTemplateFor hbuild 0
  have hsafe := List.any_eq_false.mp ((hguard _ he).2 hparses) _ hmem
  simp only [endangers, hjob, decide_true, hlt, Bool.true_and, Bool.or_eq_true, decide_eq_true_eq,
    not_or, Bool.not_eq_true, not_lt] at hsafe
  rw [hbuilds.service']
  refine ⟨JobsService.jobs_keep.mpr ⟨hbuilds.clearJobs.trans hsafe.1, hjob, hsafe.2⟩, ?_⟩
  exact congrArg (fun n : ℕ ↦ JavaScript.toString16 n) JobsService.latestJobId_keep

theorem registered_of_inOrder (hsound : Sound cfg v) (hguard : InOrder cfg v e)
    (hact : v.act cfg e = some v') (he : answer ∈ receives v e)
    (hmem : Entry.job id job jobTemplate ∈ v.history)
    (hjob : v.jobsService.jobs job.jobId = some job)
    (hlt : answer.2.2.height < jobTemplate.blockData.height) :
    v'.jobsService.jobs job.jobId = some job := by
  have hfresh : job.jobId ≠ v.jobsService.getNextId :=
    hsound.registry.fresh_jobId (List.mem_filter.mpr ⟨hmem, rfl⟩)
  cases step_of_act hact with
  | quiet hquiet => exact hquiet.jobsService ▸ hjob
  | authorized _ _ hquiet => exact hquiet.jobsService ▸ hjob
  | requested _ _ _ hquiet => exact hquiet.jobsService ▸ hjob
  | threw address purpose blockTemplate jobsService _ hbuild hquiet =>
    rw [hquiet.jobsService]
    change jobsService.jobs job.jobId = some job
    rw [JobsService.eq_of_buildTemplateFor_none hbuild]
    exact hjob
  | refreshed address purpose blockTemplate jobsService built hreceives _ hbuild hsends =>
    rw [hreceives, Option.mem_some_iff] at he
    subst he
    obtain ⟨hkept, hnext⟩ := registered_of_build hguard hreceives hbuild hmem hjob hlt
    exact registered_of_sends hsends hkept (hnext ▸ hfresh)
  | retargeted address blockTemplate jobsService built _ hreceives hbuild hsends =>
    rw [hreceives, Option.mem_some_iff] at he
    subst he
    obtain ⟨hkept, hnext⟩ := registered_of_build hguard hreceives hbuild hmem hjob hlt
    exact registered_of_sends hsends hkept (hnext ▸ hfresh)
  | renewed _ _ htimer =>
    subst htimer
    cases he
  | resent _ _ htimer =>
    subst htimer
    cases he

end Registry

/-- In every run whose answers come in order, a session with an open socket and its
miner are on the greatest height that was delivered to it. -/
theorem forward_of_inOrder (cfg : Config) (now : ℕ) (self : SessionId) (pool : Pool)
    (heights : List ℕ)
    (h : Noted cfg (InOrder cfg) self noteHeight (Pool.start now, []) (pool, heights)) :
    Forward cfg heights (pool.view self) := by
  have hleads : Leads (pool.sessions self) heights := by
    refine Noted.keeps (P := Leads) (J := fun v ↦ Ready v.session) ?_ (fun _ ↦ ⟨rfl, rfl⟩) ?_ h
    · exact fun pool hpool ↦ ready_of_reachable hpool self
    · exact fun v heights e v' hready hleads hguard hact ↦ hleads.act hready hguard hact
  refine ⟨fun hopen ↦ (hleads hopen).1, fun hopen ↦ (hleads hopen).2, ?_⟩
  intro e v' hguard hact answer he id job jobTemplate hmem hjob hlt
  have hsound : Sound cfg (pool.view self) :=
    sound_of_reachable (Reachable.of_noted h) self
  exact registered_of_inOrder hsound hguard hact he hmem hjob hlt

section Sample

open Reference

theorem forward_of_inOrder_run :
    ∃ pool heights, Noted settings (InOrder settings) 0 noteHeight (Pool.start 1700000000000, [])
        (pool, heights) ∧
      heights = [102, 101] ∧ Forward settings heights (pool.view 0) := by
  obtain ⟨⟨pool, heights⟩, hpool, hp⟩ := Reach.of_any
    (noted (Pool.step settings) (ofSession 0 noteHeight))
    (fun p event ↦ onSession (InOrder settings) p.1 event) (Pool.start 1700000000000, [])
    (opening 0 alice ++ [.session 0 .newBlock, .session 0 .refreshTimer,
      .session 0 (.resume 0 (.answered (Reference.answer 101 (hashOf 7)))),
      .session 0 (.resume 0 (.answered (Reference.answer 102 (hashOf 8))))])
    (fun p ↦ decide (p.2 = [102, 101])) (by decide +kernel) (by decide +kernel)
  exact ⟨pool, heights, hpool, of_decide_eq_true hp,
    forward_of_inOrder settings 1700000000000 0 pool heights hpool⟩

def overtaking : List Event :=
  [.session 0 (.resume 1 (.answered (Reference.answer 102 (hashOf 8)))),
    .session 0 (.resume 0 (.answered (Reference.answer 101 (hashOf 7))))]

def goesBack (pool : Pool) : Bool :=
  decide ((pool.sessions 0).tasks = [.template alice .newBlock, .template alice .refreshTimer]) &&
    (run (Pool.step settings) pool overtaking).any fun pool' ↦
      !(pool'.sessions 0).isSocketClosed && decide (cachedHeight (pool'.sessions 0) = some 101)

/-- Two fetches are under way, the first of the session; the one that was started
later is answered first and on no lower height. -/
theorem not_forward_of_overtaking :
    ¬ ∀ (cfg : Config) (now : ℕ) (id : SessionId) (pool pool' : Pool)
      (address address' : String) (purpose purpose' : Purpose) (older newer : IBlockTemplate),
      Noted cfg (fun _ _ ↦ True) id noteHeight (Pool.start now, []) (pool, []) →
      (pool.sessions id).tasks = [.template address purpose, .template address' purpose'] →
      older.height ≤ newer.height →
      run (Pool.step cfg) pool [.session id (.resume 1 (.answered newer)),
        .session id (.resume 0 (.answered older))] = some pool' →
      (pool'.sessions id).isSocketClosed = false →
      cachedHeight (pool'.sessions id) = [older.height, newer.height].max? := by
  intro h
  obtain ⟨⟨pool, heights⟩, hpool, hp⟩ := Reach.of_any
    (noted (Pool.step settings) (ofSession 0 noteHeight))
    (fun p event ↦ onSession (fun _ _ ↦ True) p.1 event) (Pool.start 1700000000000, [])
    (opening 0 alice ++ [.session 0 .newBlock, .session 0 .refreshTimer])
    (fun p ↦ goesBack p.1 && decide (p.2 = [])) (by decide +kernel) (by decide +kernel)
  simp only [goesBack, Bool.and_eq_true, decide_eq_true_eq] at hp
  obtain ⟨⟨htasks, hback⟩, rfl⟩ := hp
  obtain ⟨pool', hrun, hback⟩ := (Option.any_eq_true _ _).mp hback
  simp only [Bool.and_eq_true, Bool.not_eq_true', decide_eq_true_eq] at hback
  obtain ⟨hopen, hlow⟩ := hback
  have hforward := h settings _ 0 pool pool' alice alice .newBlock .refreshTimer
    (Reference.answer 101 (hashOf 7)) (Reference.answer 102 (hashOf 8)) hpool htasks (by decide)
    hrun hopen
  rw [hlow] at hforward
  exact absurd hforward (by decide)

end Sample

end ElektronPool.RefreshOrder
