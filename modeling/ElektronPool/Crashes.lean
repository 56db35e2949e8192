import ElektronPool.Introduction

namespace ElektronPool.Crashes

open Lib Lib.JavaScript Lib.Runs Model Model.View Work Moves Introduction

variable {cfg : Config} {s : Session} {v₀ v v' : View} {e : SessionEvent} {pool pool' : Pool}
  {id : SessionId}

section Building

variable {js : BitcoinJs} {network : Network} {jobId : String} {jobTemplate : IJobTemplate}
  {payoutInformation : List AddressObject} {now : ℕ}

/-- No block with the coinbase of this work can be made: it would be too heavy, or the
coinbase has no bytes. -/
def Unbuildable (js : BitcoinJs) (network : Network) (payoutInformation : List AddressObject)
    (jobTemplate : IJobTemplate) : Prop :=
  let coinbase := MiningJob.coinbaseTransactionOf js network payoutInformation jobTemplate
  maxBlockWeight < js.transactionWeight coinbase + js.blockWeight jobTemplate.block ∨
    js.transactionNoWitness coinbase = none

theorem new_eq_none : MiningJob.new js network jobId payoutInformation jobTemplate now = none ↔
    Unbuildable js network payoutInformation jobTemplate := by
  rw [MiningJob.new, Unbuildable]
  dsimp only
  split
  case isTrue hweight => exact iff_of_true rfl (.inl hweight)
  case isFalse hweight =>
    rw [or_iff_right hweight]
    cases js.transactionNoWitness (MiningJob.coinbaseTransactionOf js network payoutInformation
      jobTemplate) with
    | none => exact iff_of_true rfl rfl
    | some buffer => exact iff_of_false (Option.some_ne_none _) (Option.some_ne_none _)

end Building

section Equipment

/-- What the timers of a session and the fetches it waits for find when they run. -/
structure Equipped (cfg : Config) (s : Session) : Prop where
  statistics : s.sessionStart ≠ none → s.statistics.isSome = true
  sessionStart : s.clientSubscription ≠ none → s.sessionStart ≠ none
  authorization : ∀ authorization, s.clientAuthorization = some authorization →
    cfg.isBitcoinAddress authorization.address = true

theorem Equipped.of_eq {s' : Session} (h : Equipped cfg s)
    (hstatistics : s'.statistics.isSome = s.statistics.isSome)
    (hstart : s'.sessionStart = s.sessionStart)
    (hsubscription : s'.clientSubscription = s.clientSubscription)
    (hauthorization : s'.clientAuthorization = s.clientAuthorization) : Equipped cfg s' where
  statistics hsome := hstatistics.trans (h.statistics (hstart ▸ hsome))
  sessionStart hsome := by
    rw [hstart]
    exact h.sessionStart (hsubscription ▸ hsome)
  authorization authorization hsome := h.authorization authorization (hauthorization ▸ hsome)

theorem Equipped.of_profile {s' : Session} (h : Equipped cfg s) (hprofile : profile s' = profile s) :
    Equipped cfg s' :=
  h.of_eq (congrArg Profile.hasStatistics hprofile) (congrArg Profile.sessionStart hprofile)
    (congrArg Profile.clientSubscription hprofile) (congrArg Profile.clientAuthorization hprofile)

theorem Equipped.write (h : Equipped cfg v.session) (message : Message) (after : AfterWrite)
    (rest : List Line) : Equipped cfg (v.write message after rest).session := by
  rw [View.write, View.nextLines]
  split
  · split
    · exact h
    · exact h.of_eq rfl rfl rfl rfl
  · exact h.of_eq rfl rfl rfl rfl

theorem Equipped.move (h : Equipped cfg v.session) (hmove : Move cfg v₀ e v v') :
    Equipped cfg v'.session := by
  cases hmove with
  | adjust f hprofile => exact h.of_profile hprofile
  | begin isHobbyMinerSession =>
    exact ⟨fun _ ↦ rfl, fun _ ↦ Option.some_ne_none _, h.authorization⟩
  | subscribe subscription rest hstart =>
    apply Equipped.write
    exact ⟨h.statistics, fun _ ↦ hstart, h.authorization⟩
  | authorize authorization rest haddress =>
    apply Equipped.write
    refine ⟨h.statistics, h.sessionStart, fun other hother ↦ ?_⟩
    cases hother
    exact haddress
  | suggest suggestedDifficulty rest =>
    apply Equipped.write
    exact h.of_eq rfl rfl rfl rfl
  | _ => exact h.of_eq rfl rfl rfl rfl

theorem Equipped.trace (h : Equipped cfg v₀.session) (htrace : Trace cfg v₀ e v₀ v) :
    Equipped cfg v.session := by
  induction htrace with
  | refl => exact h
  | tail _ hmove ih => exact ih.move hmove

theorem equipped_kept :
    Kept cfg (fun _ ↦ True) (fun _ _ ↦ True) fun v ↦ Equipped cfg v.session :=
  .of_session fun _ _ _ _ h _ hact ↦ h.trace (.of_act hact)

theorem equipped_of_reachable {now : ℕ} (h : Reachable (Pool.step cfg) (Pool.start now) pool)
    (id : SessionId) : Equipped cfg (pool.sessions id) := by
  apply equipped_kept.reach (fun _ _ _ ↦ trivial) (fun id' ↦ ?_) (reachable_of_reach h) id
  exact ⟨fun hsome ↦ absurd rfl hsome, fun hsome ↦ absurd rfl hsome, fun _ hsome ↦ by cases hsome⟩

theorem equipped_of_works {now : ℕ} (h : Reachable (Pool.step cfg) (Pool.start now) pool)
    (hworks : Works (pool.sessions id)) :
    (∃ statistics, (pool.sessions id).statistics = some statistics) ∧
      ∃ authorization network, (pool.sessions id).clientAuthorization = some authorization ∧
        cfg.network = some network := by
  have hequipped := equipped_of_reachable h id
  have hintroduced : Introduced (pool.sessions id) :=
    introduced_kept.reach (fun _ _ _ ↦ trivial) (introduced_start now) (reachable_of_reach h) id
  obtain ⟨hsubscription, hauthorization⟩ := hintroduced.initialized (hintroduced.works hworks).1
  obtain ⟨authorization, hauthorization⟩ := Option.ne_none_iff_exists'.mp hauthorization
  have haddress := hequipped.authorization authorization hauthorization
  rw [Config.isBitcoinAddress, Option.any_eq_true] at haddress
  obtain ⟨network, hnetwork, -⟩ := haddress
  exact ⟨Option.isSome_iff_exists.mp (hequipped.statistics (hequipped.sessionStart hsubscription)),
    authorization, network, hauthorization, hnetwork⟩

end Equipment

section Resending

variable (v) (jobTemplate : IJobTemplate)

/-- The work that `resendMiningJob` sends: the rotation starts again, at a new timestamp. -/
def resentTemplate : IJobTemplate :=
  versionedJobTemplate (retimedJobTemplate jobTemplate
    (max (max jobTemplate.block.timestamp (v.now / 1000))
      (v.session.lastSentMiningJobTimestamp.getD 0 + 1)) true) 0

def Fails (cfg : Config) : Prop :=
  v.session.isSocketClosed = false ∧ ∃ authorization network,
    v.session.clientAuthorization = some authorization ∧ cfg.network = some network ∧
      Unbuildable cfg.js network [⟨authorization.address, 100⟩] (resentTemplate v jobTemplate)

theorem crashed_write (message : Message) (after : AfterWrite) (rest : List Line) :
    (v.write message after rest).crashed = v.crashed := by
  rw [View.write, View.nextLines]
  split
  · split
    · rfl
    · rfl
  · rfl

theorem crashed_copyHashRate : v.copyHashRate.crashed = v.crashed := by
  rw [View.copyHashRate]
  split
  · rfl
  · rfl

theorem clientAuthorization_copyHashRate :
    v.copyHashRate.session.clientAuthorization = v.session.clientAuthorization := by
  rw [View.copyHashRate]
  split
  · rfl
  · rfl

theorem crashed_sendNewMiningJob :
    (v.sendNewMiningJob cfg jobTemplate).1.crashed = v.crashed := by
  rw [View.sendNewMiningJob]
  dsimp only
  split
  · rfl
  · split
    · split
      · exact crashed_copyHashRate v
      · exact (crashed_write _ _ _ _).trans (crashed_copyHashRate v)
    · exact crashed_copyHashRate v

variable {v jobTemplate} {authorization : AuthorizationMessage} {network : Network}

theorem sendNewMiningJob_snd (hclear : jobTemplate.blockData.clearJobs = true)
    (hauthorization : v.session.clientAuthorization = some authorization)
    (hnetwork : cfg.network = some network) :
    (v.sendNewMiningJob cfg jobTemplate).2 = true ↔ v.session.isSocketClosed = false ∧
      Unbuildable cfg.js network [⟨authorization.address, 100⟩]
        (versionedJobTemplate jobTemplate 0) := by
  have hcopied : v.copyHashRate.session.clientAuthorization = some authorization :=
    (clientAuthorization_copyHashRate v).trans hauthorization
  have hrotation : v.copyHashRate.rotationState jobTemplate = 0 := if_pos hclear
  rw [View.sendNewMiningJob]
  dsimp only
  rw [hcopied, hnetwork, hrotation]
  dsimp only
  split
  case isTrue hclosed => simp [hclosed]
  case isFalse hopen =>
    rw [Bool.not_eq_true] at hopen
    rw [and_iff_right hopen]
    split
    case h_1 hnew => exact iff_of_true rfl (new_eq_none.mp hnew)
    case h_2 job hnew =>
      refine iff_of_false Bool.false_ne_true fun hunbuildable ↦ ?_
      rw [new_eq_none.mpr hunbuildable] at hnew
      cases hnew

theorem crashed_resend (hcrashed : v.crashed = false)
    (hauthorization : v.session.clientAuthorization = some authorization)
    (hnetwork : cfg.network = some network) :
    (catchRefresh .vardiff (v.resendMiningJob cfg jobTemplate)).crashed = true ↔
      Fails v jobTemplate cfg := by
  have hsent : (v.resendMiningJob cfg jobTemplate).1.crashed = false :=
    (crashed_sendNewMiningJob _ _).trans hcrashed
  have hthrown : (v.resendMiningJob cfg jobTemplate).2 = true ↔ v.session.isSocketClosed = false ∧
      Unbuildable cfg.js network [⟨authorization.address, 100⟩] (resentTemplate v jobTemplate) :=
    sendNewMiningJob_snd (v := v.cacheTemplate jobTemplate false) rfl hauthorization hnetwork
  have hfails : Fails v jobTemplate cfg ↔ v.session.isSocketClosed = false ∧
      Unbuildable cfg.js network [⟨authorization.address, 100⟩] (resentTemplate v jobTemplate) := by
    rw [Fails, hauthorization, hnetwork]
    constructor
    · intro ⟨hopen, _, _, hauthorization', hnetwork', hunbuildable⟩
      cases hauthorization'
      cases hnetwork'
      exact ⟨hopen, hunbuildable⟩
    · rintro ⟨hopen, hunbuildable⟩
      exact ⟨hopen, authorization, network, rfl, rfl, hunbuildable⟩
  rw [hfails, ← hthrown]
  generalize v.resendMiningJob cfg jobTemplate = result at hsent ⊢
  obtain ⟨sent, thrown⟩ := result
  cases thrown with
  | false => exact iff_of_false (fun h ↦ Bool.false_ne_true (hsent.symm.trans h)) Bool.false_ne_true
  | true => exact iff_of_true rfl rfl

end Resending

/-- What ends the process: a suggestion that exhausts the stack, a template that does not
arrive or cannot be assembled when the difficulty changed, or its work that cannot be built. -/
inductive Fatal (cfg : Config) (v : View) : SessionEvent → Prop
  | overflow (statistics : StratumV1ClientStatistics) (error : RangeError)
      (hstatistics : v.session.statistics = some statistics)
      (hsuggested : statistics.getSuggestedDifficulty cfg.stack v.session.sessionDifficulty v.now =
        .error error) : Fatal cfg v .difficultyTimer
  | resent (statistics : StratumV1ClientStatistics) (targetDiff : ℚ) (jobTemplate : IJobTemplate)
      (hstatistics : v.session.statistics = some statistics)
      (hsuggested : statistics.getSuggestedDifficulty cfg.stack v.session.sessionDifficulty v.now =
        .ok (some targetDiff)) (hchanged : targetDiff ≠ v.session.sessionDifficulty)
      (hcached : v.session.currentJobTemplate = some jobTemplate)
      (hfails : Fails v jobTemplate cfg) : Fatal cfg v .difficultyTimer
  | unanswered (i : ℕ) (address : String)
      (htask : v.session.tasks[i]? = some (.template address .vardiff)) :
      Fatal cfg v (.resume i .failed)
  | unassembled (i : ℕ) (address : String) (blockTemplate : IBlockTemplate)
      (htask : v.session.tasks[i]? = some (.template address .vardiff))
      (hbuild : (v.jobsService.buildTemplateFor cfg.js address blockTemplate v.now).2 = none) :
      Fatal cfg v (.resume i (.answered blockTemplate))
  | retargeted (i : ℕ) (address : String) (blockTemplate : IBlockTemplate)
      (jobTemplate : IJobTemplate)
      (htask : v.session.tasks[i]? = some (.template address .vardiff))
      (hbuild : (v.jobsService.buildTemplateFor cfg.js address blockTemplate v.now).2 =
        some jobTemplate) (hfails : Fails v jobTemplate cfg) :
      Fatal cfg v (.resume i (.answered blockTemplate))

section Events

structure Alike (v v' : View) : Prop where
  crashed : v'.crashed = v.crashed
  now : v'.now = v.now
  closed : v'.session.isSocketClosed = v.session.isSocketClosed
  authorization : v'.session.clientAuthorization = v.session.clientAuthorization
  template : v'.session.currentJobTemplate = v.session.currentJobTemplate
  sent : v'.session.lastSentMiningJobTimestamp = v.session.lastSentMiningJobTimestamp

theorem Alike.fails (h : Alike v v') (jobTemplate : IJobTemplate) :
    Fails v' jobTemplate cfg ↔ Fails v jobTemplate cfg := by
  rw [Fails, Fails, resentTemplate, resentTemplate, h.now, h.closed, h.authorization, h.sent]

theorem alike_sendUnchecked (v : View) (targetDiff : ℚ) :
    Alike v ((v.update fun s ↦ { s with sessionDifficulty := targetDiff }).sendUnchecked
      (.setDifficulty targetDiff)) := by
  rw [View.sendUnchecked]
  split
  · exact ⟨rfl, rfl, rfl, rfl, rfl, rfl⟩
  · exact ⟨rfl, rfl, rfl, rfl, rfl, rfl⟩

theorem crashed_checkDifficulty (hcrashed : v.crashed = false)
    {statistics : StratumV1ClientStatistics} (hstatistics : v.session.statistics = some statistics)
    {authorization : AuthorizationMessage}
    (hauthorization : v.session.clientAuthorization = some authorization) {network : Network}
    (hnetwork : cfg.network = some network) :
    (v.checkDifficulty cfg).crashed = true ↔ Fatal cfg v .difficultyTimer := by
  have hnot (hcrashed : (v.checkDifficulty cfg).crashed = false)
      (hsafe : ¬ Fatal cfg v .difficultyTimer) :
      (v.checkDifficulty cfg).crashed = true ↔ Fatal cfg v .difficultyTimer := by
    refine iff_of_false (fun h ↦ ?_) hsafe
    rw [hcrashed] at h
    cases h
  cases hsuggested : statistics.getSuggestedDifficulty cfg.stack v.session.sessionDifficulty
    v.now with
  | error error =>
    refine iff_of_true ?_ (.overflow statistics error hstatistics hsuggested)
    simp only [View.checkDifficulty, hstatistics, hsuggested]
  | ok suggestion =>
    have hfatal (h : Fatal cfg v .difficultyTimer) : ∃ targetDiff jobTemplate,
        suggestion = some targetDiff ∧ targetDiff ≠ v.session.sessionDifficulty ∧
          v.session.currentJobTemplate = some jobTemplate ∧ Fails v jobTemplate cfg := by
      cases h with
      | overflow statistics' error hstatistics' hsuggested' =>
        rw [hstatistics] at hstatistics'
        cases hstatistics'
        rw [hsuggested] at hsuggested'
        cases hsuggested'
      | resent statistics' targetDiff jobTemplate hstatistics' hsuggested' hchanged hcached hfails =>
        rw [hstatistics] at hstatistics'
        cases hstatistics'
        rw [hsuggested] at hsuggested'
        cases hsuggested'
        exact ⟨targetDiff, jobTemplate, rfl, hchanged, hcached, hfails⟩
    cases suggestion with
    | none =>
      apply hnot
      · simp only [View.checkDifficulty, hstatistics, hsuggested]
        exact hcrashed
      · intro h
        obtain ⟨_, _, hsome, -⟩ := hfatal h
        cases hsome
    | some targetDiff =>
      by_cases hchanged : targetDiff = v.session.sessionDifficulty
      · apply hnot
        · simp only [View.checkDifficulty, hstatistics, hsuggested, if_pos hchanged]
          exact hcrashed
        · intro h
          obtain ⟨_, _, hsome, hne, -⟩ := hfatal h
          cases hsome
          exact hne hchanged
      · have htold := alike_sendUnchecked v targetDiff
        simp only [View.checkDifficulty, hstatistics, hsuggested, if_neg hchanged] at hnot ⊢
        generalize View.sendUnchecked _ _ = told at htold hnot ⊢
        rw [htold.template, htold.authorization, hauthorization] at hnot ⊢
        cases hcached : v.session.currentJobTemplate with
        | none =>
          rw [hcached] at hnot
          apply hnot
          · exact htold.crashed.trans hcrashed
          · intro h
            obtain ⟨_, _, -, -, hcached', -⟩ := hfatal h
            rw [hcached] at hcached'
            cases hcached'
        | some jobTemplate =>
          have hcrash : (catchRefresh .vardiff (told.resendMiningJob cfg jobTemplate)).crashed = true ↔
              Fails told jobTemplate cfg :=
            crashed_resend (htold.crashed.trans hcrashed)
              (htold.authorization.trans hauthorization) hnetwork
          refine hcrash.trans ((htold.fails jobTemplate).trans ⟨?_, fun h ↦ ?_⟩)
          · exact .resent statistics targetDiff jobTemplate hstatistics hsuggested hchanged hcached
          · obtain ⟨_, jobTemplate', -, -, hcached', hfails⟩ := hfatal h
            rw [hcached] at hcached'
            cases hcached'
            exact hfails

theorem crashed_answered (hcrashed : v.crashed = false) {i : ℕ} {address : String}
    (htask : v.session.tasks[i]? = some (.template address .vardiff))
    {authorization : AuthorizationMessage}
    (hauthorization : v.session.clientAuthorization = some authorization) {network : Network}
    (hnetwork : cfg.network = some network) (blockTemplate : IBlockTemplate) :
    ((v.update fun s ↦ { s with tasks := s.tasks.eraseIdx i }).receiveTemplate cfg address .vardiff
      (some blockTemplate)).crashed = true ↔ Fatal cfg v (.resume i (.answered blockTemplate)) := by
  have hfatal (h : Fatal cfg v (.resume i (.answered blockTemplate))) :
      (v.jobsService.buildTemplateFor cfg.js address blockTemplate v.now).2 = none ∨
      ∃ jobTemplate, (v.jobsService.buildTemplateFor cfg.js address blockTemplate v.now).2 =
        some jobTemplate ∧ Fails v jobTemplate cfg := by
    cases h with
    | unassembled _ address' _ htask' hbuild =>
      rw [htask] at htask'
      cases htask'
      exact .inl hbuild
    | retargeted _ address' _ jobTemplate htask' hbuild hfails =>
      rw [htask] at htask'
      cases htask'
      exact .inr ⟨jobTemplate, hbuild, hfails⟩
  rw [View.receiveTemplate]
  dsimp only [View.update]
  cases hbuild : v.jobsService.buildTemplateFor cfg.js address blockTemplate v.now with
  | mk jobsService built =>
    cases built with
    | none => exact iff_of_true rfl (.unassembled i address blockTemplate htask (by rw [hbuild]))
    | some jobTemplate =>
      let answered : View := View.log
        { v with jobsService, session := { v.session with tasks := v.session.tasks.eraseIdx i } }
        (.template address jobTemplate)
      have halike : Alike v answered := ⟨rfl, rfl, rfl, rfl, rfl, rfl⟩
      have hcrash : (catchRefresh .vardiff (answered.resendMiningJob cfg jobTemplate)).crashed =
          true ↔ Fails answered jobTemplate cfg := crashed_resend hcrashed hauthorization hnetwork
      refine hcrash.trans ((halike.fails jobTemplate).trans ⟨fun hfails ↦ ?_, fun h ↦ ?_⟩)
      · exact .retargeted i address blockTemplate jobTemplate htask (by rw [hbuild]) hfails
      · rcases hfatal h with hnone | ⟨jobTemplate', hsome, hfails⟩
        · rw [hbuild] at hnone
          cases hnone
        · rw [hbuild] at hsome
          cases hsome
          exact hfails

theorem Fatal.throws (h : Fatal cfg v e) : Throws v e := by
  cases h with
  | overflow | resent => exact .difficultyTimer
  | unanswered i address htask => exact .template i .failed address htask
  | unassembled i address blockTemplate htask => exact .template i _ address htask
  | retargeted i address blockTemplate _ htask => exact .template i _ address htask

theorem crashed_of_trace (h : Trace cfg v₀ e v v') (hthrows : ¬ Throws v₀ e) :
    v'.crashed = v.crashed := by
  induction h with
  | refl => rfl
  | tail _ hmove ih =>
    rw [← ih]
    cases hmove with
    | crash h => exact absurd h hthrows
    | subscribe | authorize | suggest => exact crashed_write _ _ _ _
    | _ => rfl

end Events

/-- In every run, an event of a session ends the process exactly if it is one of these: neither
what its miner sends, nor the end of its connection, nor a store that fails it ever does. -/
theorem crashed_iff_fatal (cfg : Config) (now : ℕ) (pool : Pool)
    (h : Reachable (Pool.step cfg) (Pool.start now) pool) (id : SessionId) (e : SessionEvent)
    (pool' : Pool) (hstep : pool.step cfg (.session id e) = some pool') :
    pool'.crashed = true ↔ Fatal cfg (pool.view id) e := by
  obtain ⟨hrunning, hstep⟩ := Option.ite_none_left_eq_some.mp hstep
  have hcrashed : (pool.view id).crashed = false := Bool.eq_false_of_not_eq_true hrunning
  obtain ⟨v', hact, rfl⟩ := Option.map_eq_some_iff.mp hstep
  change v'.crashed = true ↔ _
  have hequipped (hworks : Works (pool.sessions id)) := equipped_of_works h hworks
  by_cases hthrows : Throws (pool.view id) e
  case neg =>
    rw [crashed_of_trace (.of_act hact) hthrows, hcrashed]
    exact iff_of_false Bool.false_ne_true fun hfatal ↦ hthrows hfatal.throws
  case pos =>
    cases hthrows with
    | difficultyTimer =>
      obtain ⟨hworks, hact⟩ := Option.ite_none_right_eq_some.mp hact
      cases hact
      obtain ⟨⟨statistics, hstatistics⟩, authorization, network, hauthorization, hnetwork⟩ :=
        hequipped (.inr (.inl hworks))
      exact crashed_checkDifficulty hcrashed hstatistics hauthorization hnetwork
    | template i outcome address htask =>
      obtain ⟨-, authorization, network, hauthorization, hnetwork⟩ :=
        hequipped (.inr (.inr (.inr ⟨_, List.mem_of_getElem? htask, rfl⟩)))
      obtain ⟨task, htask', hresume⟩ := Option.bind_eq_some_iff.mp hact
      rw [htask] at htask'
      cases htask'
      cases outcome with
      | failed =>
        cases hresume
        exact iff_of_true rfl (.unanswered i address htask)
      | answered blockTemplate =>
        cases hresume
        exact crashed_answered hcrashed htask hauthorization hnetwork blockTemplate
      | done | submitted | inserted => cases hresume

section Sample

open Reference

def timeout : List Event :=
  opening 0 alice ++ [.tick 61000, .session 0 .difficultyTimer]

theorem crashed_iff_fatal_timeout : ∃ pool pool',
    Reachable (Pool.step settings) (Pool.start 1700000000000) pool ∧
      pool.step settings (.session 0 (.resume 0 .failed)) = some pool' ∧
      Fatal settings (pool.view 0) (.resume 0 .failed) := by
  obtain ⟨pool, hpool, hfailed⟩ := Reachable.of_any (Pool.step settings)
    (Pool.start 1700000000000) timeout (fun pool ↦
      (pool.step settings (.session 0 (.resume 0 .failed))).any fun pool' ↦ pool'.crashed)
    (by decide +kernel)
  obtain ⟨pool', hstep, hcrashed⟩ := (Option.any_eq_true _ _).mp hfailed
  exact ⟨pool, pool', hpool, hstep,
    (crashed_iff_fatal settings _ pool hpool 0 _ pool' hstep).mp hcrashed⟩

end Sample

end ElektronPool.Crashes
