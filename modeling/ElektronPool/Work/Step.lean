import ElektronPool.Work.Quiet

namespace ElektronPool.Work

open Lib Lib.JavaScript Model Model.View

variable {cfg : Config} {v v' v'' : View} {e : SessionEvent} {jobTemplate : IJobTemplate}
  {job : MiningJob} {sent : SentJob}

/-- The job a session builds from a template, and the notify it sends for it. -/
structure Issues (cfg : Config) (v : View) (jobTemplate : IJobTemplate) (sent : SentJob) : Prop where
  built : ∃ authorization network, v.session.clientAuthorization = some authorization ∧
    cfg.network = some network ∧
    MiningJob.new cfg.js network v.jobsService.getNextId [⟨authorization.address, 100⟩]
      (versionedJobTemplate jobTemplate sent.rotationState) v.now = some sent.job
  params : sent.params =
    sent.job.response (versionedJobTemplate jobTemplate sent.rotationState)
  template : sent.jobTemplate = jobTemplate
  restarted : jobTemplate.blockData.clearJobs = true → sent.rotationState = 0
  submissionHashes : sent.submissionHashes = v.session.miningSubmissionHashes

def issue (v : View) (sent : SentJob) : View := (v.addJob sent).send (.notify sent.params)

/-- The outcome of an attempt to send a job: none is issued, or one is. -/
inductive Sends (cfg : Config) (v : View) (jobTemplate : IJobTemplate) (v' : View) : Prop
  | nothing (h : Quiet v v')
  | issued (sent : SentJob) (hissues : Issues cfg v jobTemplate sent) (h : Quiet (issue v sent) v')

theorem Sends.trans (h : Sends cfg v jobTemplate v') (h' : Quiet v' v'') :
    Sends cfg v jobTemplate v'' := by
  cases h with
  | nothing h => exact .nothing (h.trans h')
  | issued sent hissues h => exact .issued sent hissues (h.trans h')

theorem quiet_catchRefresh (purpose : Purpose) (r : View × Bool) :
    Quiet r.1 (catchRefresh purpose r) := by
  obtain ⟨v, _ | _⟩ := r
  · exact .refl v
  · cases purpose with
    | newBlock => exact .endSocket
    | refreshTimer => exact .refl v
    | vardiff => exact .crash

theorem Quiet.issue (h : Quiet v v') (sent : SentJob) : Quiet (issue v sent) (issue v' sent) where
  now := h.now
  self := h.self
  jobsService := congrArg (·.addJob sent.job) h.jobsService
  clientAuthorization := h.clientAuthorization
  currentJobTemplate := h.currentJobTemplate
  sentJobs := congrArg (sent :: ·) h.sentJobs
  notices := congrArg (sent.params :: ·) h.notices
  fetches := h.fetches
  work := by
    simp only [ElektronPool.Work.issue, View.send, View.update, View.addJob, List.filter_cons, isWork,
      if_true, h.work, h.self]

theorem Issues.of_quiet (h : Quiet v v')
    (hhashes : v'.session.miningSubmissionHashes = v.session.miningSubmissionHashes)
    (hissues : Issues cfg v' jobTemplate sent) : Issues cfg v jobTemplate sent where
  built := by
    obtain ⟨authorization, network, hauthorization, hnetwork, hjob⟩ := hissues.built
    rw [h.clientAuthorization] at hauthorization
    rw [h.jobsService, h.now] at hjob
    exact ⟨authorization, network, hauthorization, hnetwork, hjob⟩
  params := hissues.params
  template := hissues.template
  restarted := hissues.restarted
  submissionHashes := hissues.submissionHashes.trans hhashes

theorem quiet_copyHashRate (v : View) : Quiet v v.copyHashRate ∧
    v.copyHashRate.session.miningSubmissionHashes = v.session.miningSubmissionHashes ∧
    v.copyHashRate.session.isSocketClosed = v.session.isSocketClosed := by
  rw [copyHashRate]
  split
  · exact ⟨.update rfl (.inl rfl) rfl rfl rfl, rfl, rfl⟩
  · exact ⟨.refl v, rfl, rfl⟩

theorem quiet_countJob (v : View) (rotationState : ℕ) : Quiet v (v.countJob rotationState) :=
  .update rfl (.inl rfl) rfl rfl rfl

theorem sends_sendNewMiningJob (cfg : Config) (v : View) (jobTemplate : IJobTemplate) :
    Sends cfg v jobTemplate (v.sendNewMiningJob cfg jobTemplate).1 := by
  obtain ⟨hcopy, hhashes, hclosed⟩ := quiet_copyHashRate v
  simp only [sendNewMiningJob]
  generalize v.copyHashRate = w at hcopy hhashes hclosed
  split
  · exact .nothing (.refl v)
  case isFalse hopen =>
    rw [← hclosed] at hopen
    split
    case h_1 authorization network hauthorization hnetwork =>
      have hcount := quiet_countJob w (w.rotationState jobTemplate)
      have hauthorization' := hcount.clientAuthorization.trans hauthorization
      have hhashes' : (w.countJob (w.rotationState jobTemplate)).session.miningSubmissionHashes =
          v.session.miningSubmissionHashes := hhashes
      have hopen' : ¬ (w.countJob (w.rotationState jobTemplate)).session.isSocketClosed = true := hopen
      have hrestart : jobTemplate.blockData.clearJobs = true → w.rotationState jobTemplate = 0 :=
        fun hclear ↦ by rw [rotationState, hclear, if_pos rfl]
      have hquiet := hcopy.trans hcount
      generalize w.rotationState jobTemplate = rotationState
        at hquiet hauthorization' hhashes' hopen' hrestart
      generalize w.countJob rotationState = u at hquiet hauthorization' hhashes' hopen'
      split
      · exact .nothing hquiet
      case h_2 job hjob =>
        refine .issued
          { params := job.response (versionedJobTemplate jobTemplate rotationState)
            job
            jobTemplate
            rotationState
            submissionHashes := u.session.miningSubmissionHashes } ?_ ?_
        · exact .of_quiet hquiet hhashes'
            ⟨⟨authorization, network, hauthorization', hnetwork, hjob⟩, rfl, rfl, hrestart, rfl⟩
        · refine (hquiet.issue _).trans ?_
          rw [View.write, if_neg (show ¬ (u.addJob _).session.isSocketClosed = true from hopen')]
          exact .suspend fun _ _ h ↦ by cases h
    · exact .nothing hcopy

theorem Sends.of_quiet (h : Quiet v v')
    (hhashes : v'.session.miningSubmissionHashes = v.session.miningSubmissionHashes)
    (hsends : Sends cfg v' jobTemplate v'') : Sends cfg v jobTemplate v'' := by
  cases hsends with
  | nothing h' => exact .nothing (h.trans h')
  | issued sent hissues h' => exact .issued sent (hissues.of_quiet h hhashes) ((h.issue sent).trans h')

def authorizes (cfg : Config) (v : View) : SessionEvent → Option AuthorizationMessage
  | .resume i .done =>
    match v.session.tasks[i]? with
    | some (.lines (.authorize message :: _)) =>
      if !v.hasStopped && cfg.isBitcoinAddress message.address then some message else none
    | _ => none
  | _ => none

/-- The answer of `getblocktemplate` an event delivers, to which fetch. -/
def receives (v : View) : SessionEvent → Option (String × Purpose × IBlockTemplate)
  | .resume i (.answered blockTemplate) =>
    match v.session.tasks[i]? with
    | some (.template address purpose) => some (address, purpose, blockTemplate)
    | _ => none
  | _ => none

/-- What an event can do to the work of a session and to the registry. -/
inductive Step (cfg : Config) (v : View) (e : SessionEvent) (v' : View) : Prop
  | quiet (h : Quiet v v')
  | authorized (message : AuthorizationMessage) (he : authorizes cfg v e = some message)
      (h : Quiet (v.update fun s ↦ { s with clientAuthorization := some message }) v')
  | requested (message : AuthorizationMessage) (purpose : Purpose)
      (hauthorization : v.session.clientAuthorization = some message)
      (h : Quiet (v.suspend (.template message.address purpose)) v')
  | threw (address : String) (purpose : Purpose) (blockTemplate : IBlockTemplate)
      (jobsService : JobsService) (he : receives v e = some (address, purpose, blockTemplate))
      (hbuild : v.jobsService.buildTemplateFor cfg.js address blockTemplate v.now =
        (jobsService, none))
      (h : Quiet { v with jobsService } v')
  | refreshed (address : String) (purpose : Purpose) (blockTemplate : IBlockTemplate)
      (jobsService : JobsService) (jobTemplate : IJobTemplate)
      (he : receives v e = some (address, purpose, blockTemplate)) (hpurpose : purpose ≠ .vardiff)
      (hbuild : v.jobsService.buildTemplateFor cfg.js address blockTemplate v.now =
        (jobsService, some jobTemplate))
      (h : Sends cfg (({ v with jobsService }.log (.template address jobTemplate)).cacheTemplate
        jobTemplate jobTemplate.blockData.clearJobs) jobTemplate v')
  | retargeted (address : String) (blockTemplate : IBlockTemplate)
      (jobsService : JobsService) (jobTemplate : IJobTemplate) (timestamp : ℕ)
      (he : receives v e = some (address, .vardiff, blockTemplate))
      (hbuild : v.jobsService.buildTemplateFor cfg.js address blockTemplate v.now =
        (jobsService, some jobTemplate))
      (h : Sends cfg (({ v with jobsService }.log (.template address jobTemplate)).cacheTemplate
        jobTemplate false) (retimedJobTemplate jobTemplate timestamp true) v')
  | renewed (jobTemplate : IJobTemplate) (timestamp : ℕ) (he : e = .localTimer)
      (hcache : v.session.currentJobTemplate = some jobTemplate)
      (h : Sends cfg v (retimedJobTemplate jobTemplate timestamp false) v')
  | resent (jobTemplate : IJobTemplate) (timestamp : ℕ) (he : e = .difficultyTimer)
      (hcache : v.session.currentJobTemplate = some jobTemplate)
      (h : Sends cfg (v.cacheTemplate jobTemplate false)
        (retimedJobTemplate jobTemplate timestamp true) v')

theorem Quiet.cacheTemplate (h : Quiet v v') (jobTemplate : IJobTemplate) (clear : Bool) :
    Quiet (v.cacheTemplate jobTemplate clear) (v'.cacheTemplate jobTemplate clear) :=
  ⟨h.now, h.self, h.jobsService, h.clientAuthorization, .inl rfl, h.sentJobs, h.notices, h.fetches,
    h.work⟩

theorem Quiet.suspendBoth (h : Quiet v v') (task : Task) :
    Quiet (v.suspend task) (v'.suspend task) where
  now := h.now
  self := h.self
  jobsService := h.jobsService
  clientAuthorization := h.clientAuthorization
  currentJobTemplate := h.currentJobTemplate
  sentJobs := h.sentJobs
  notices := h.notices
  fetches address purpose hmem := by
    rcases List.mem_append.mp hmem with hmem | hmem
    · exact List.mem_append_left _ (h.fetches _ _ hmem)
    · exact List.mem_append_right _ hmem
  work := h.work

theorem Quiet.logBoth (h : Quiet v v') (entry : Entry) : Quiet (v.log entry) (v'.log entry) :=
  ⟨h.now, h.self, h.jobsService, h.clientAuthorization, h.currentJobTemplate, h.sentJobs, h.notices,
    h.fetches, by simp only [View.log, List.filter_cons, h.work]⟩

theorem Quiet.withJobsService (h : Quiet v v') (jobsService : JobsService) :
    Quiet { v with jobsService } { v' with jobsService } :=
  ⟨h.now, h.self, rfl, h.clientAuthorization, h.currentJobTemplate, h.sentJobs, h.notices, h.fetches,
    h.work⟩

section Act

theorem sends_resendMiningJob (cfg : Config) (v : View) (jobTemplate : IJobTemplate) :
    ∃ timestamp, Sends cfg (v.cacheTemplate jobTemplate false)
      (retimedJobTemplate jobTemplate timestamp true) (v.resendMiningJob cfg jobTemplate).1 :=
  ⟨_, sends_sendNewMiningJob cfg (v.cacheTemplate jobTemplate false) _⟩

theorem step_refreshMiningJob (purpose : Purpose) :
    Step cfg v e (v.refreshMiningJob purpose) := by
  rw [refreshMiningJob]
  split
  · exact .quiet (.refl v)
  · split
    case h_1 authorization hauthorization =>
      exact .requested authorization purpose hauthorization (.refl _)
    · exact .quiet (.refl v)

theorem step_refreshLocalMiningWork (he : e = .localTimer) :
    Step cfg v e (v.refreshLocalMiningWork cfg) := by
  simp only [refreshLocalMiningWork]
  split
  · exact .quiet (.refl v)
  · split
    · exact .quiet (.refl v)
    case h_2 baseTemplate hcache =>
      split
      · exact .quiet (.refl v)
      · exact .renewed baseTemplate _ he hcache (sends_sendNewMiningJob cfg v _)

theorem quiet_announce (v : View) (targetDiff : ℚ) {w : View}
    (hw : w = (v.update fun s ↦ { s with sessionDifficulty := targetDiff }).sendUnchecked
      (.setDifficulty targetDiff)) :
    Quiet v w ∧ w.session.miningSubmissionHashes = v.session.miningSubmissionHashes := by
  rw [sendUnchecked] at hw
  split at hw
  · exact hw ▸ ⟨.update rfl (.inl rfl) rfl rfl rfl, rfl⟩
  · exact hw ▸ ⟨Quiet.trans (.update rfl (.inl rfl) rfl rfl rfl) (.send rfl), rfl⟩

theorem step_checkDifficulty (he : e = .difficultyTimer) : Step cfg v e (v.checkDifficulty cfg) := by
  simp only [checkDifficulty]
  split
  · exact .quiet .crash
  · split
    · exact .quiet .crash
    · exact .quiet (.refl v)
    case h_3 targetDiff _ =>
      split
      · exact .quiet (.refl v)
      · generalize hw : (v.update _).sendUnchecked _ = w
        obtain ⟨hquiet, hhashes⟩ := quiet_announce v targetDiff hw.symm
        split
        case h_1 jobTemplate hcache =>
          have hcached : v.session.currentJobTemplate = some jobTemplate := by
            rcases hquiet.currentJobTemplate with h | h
            · exact h ▸ hcache
            · simp [h] at hcache
          obtain ⟨timestamp, hsends⟩ := sends_resendMiningJob cfg w jobTemplate
          exact .resent jobTemplate timestamp he hcached
            ((hsends.of_quiet (hquiet.cacheTemplate jobTemplate false) hhashes).trans
              (quiet_catchRefresh .vardiff _))
        case h_2 authorization _ hauthorization =>
          rw [hquiet.clientAuthorization] at hauthorization
          exact .requested authorization .vardiff hauthorization (hquiet.suspendBoth _)
        · exact .quiet (hquiet.trans .crash)

theorem step_receiveTemplate {address : String} {purpose : Purpose} {blockTemplate : IBlockTemplate}
    {w : View} (hquiet : Quiet v w)
    (hhashes : w.session.miningSubmissionHashes = v.session.miningSubmissionHashes)
    (he : receives v e = some (address, purpose, blockTemplate)) :
    Step cfg v e (w.receiveTemplate cfg address purpose (some blockTemplate)) := by
  have hbuild : w.jobsService.buildTemplateFor cfg.js address blockTemplate w.now =
      v.jobsService.buildTemplateFor cfg.js address blockTemplate v.now := by
    rw [hquiet.jobsService, hquiet.now]
  simp only [receiveTemplate, hbuild]
  split
  case h_1 jobsService hthrew =>
    exact .threw address purpose blockTemplate jobsService he hthrew
      ((hquiet.withJobsService jobsService).trans (quiet_catchRefresh purpose (_, true)))
  case h_2 jobsService jobTemplate hbuilt =>
    have hlogged : Quiet ({ v with jobsService }.log (.template address jobTemplate))
        ({ w with jobsService }.log (.template address jobTemplate)) :=
      (hquiet.withJobsService jobsService).logBoth _
    have hcleared : (({ w with jobsService }.log (.template address jobTemplate)).cacheTemplate
        jobTemplate jobTemplate.blockData.clearJobs).session.miningSubmissionHashes =
        (({ v with jobsService }.log (.template address jobTemplate)).cacheTemplate
        jobTemplate jobTemplate.blockData.clearJobs).session.miningSubmissionHashes := by
      simp only [View.cacheTemplate, View.update, View.log, hhashes]
    have hsends := (sends_sendNewMiningJob cfg _ jobTemplate).of_quiet
      (hlogged.cacheTemplate jobTemplate jobTemplate.blockData.clearJobs) hcleared
    cases purpose with
    | vardiff =>
      obtain ⟨timestamp, hsends⟩ := sends_resendMiningJob cfg
        ({ w with jobsService }.log (.template address jobTemplate)) jobTemplate
      exact .retargeted address blockTemplate jobsService jobTemplate timestamp he hbuilt
        ((hsends.of_quiet (hlogged.cacheTemplate jobTemplate false) hhashes).trans
          (quiet_catchRefresh .vardiff _))
    | newBlock =>
      exact .refreshed address .newBlock blockTemplate jobsService jobTemplate he (by simp) hbuilt
        (hsends.trans (quiet_catchRefresh .newBlock _))
    | refreshTimer =>
      exact .refreshed address .refreshTimer blockTemplate jobsService jobTemplate he (by simp) hbuilt
        (hsends.trans (quiet_catchRefresh .refreshTimer _))

theorem Quiet.authorized (h : Quiet v v') (message : AuthorizationMessage) :
    Quiet (v.update fun s ↦ { s with clientAuthorization := some message })
      (v'.update (View.authorized message)) :=
  ⟨h.now, h.self, h.jobsService, rfl, h.currentJobTemplate, h.sentJobs, h.notices, h.fetches, h.work⟩

theorem step_handleLines {w : View} {lines : List Line} (hquiet : Quiet v w)
    (hauthorizes : ∀ message rest, lines = .authorize message :: rest → w.hasStopped = false →
      cfg.isBitcoinAddress message.address = true → authorizes cfg v e = some message) :
    Step cfg v e (w.handleLines cfg lines) := by
  cases lines with
  | nil => exact .quiet hquiet
  | cons line rest =>
    rw [handleLines]
    split
    · exact .quiet hquiet
    case isFalse hstopped =>
      cases line with
      | authorize message =>
        simp only [handleMessage, authorize]
        split
        case isTrue hvalid =>
          exact .authorized message
            (hauthorizes message rest rfl (by simpa using hstopped) hvalid)
            ((hquiet.authorized message).trans (.write rfl _ rest))
        · exact .quiet (hquiet.trans (.write rfl _ rest))
      | malformed => exact .quiet (hquiet.trans (.throw rest))
      | throws method =>
        simp only [handleMessage]
        split
        · exact .quiet (hquiet.trans (.nextLines rest))
        · exact .quiet (hquiet.trans (.throw rest))
      | invalid method id =>
        simp only [handleMessage]
        split
        · exact .quiet (hquiet.trans (.nextLines rest))
        · split
          · exact .quiet (hquiet.trans (.throw rest))
          · exact .quiet (hquiet.trans (.invalid rest method id))
      | subscribe message => exact .quiet (hquiet.trans (.subscribe cfg rest message))
      | configure id => exact .quiet (hquiet.trans (.write rfl _ rest))
      | suggestDifficulty id suggestedDifficulty =>
        simp only [handleMessage]
        split
        · exact .quiet (hquiet.trans (.nextLines rest))
        · exact .quiet (hquiet.trans (.suggestDifficulty rest suggestedDifficulty))
      | submit submission =>
        simp only [handleMessage]
        split
        · exact .quiet (hquiet.trans (.throw rest))
        · exact .quiet (hquiet.trans (.handleMiningSubmission cfg rest submission))
      | other => exact .quiet (hquiet.trans (.finishMessage cfg rest))

theorem step_resume {i : ℕ} {outcome : Outcome} (he : e = .resume i outcome)
    (h : v.act cfg e = some v') : Step cfg v e v' := by
  subst he
  simp only [act, Option.bind_eq_some_iff] at h
  obtain ⟨task, htask, h⟩ := h
  have hquiet : Quiet v (v.update fun s ↦ { s with tasks := s.tasks.eraseIdx i }) := .erase i
  have hhashes :
      (v.update fun s ↦ { s with tasks := s.tasks.eraseIdx i }).session.miningSubmissionHashes =
        v.session.miningSubmissionHashes := rfl
  have hstopped : (v.update fun s ↦ { s with tasks := s.tasks.eraseIdx i }).hasStopped =
    v.hasStopped := rfl
  generalize (v.update fun s ↦ { s with tasks := s.tasks.eraseIdx i }) = w at h hquiet hhashes hstopped
  rw [resumeTask.eq_def] at h
  split at h
  case h_1 rest =>
    cases h
    apply step_handleLines hquiet
    intro message rest hlines hrunning hvalid
    subst hlines
    rw [hstopped] at hrunning
    simp [authorizes, htask, hrunning, hvalid]
  case h_2 => exact .quiet (hquiet.trans (.resumeWrite cfg _ h))
  case h_3 address purpose blockTemplate =>
    cases h
    exact step_receiveTemplate hquiet hhashes (by simp [receives, htask])
  case h_4 address purpose =>
    cases h
    exact .quiet (hquiet.trans (quiet_catchRefresh purpose (w, true)))
  case h_5 => exact .quiet (hquiet.trans (.resumeShare cfg _ _ h))
  case h_6 partialClient updatedAt =>
    cases h
    exact .quiet (hquiet.trans (.update rfl (.inl rfl) rfl rfl rfl))
  case h_7 =>
    cases h
    exact .quiet (hquiet.trans (.update rfl (.inl rfl) rfl rfl rfl))
  case h_8 => cases h

/-- Everything an event of a session can do to its work and to the registry. -/
theorem step_of_act (h : v.act cfg e = some v') : Step cfg v e v' := by
  cases acts_of_act h with
  | connect => exact .quiet (.update rfl (.inl rfl) rfl rfl rfl)
  | data lines => exact .quiet (.nextLines lines)
  | newBlock => exact step_refreshMiningJob .newBlock
  | refreshTimer => exact step_refreshMiningJob .refreshTimer
  | localTimer => exact step_refreshLocalMiningWork rfl
  | difficultyTimer => exact step_checkDifficulty rfl
  | socketEnd => exact .quiet (.update rfl (.inl rfl) rfl rfl rfl)
  | socketClose => exact .quiet .closeSocket
  | socketUnwritable => exact .quiet (.update rfl (.inl rfl) rfl rfl rfl)
  | resume => exact step_resume rfl h

end Act

end ElektronPool.Work
