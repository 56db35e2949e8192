import ElektronPool.Shares.Deal
import ElektronPool.Talk.Says

namespace ElektronPool.Talk

open Lib Lib.JavaScript Model Model.View Work Shares

variable {cfg : Config} {v v' : View} {e : SessionEvent} {line : Line} {rest : List Line}

def handles (v : View) : SessionEvent → Option (Line × List Line)
  | .resume i .done =>
    match v.session.tasks[i]? with
    | some (.lines (line :: rest)) => if v.hasStopped then none else some (line, rest)
    | _ => none
  | _ => none

def follows (v : View) : SessionEvent → List Line
  | .data lines => lines
  | .resume i _ =>
    match v.session.tasks[i]? with
    | some (.lines lines) => if v.hasStopped then [] else lines.tail
    | some task => restOf task
    | none => []
  | _ => []

def finishes (v : View) : SessionEvent → Bool
  | .resume i .done =>
    match v.session.tasks[i]? with
    | some (.write .reply _) => !v.session.isSocketClosed
    | some (.write .suggested _) => !v.session.isSocketClosed
    | some (.lines (.other :: _)) => !v.hasStopped
    | _ => false
  | _ => false

/-- The subscription of a session that an event initialises. -/
def starts (v : View) (e : SessionEvent) : Option SubscriptionMessage :=
  if finishes v e && !v.session.stratumInitialized && v.session.clientAuthorization.isSome then
    v.session.clientSubscription
  else none

def initialised (cfg : Config) (v : View) (subscription : SubscriptionMessage) : View :=
  v.update fun s ↦
    { s with
      stratumInitialized := true
      sessionDifficulty := initialDifficulty cfg s subscription.userAgent }

def suggested (v : View) (suggestedDifficulty : ℚ) : View :=
  v.update fun s ↦
    { s with
      clientSuggestedDifficulty := some suggestedDifficulty
      sessionDifficulty := suggestedDifficulty }

inductive Replies (v : View) : Line → Message → Prop
  | subscribe (message : SubscriptionMessage) (clientId extranonce1 : Option String) :
    Replies v (.subscribe message) (.subscribed message.id clientId extranonce1)
  | configure (id : String) : Replies v (.configure id) (.configured id)
  | authorize (message : AuthorizationMessage) :
    Replies v (.authorize message)
      (.error message.id .otherUnknown "Authorization validation error")
  | invalid (method : eRequestMethod) (id : String) (text : String) :
    Replies v (.invalid method id) (.error id .otherUnknown text)

inductive Judges (cfg : Config) (v : View) (submission : MiningSubmitMessage) :
    Option Message → View → Prop
  | noJob (text : String) (h : v.jobsService.getJobById submission.jobId = none) :
    Judges cfg v submission (some (.error submission.id .jobNotFound text)) v
  | noTemplate (job : MiningJob) (text : String)
      (hjob : v.jobsService.getJobById submission.jobId = some job)
      (h : v.jobsService.getJobTemplateById job.jobTemplateId = none) :
    Judges cfg v submission (some (.error submission.id .jobNotFound text)) v
  | duplicate (job : MiningJob) (jobTemplate : IJobTemplate)
      (hjob : v.jobsService.getJobById submission.jobId = some job)
      (htemplate : v.jobsService.getJobTemplateById job.jobTemplateId = some jobTemplate)
      (h : submissionHash submission ∈ v.session.miningSubmissionHashes) :
    Judges cfg v submission (some (.error submission.id .duplicateShare "Duplicate share")) v
  | threw (job : MiningJob) (jobTemplate : IJobTemplate)
      (hjob : v.jobsService.getJobById submission.jobId = some job)
      (htemplate : v.jobsService.getJobTemplateById job.jobTemplateId = some jobTemplate)
      (hfresh : submissionHash submission ∉ v.session.miningSubmissionHashes)
      (h : job.buildHeaderBuffer cfg.js jobTemplate (parseInt16 submission.versionMask)
        (parseInt16 submission.nonce) (parseInt16 submission.ntime) = none) :
    Judges cfg v submission none (remember v submission)
  | accepted (job : MiningJob) (jobTemplate : IJobTemplate) (header : Bytes)
      (hjob : v.jobsService.getJobById submission.jobId = some job)
      (htemplate : v.jobsService.getJobTemplateById job.jobTemplateId = some jobTemplate)
      (hfresh : submissionHash submission ∉ v.session.miningSubmissionHashes)
      (hheader : job.buildHeaderBuffer cfg.js jobTemplate (parseInt16 submission.versionMask)
        (parseInt16 submission.nonce) (parseInt16 submission.ntime) = some header)
      (h : (v.session.sessionDifficulty : Difficulty) ≤ calculateDifficulty cfg.js header) :
    Judges cfg v submission (some (.result submission.id)) (remember v submission)
  | tooLow (job : MiningJob) (jobTemplate : IJobTemplate) (header : Bytes)
      (hjob : v.jobsService.getJobById submission.jobId = some job)
      (htemplate : v.jobsService.getJobTemplateById job.jobTemplateId = some jobTemplate)
      (hfresh : submissionHash submission ∉ v.session.miningSubmissionHashes)
      (hheader : job.buildHeaderBuffer cfg.js jobTemplate (parseInt16 submission.versionMask)
        (parseInt16 submission.nonce) (parseInt16 submission.ntime) = some header)
      (h : ¬ (v.session.sessionDifficulty : Difficulty) ≤ calculateDifficulty cfg.js header) :
    Judges cfg v submission (some (.error submission.id .lowDifficultyShare "Difficulty too low"))
      (remember v submission)

/-- What an event can do to the talk of a session with its miner. -/
inductive Turn (cfg : Config) (v : View) (e : SessionEvent) (v' : View) : Prop
  | calm (hsubmit : ∀ submission rest, handles v e ≠ some (.submit submission, rest))
      (h : Says (pop v e) v' [] (follows v e))
  | replied (line : Line) (rest : List Line) (message : Message)
      (he : handles v e = some (line, rest)) (hreplies : Replies v line message)
      (h : Says (pop v e) v' (Says.written (pop v e) message) rest)
  | refused (submission : MiningSubmitMessage) (rest : List Line)
      (he : handles v e = some (.submit submission, rest))
      (hrefuses : v.session.stratumInitialized = false)
      (h : Says (pop v e) v' [] rest) (hclosed : v'.session.isSocketClosed = true)
  | judged (submission : MiningSubmitMessage) (rest : List Line) (message : Option Message)
      (w : View)
      (he : handles v e = some (.submit submission, rest))
      (hinitialized : v.session.stratumInitialized = true)
      (hjudges : Judges cfg (pop v e) submission message w)
      (h : Says w v' (message.elim [] (Says.written (pop v e))) rest)
      (hclosed : message = none → v'.session.isSocketClosed = true)
  | authorized (message : AuthorizationMessage) (rest : List Line)
      (he : handles v e = some (.authorize message, rest))
      (hvalid : cfg.isBitcoinAddress message.address = true)
      (h : Says ((pop v e).update (View.authorized message)) v'
        (Says.written (pop v e) (.result message.id)) rest)
  | suggested (id : String) (suggestedDifficulty : ℚ) (rest : List Line)
      (he : handles v e = some (.suggestDifficulty id suggestedDifficulty, rest))
      (h : Says (suggested (pop v e) suggestedDifficulty) v'
        (Says.written (pop v e) (.setDifficulty suggestedDifficulty)) rest)
  | blocked (hfirst : v.session.stratumInitialized = false)
      (h : Says ((pop v e).update fun s ↦ { s with stratumInitialized := true }) v' [] (follows v e))
      (hclosed : v'.session.isSocketClosed = true)
  | initialised (subscription : SubscriptionMessage)
      (hfirst : v.session.stratumInitialized = false)
      (hstarts : starts v e = some subscription)
      (hallowed : cfg.isBlockedUserAgent subscription.userAgent = false)
      (h : Says (initialised cfg (pop v e) subscription) v'
        (if v.session.clientSuggestedDifficulty = none then
          Says.written (pop v e)
            (.setDifficulty (initialDifficulty cfg v.session subscription.userAgent)) else [])
        (follows v e))
  | received (address : String) (purpose : Purpose) (blockTemplate : IBlockTemplate)
      (jobsService : JobsService) (jobTemplate : IJobTemplate) (clear : Bool)
      (he : receives v e = some (address, purpose, blockTemplate))
      (hbuild : v.jobsService.buildTemplateFor cfg.js address blockTemplate v.now =
        (jobsService, some jobTemplate))
      (hclear : clear = (decide (purpose ≠ .vardiff) && jobTemplate.blockData.clearJobs))
      (h : Says ((pop v e).cacheTemplate jobTemplate clear) v' [] [])
  | retargeted (targetDiff : ℚ) (he : e = .difficultyTimer)
      (h : Says (v.update fun s ↦ { s with sessionDifficulty := targetDiff }) v'
        (if v.session.socketDestroyed || v.session.writableEnded || !v.session.writable then []
          else [.setDifficulty targetDiff]) [])

section Act

theorem closed_of_channel {s s' : Session} (h : channel s' = channel s) :
    s'.isSocketClosed = s.isSocketClosed := by
  have hconnection := congrArg Channel.connectionClosed h
  have hdestroyed := congrArg Channel.socketDestroyed h
  have hended := congrArg Channel.writableEnded h
  have hwritable := congrArg Channel.writable h
  simp only [channel] at hconnection hdestroyed hended hwritable
  simp only [Session.isSocketClosed, hconnection, hdestroyed, hended, hwritable]

theorem connected_of_open {s : Session} (h : s.isSocketClosed = false) :
    s.connectionClosed = false := by
  simp only [Session.isSocketClosed, Bool.or_eq_false_iff] at h
  exact h.1.1.1

theorem connected_of_running (h : v.hasStopped = false) : v.session.connectionClosed = false := by
  simp only [View.hasStopped, Bool.or_eq_false_iff] at h
  exact h.1.1

theorem pop_session_stratumInitialized (v : View) (e : SessionEvent) :
    (pop v e).session.stratumInitialized = v.session.stratumInitialized := by
  cases e <;> rfl

theorem pop_session_suggested (v : View) (e : SessionEvent) :
    (pop v e).session.clientSuggestedDifficulty = v.session.clientSuggestedDifficulty := by
  cases e <;> rfl

theorem pop_initialDifficulty (cfg : Config) (v : View) (e : SessionEvent) (userAgent : String) :
    initialDifficulty cfg (pop v e).session userAgent =
      initialDifficulty cfg v.session userAgent := by
  cases e <;> rfl

theorem pop_session_parties (v : View) (e : SessionEvent) :
    (pop v e).session.clientSubscription = v.session.clientSubscription ∧
      (pop v e).session.clientAuthorization = v.session.clientAuthorization := by
  cases e <;> exact ⟨rfl, rfl⟩

theorem pop_session_closed (v : View) (e : SessionEvent) :
    (pop v e).session.isSocketClosed = v.session.isSocketClosed := by
  cases e <;> rfl

theorem turn_finishMessage {w : View} (hw : channel w.session = channel (pop v e).session)
    (hhobby : w.session.isHobbyMinerSession = (pop v e).session.isHobbyMinerSession)
    (hsubscription : w.session.clientSubscription = (pop v e).session.clientSubscription)
    (hauthorization : w.session.clientAuthorization = (pop v e).session.clientAuthorization)
    (hfinishes : finishes v e = true) (hconnected : w.session.connectionClosed = false)
    (hsubmit : ∀ submission rest, handles v e ≠ some (.submit submission, rest)) :
    Turn cfg v e (w.finishMessage cfg (follows v e)) := by
  have hnext : Turn cfg v e (w.nextLines (follows v e)) :=
    .calm hsubmit ((Says.nextLines _).after (.of_channel hw))
  rw [View.finishMessage]
  split
  case h_2 => exact hnext
  case h_1 subscription authorization hsome hauthorized =>
    split
    case isTrue => exact hnext
    case isFalse hfirst =>
      have hfirst : v.session.stratumInitialized = false := by
        have hsame : w.session.stratumInitialized = (pop v e).session.stratumInitialized :=
          congrArg Channel.stratumInitialized hw
        rw [← pop_session_stratumInitialized v e, ← hsame]
        simpa using hfirst
      have hstarts : starts v e = some subscription := by
        obtain ⟨hsub, hauth⟩ := pop_session_parties v e
        rw [hsubscription, hsub] at hsome
        rw [hauthorization, hauth] at hauthorized
        simp [starts, hfinishes, hfirst, hauthorized, hsome]
      simp only [View.initStratum]
      split
      case isTrue =>
        refine .blocked hfirst ?_ ?_
        · refine ((Says.nextLines _).after Says.closeSocket).after (.of_channel ?_)
          exact congrArg (fun c : Channel ↦ { c with stratumInitialized := true }) hw
        · rw [Says.isSocketClosed_nextLines]
          exact Says.isSocketClosed_closeSocket
      case isFalse hallowed =>
        have hdifficulty : initialDifficulty cfg w.session subscription.userAgent =
            initialDifficulty cfg (pop v e).session subscription.userAgent := by
          have hsame : w.session.sessionDifficulty = (pop v e).session.sessionDifficulty :=
            congrArg Channel.sessionDifficulty hw
          rw [initialDifficulty, initialDifficulty, hhobby, hsame]
        have hchannel : channel (initialised cfg w subscription).session =
            channel (initialised cfg (pop v e) subscription).session := by
          change { channel w.session with
            stratumInitialized := true
            sessionDifficulty := initialDifficulty cfg w.session subscription.userAgent } = _
          rw [hw, hdifficulty]
          rfl
        have hsuggested : w.session.clientSuggestedDifficulty =
            v.session.clientSuggestedDifficulty := by
          rw [← pop_session_suggested v e]
          exact congrArg Channel.clientSuggestedDifficulty hw
        refine .initialised subscription hfirst hstarts (by simpa using hallowed) ?_
        rw [← hsuggested, ← pop_initialDifficulty cfg v e, ← hdifficulty]
        refine Says.after ?_ (.of_channel hchannel)
        split
        case isTrue hnone =>
          rw [if_pos (by exact hnone)]
          have hwritten (message : Message) :
              Says.written (pop v e) message = Says.written (initialised cfg w subscription) message := by
            rw [Says.written, Says.written, closed_of_channel hchannel]
            rfl
          rw [hwritten]
          exact Says.write rfl _ _ fun h ↦ by cases h
        case isFalse hsome =>
          rw [if_neg (by exact hsome)]
          exact Says.startWork (v := initialised cfg w subscription) _ hconnected

theorem judges_handleMiningSubmission (cfg : Config) (v : View) (rest : List Line)
    (submission : MiningSubmitMessage) (hinitialized : v.session.stratumInitialized = true) :
    ∃ message w, Judges cfg v submission message w ∧
      Says w (v.handleMiningSubmission cfg rest submission)
        (message.elim [] (Says.written v)) rest ∧
      (message = none → (v.handleMiningSubmission cfg rest submission).session.isSocketClosed =
        true) := by
  have hreply {message : Message} {w : View} (hjudges : Judges cfg v submission (some message) w)
      (htalk : isTalk message = true) (hsame : w.session.isSocketClosed = v.session.isSocketClosed) :
      ∃ m u, Judges cfg v submission m u ∧
        Says u (w.write message .reply rest) (m.elim [] (Says.written v)) rest ∧
        (m = none → (w.write message .reply rest).session.isSocketClosed = true) := by
    refine ⟨some message, w, hjudges, ?_, fun h ↦ by cases h⟩
    have hwrite := Says.write (v := w) htalk .reply rest fun h ↦ by cases h
    rw [Says.written, hsame] at hwrite
    exact hwrite
  simp only [View.handleMiningSubmission]
  split
  case h_1 hjob => exact hreply (.noJob _ hjob) rfl rfl
  case h_2 job hjob =>
    split
    case h_1 htemplate => exact hreply (.noTemplate job _ hjob htemplate) rfl rfl
    case h_2 jobTemplate htemplate =>
      split
      case isTrue hseen => exact hreply (.duplicate job jobTemplate hjob htemplate hseen) rfl rfl
      case isFalse hfresh =>
        split
        case h_1 hheader =>
          exact ⟨none, remember v submission, .threw job jobTemplate hjob htemplate hfresh hheader,
            Says.throw rest, fun _ ↦ Says.isSocketClosed_throw rest⟩
        case h_2 header hheader =>
          simp only [View.judge]
          split
          case isTrue hmeets =>
            refine ⟨some (.result submission.id), remember v submission,
              .accepted job jobTemplate header hjob htemplate hfresh hheader hmeets, ?_,
              fun h ↦ by cases h⟩
            refine Says.after (Says.write rfl _ rest fun _ ↦ ?_) (.of_channel rfl)
            exact hinitialized
          case isFalse hlow =>
            refine ⟨some (.error submission.id .lowDifficultyShare "Difficulty too low"),
              remember v submission,
              .tooLow job jobTemplate header hjob htemplate hfresh hheader hlow, ?_,
              fun h ↦ by cases h⟩
            exact Says.after (Says.write rfl _ rest fun h ↦ by cases h) (.of_channel rfl)

theorem turn_submit {submission : MiningSubmitMessage}
    (he : handles v e = some (.submit submission, rest)) :
    Turn cfg v e ((pop v e).handleMessage cfg rest (.submit submission)) := by
  have hsame := pop_session_stratumInitialized v e
  simp only [View.handleMessage]
  split
  case isTrue hrefuses =>
    have hfirst : v.session.stratumInitialized = false := by
      simpa [View.refuses, hsame] using hrefuses
    exact .refused submission rest he hfirst (Says.throw rest) (Says.isSocketClosed_throw rest)
  case isFalse haccepts =>
    have hinitialized : (pop v e).session.stratumInitialized = true := by
      simpa [View.refuses] using haccepts
    obtain ⟨message, w, hjudges, h, hclosed⟩ :=
      judges_handleMiningSubmission cfg (pop v e) rest submission hinitialized
    exact .judged submission rest message w he (hsame ▸ hinitialized) hjudges h hclosed

theorem turn_subscribe {message : SubscriptionMessage}
    (he : handles v e = some (.subscribe message, rest)) (hfollows : follows v e = rest) :
    Turn cfg v e ((pop v e).subscribe cfg rest message) := by
  have hsubmit : ∀ submission rest', handles v e ≠ some (.submit submission, rest') := by simp [he]
  subst hfollows
  simp only [View.subscribe]
  split
  · exact .calm hsubmit ((Says.nextLines _).after .closeSocket)
  · have hreply {w : View} (hw : channel w.session = channel (pop v e).session)
        (clientId extranonce1 : Option String) :
        Turn cfg v e (w.write (.subscribed message.id clientId extranonce1) .reply
          (follows v e)) := by
      refine .replied _ _ _ he (.subscribe message clientId extranonce1) ?_
      rw [Says.written, ← closed_of_channel hw]
      exact (Says.write (v := w) rfl _ _ fun h ↦ by cases h).after (.of_channel hw)
    split
    · refine hreply ?_ _ _
      rfl
    · refine hreply ?_ _ _
      rfl

theorem turn_handleMessage {i : ℕ} {line : Line} (he : e = .resume i .done)
    (htask : v.session.tasks[i]? = some (.lines (line :: rest))) (hrunning : v.hasStopped = false) :
    Turn cfg v e ((pop v e).handleMessage cfg rest line) := by
  have hhandles : handles v e = some (line, rest) := by simp [he, handles, htask, hrunning]
  have hfollows : follows v e = rest := by simp [he, follows, htask, hrunning]
  have hcalm {w : View} (hline : ∀ submission, line ≠ .submit submission)
      (h : Says (pop v e) w [] rest) : Turn cfg v e w := by
    refine .calm ?_ (hfollows ▸ h)
    intro submission rest' hsome
    rw [hhandles, Option.some.injEq, Prod.mk.injEq] at hsome
    exact hline submission hsome.1
  cases line with
  | malformed => exact hcalm (by simp) (.throw rest)
  | throws method =>
    simp only [handleMessage]
    split
    · exact hcalm (by simp) (.nextLines rest)
    · exact hcalm (by simp) (.throw rest)
  | invalid method id =>
    simp only [handleMessage]
    split
    · exact hcalm (by simp) (.nextLines rest)
    · split
      · exact hcalm (by simp) (.throw rest)
      · cases method <;>
          exact .replied _ rest _ hhandles (.invalid _ id _)
            (.write rfl _ rest fun h ↦ by cases h)
  | subscribe message => exact turn_subscribe hhandles hfollows
  | configure id =>
    exact .replied _ rest _ hhandles (.configure id) (.write rfl _ rest fun h ↦ by cases h)
  | authorize message =>
    simp only [handleMessage, View.authorize]
    split
    case isTrue hvalid =>
      exact .authorized message rest hhandles hvalid (.write rfl _ rest fun h ↦ by cases h)
    case isFalse =>
      exact .replied _ rest _ hhandles (.authorize message) (.write rfl _ rest fun h ↦ by cases h)
  | suggestDifficulty id suggestedDifficulty =>
    simp only [handleMessage]
    split
    · exact hcalm (by simp) (.nextLines rest)
    · exact .suggested id suggestedDifficulty rest hhandles (.write rfl _ rest fun h ↦ by cases h)
  | submit submission => exact turn_submit hhandles
  | other =>
    rw [← hfollows]
    have hstopped : (pop v e).hasStopped = v.hasStopped := by
      subst he
      rfl
    have hfinishes : finishes v e = true := by simp [he, finishes, htask, hrunning]
    refine turn_finishMessage rfl rfl rfl rfl hfinishes ?_ (by simp [hhandles])
    exact connected_of_running (hstopped.trans hrunning)

/-- Of the lines that are left the first is handled, unless the connection is over. -/
theorem turn_handleLines {i : ℕ} {lines : List Line} (he : e = .resume i .done)
    (htask : v.session.tasks[i]? = some (.lines lines)) :
    Turn cfg v e ((pop v e).handleLines cfg lines) := by
  have hstopped : (pop v e).hasStopped = v.hasStopped := by
    subst he
    rfl
  cases lines with
  | nil =>
    have hhandles : handles v e = none := by simp [he, handles, htask]
    have hfollows : follows v e = [] := by simp [he, follows, htask]
    refine .calm (by simp [hhandles]) ?_
    rw [hfollows]
    exact .refl _
  | cons line rest =>
    rw [handleLines, hstopped]
    split
    case isTrue hover =>
      have hhandles : handles v e = none := by simp [he, handles, htask, hover]
      have hfollows : follows v e = [] := by simp [he, follows, htask, hover]
      refine .calm (by simp [hhandles]) ?_
      rw [hfollows]
      exact .refl _
    case isFalse hrunning => exact turn_handleMessage he htask (by simpa using hrunning)

theorem turn_resumeWrite {i : ℕ} {after : AfterWrite} {outcome : Outcome}
    (hready : ∀ task ∈ v.session.tasks, isShare task = true → v.session.stratumInitialized = true)
    (he : e = .resume i outcome) (htask : v.session.tasks[i]? = some (.write after rest))
    (h : (pop v e).resumeWrite cfg after rest outcome = some v') : Turn cfg v e v' := by
  have hfollows : follows v e = rest := by simp [he, follows, htask, restOf]
  have hhandles : handles v e = none := by
    subst he
    cases outcome <;> simp [handles, htask]
  have hcalm {w : View} (h : Says (pop v e) w [] rest) : Turn cfg v e w :=
    .calm (by simp [hhandles]) (hfollows ▸ h)
  cases outcome with
  | done =>
    simp only [View.resumeWrite] at h
    split at h
    case isTrue =>
      cases h
      exact hcalm (.nextLines rest)
    case isFalse hopen =>
      have hconnected := connected_of_open (Bool.eq_false_iff.mpr hopen)
      have hopen : v.session.isSocketClosed = false := by
        rw [← pop_session_closed v e]
        exact Bool.eq_false_iff.mpr hopen
      cases h
      cases after with
      | reply =>
        rw [← hfollows]
        have hfinishes : finishes v e = true := by simp [he, finishes, htask, hopen]
        exact turn_finishMessage rfl rfl rfl rfl hfinishes hconnected (by simp [hhandles])
      | suggested =>
        rw [← hfollows]
        have hfinishes : finishes v e = true := by simp [he, finishes, htask, hopen]
        exact turn_finishMessage rfl rfl rfl rfl hfinishes hconnected (by simp [hhandles])
      | invalidSubmit => exact hcalm ((Says.nextLines rest).after .closeSocket)
      | accepted share =>
        refine hcalm (.afterReply cfg rest share ?_)
        rw [pop_session_stratumInitialized]
        exact hready _ (List.mem_of_getElem? htask) rfl
      | setDifficulty => exact hcalm (.startWork rest hconnected)
      | notified timestamp => exact hcalm ((Says.nextLines rest).after (.of_channel rfl))
  | failed =>
    cases h
    exact hcalm ((Says.nextLines rest).after ((Says.socketDestroyed).after .destroy))
  | answered | submitted | inserted => cases h

theorem says_receiveTemplate_none (cfg : Config) (v : View) (address : String) (purpose : Purpose) :
    Says v (v.receiveTemplate cfg address purpose none) [] [] :=
  .catchRefresh purpose (v, true)

theorem says_receiveTemplate (cfg : Config) (w : View) (address : String) (purpose : Purpose)
    (blockTemplate : IBlockTemplate) :
    (∃ jobsService, w.jobsService.buildTemplateFor cfg.js address blockTemplate w.now =
        (jobsService, none) ∧
      Says w (w.receiveTemplate cfg address purpose (some blockTemplate)) [] []) ∨
    ∃ jobsService jobTemplate, w.jobsService.buildTemplateFor cfg.js address blockTemplate w.now =
        (jobsService, some jobTemplate) ∧
      Says (w.cacheTemplate jobTemplate
          (decide (purpose ≠ .vardiff) && jobTemplate.blockData.clearJobs))
        (w.receiveTemplate cfg address purpose (some blockTemplate)) [] [] := by
  simp only [View.receiveTemplate]
  split
  case h_1 jobsService hbuild =>
    refine .inl ⟨jobsService, hbuild, ?_⟩
    exact (Says.catchRefresh purpose ({ w with jobsService }, true)).after (.of_channel rfl)
  case h_2 jobsService jobTemplate hbuild =>
    refine .inr ⟨jobsService, jobTemplate, hbuild, ?_⟩
    have hrefresh (purpose : Purpose) (hpurpose : purpose ≠ .vardiff) :
        Says (w.cacheTemplate jobTemplate
            (decide (purpose ≠ .vardiff) && jobTemplate.blockData.clearJobs))
          (View.catchRefresh purpose
            ((View.log { w with jobsService } (.template address jobTemplate)).cacheTemplate
              jobTemplate jobTemplate.blockData.clearJobs |>.sendNewMiningJob cfg jobTemplate))
          [] [] := by
      rw [decide_eq_true hpurpose, Bool.true_and]
      refine (Says.catchRefresh purpose _).after ?_
      exact (Says.sendNewMiningJob cfg jobTemplate).after (.of_channel rfl)
    cases purpose with
    | newBlock => exact hrefresh .newBlock (by simp)
    | refreshTimer => exact hrefresh .refreshTimer (by simp)
    | vardiff =>
      refine (Says.catchRefresh .vardiff _).after ?_
      exact (Says.resendMiningJob cfg jobTemplate).after (.of_channel rfl)

theorem turn_receiveTemplate {address : String} {purpose : Purpose} {blockTemplate : IBlockTemplate}
    (he : receives v e = some (address, purpose, blockTemplate)) (hhandles : handles v e = none)
    (hfollows : follows v e = []) (hservice : (pop v e).jobsService = v.jobsService)
    (hnow : (pop v e).now = v.now) :
    Turn cfg v e ((pop v e).receiveTemplate cfg address purpose (some blockTemplate)) := by
  rcases says_receiveTemplate cfg (pop v e) address purpose blockTemplate with
    ⟨jobsService, -, h⟩ | ⟨jobsService, jobTemplate, hbuild, h⟩
  · refine .calm (by simp [hhandles]) ?_
    rw [hfollows]
    exact h
  · rw [hservice, hnow] at hbuild
    exact .received address purpose blockTemplate jobsService jobTemplate _ he hbuild rfl h

theorem turn_checkDifficulty : Turn cfg v .difficultyTimer (v.checkDifficulty cfg) := by
  have hcalm {w : View} (h : Says v w [] []) : Turn cfg v .difficultyTimer w :=
    .calm (by simp [handles]) h
  simp only [View.checkDifficulty]
  split
  · exact hcalm .crash
  · split
    · exact hcalm .crash
    · exact hcalm (.refl v)
    case h_3 targetDiff _ =>
      split
      · exact hcalm (.refl v)
      · refine .retargeted targetDiff rfl ?_
        have hannounce : Says (v.update fun s ↦ { s with sessionDifficulty := targetDiff })
            ((v.update fun s ↦ { s with sessionDifficulty := targetDiff }).sendUnchecked
              (.setDifficulty targetDiff))
            (if v.session.socketDestroyed || v.session.writableEnded || !v.session.writable then []
              else [.setDifficulty targetDiff]) [] := by
          rw [sendUnchecked]
          split
          case isTrue h =>
            rw [if_pos (by exact h)]
            exact .refl _
          case isFalse h =>
            rw [if_neg (by exact h)]
            exact .send rfl
        generalize (v.update _).sendUnchecked _ = w at hannounce
        split
        case h_1 jobTemplate hcache =>
          refine hannounce.andThen ((Says.catchRefresh .vardiff _).after ?_)
          refine (Says.resendMiningJob cfg jobTemplate).after (.of_channel ?_)
          change { channel w.session with currentJobTemplate := some jobTemplate } = channel w.session
          rw [← hcache]
          rfl
        case h_2 => exact hannounce.andThen (.suspend fun h ↦ by cases h)
        case h_3 => exact hannounce.andThen .crash

/-- Everything an event can do to the talk of a session, when only initialised
sessions have shares. -/
theorem turn_of_act
    (hready : ∀ task ∈ v.session.tasks, isShare task = true → v.session.stratumInitialized = true)
    (hact : v.act cfg e = some v') : Turn cfg v e v' := by
  cases acts_of_act hact with
  | connect => exact .calm (by simp [handles]) (.of_channel rfl)
  | data lines => exact .calm (by simp [handles]) (.nextLines lines)
  | newBlock => exact .calm (by simp [handles]) (.refreshMiningJob .newBlock)
  | refreshTimer => exact .calm (by simp [handles]) (.refreshMiningJob .refreshTimer)
  | localTimer => exact .calm (by simp [handles]) (.refreshLocalMiningWork cfg)
  | difficultyTimer => exact turn_checkDifficulty
  | socketEnd => exact .calm (by simp [handles]) .connectionClosed
  | socketClose => exact .calm (by simp [handles]) .closeSocket
  | socketUnwritable => exact .calm (by simp [handles]) .unwritable
  | resume i outcome task _ htask h =>
    change (pop v (.resume i outcome)).resumeTask cfg task outcome = some v' at h
    have hcalm {w : View} (hhandles : handles v (.resume i outcome) = none)
        (hsaid : Says (pop v (.resume i outcome)) w [] (restOf task))
        (htask' : ∀ lines, task ≠ .lines lines) : Turn cfg v (.resume i outcome) w := by
      refine .calm (by simp [hhandles]) ?_
      have hfollows : follows v (.resume i outcome) = restOf task := by
        cases task with
        | lines lines => exact absurd rfl (htask' lines)
        | _ => simp [follows, htask]
      rw [hfollows]
      exact hsaid
    rw [resumeTask.eq_def] at h
    split at h
    case h_1 rest =>
      cases h
      exact turn_handleLines rfl htask
    case h_2 => exact turn_resumeWrite hready rfl htask h
    case h_3 address purpose blockTemplate =>
      cases h
      exact turn_receiveTemplate (by simp [receives, htask]) rfl (by simp [follows, htask, restOf])
        rfl rfl
    case h_4 address purpose =>
      cases h
      exact hcalm rfl (says_receiveTemplate_none cfg _ address purpose) (by simp)
    case h_5 share wait rest =>
      have hhandles : handles v (.resume i outcome) = none := by
        cases outcome <;> simp [handles, htask]
      refine hcalm hhandles (.resumeShare cfg rest share ?_ h) (by simp)
      rw [pop_session_stratumInitialized]
      exact hready _ (List.mem_of_getElem? htask) rfl
    case h_6 partialClient updatedAt =>
      cases h
      exact hcalm rfl (.of_channel rfl) (by simp)
    case h_7 =>
      cases h
      exact hcalm rfl (.of_channel rfl) (by simp)
    case h_8 => cases h

end Act

section Resuming

theorem act_of_handles (he : handles v e = some (line, rest)) :
    v.act cfg e = some ((pop v e).handleMessage cfg rest line) := by
  rw [handles.eq_def] at he
  split at he
  case h_1 i =>
    split at he
    case h_1 line' rest' htask =>
      obtain ⟨hrunning, h⟩ := Option.ite_none_left_eq_some.mp he
      simp only [Option.some.injEq, Prod.mk.injEq] at h
      obtain ⟨rfl, rfl⟩ := h
      have hrunning : ¬ (pop v (.resume i .done)).hasStopped = true := hrunning
      simp only [act, htask, Option.bind_some]
      change some ((pop v (.resume i .done)).handleLines cfg (line' :: rest')) = _
      rw [handleLines, if_neg hrunning]
    case h_2 => cases he
  case h_2 => cases he

theorem act_of_receives {address : String} {purpose : Purpose} {blockTemplate : IBlockTemplate}
    (he : receives v e = some (address, purpose, blockTemplate)) :
    v.act cfg e = some ((pop v e).receiveTemplate cfg address purpose (some blockTemplate)) := by
  rw [receives.eq_def] at he
  split at he
  case h_1 i answer =>
    split at he
    case h_1 htask =>
      cases he
      simp only [act, htask, Option.bind_some]
      rfl
    case h_2 => cases he
  case h_2 => cases he

end Resuming

section Open

theorem Turn.closed (h : Turn cfg v e v') (hclosed : v.session.isSocketClosed = true) :
    v'.session.isSocketClosed = true := by
  have hpop : (pop v e).session.isSocketClosed = true := (pop_session_closed v e).trans hclosed
  cases h with
  | calm _ h => exact h.closed hpop
  | replied _ _ _ _ _ h => exact h.closed hpop
  | refused _ _ _ _ h => exact h.closed hpop
  | judged _ _ _ _ _ _ hjudges h =>
    refine h.closed ?_
    cases hjudges <;> exact hpop
  | authorized _ _ _ _ h => exact h.closed hpop
  | suggested _ _ _ _ h => exact h.closed hpop
  | blocked _ h => exact h.closed hpop
  | initialised _ _ _ _ h => exact h.closed hpop
  | received _ _ _ _ _ _ _ _ _ h => exact h.closed hpop
  | retargeted _ _ h => exact h.closed hclosed

theorem Turn.template (h : Turn cfg v e v') (hreceives : receives v e = none)
    (hopen : v'.session.isSocketClosed = false) :
    v'.session.currentJobTemplate = v.session.currentJobTemplate := by
  have hpop : (pop v e).session.currentJobTemplate = v.session.currentJobTemplate := by
    cases e <;> rfl
  cases h with
  | calm _ h => exact (h.template hopen).trans hpop
  | replied _ _ _ _ _ h => exact (h.template hopen).trans hpop
  | refused _ _ _ _ h => exact (h.template hopen).trans hpop
  | judged _ _ _ _ _ _ hjudges h =>
    refine (h.template hopen).trans ?_
    cases hjudges <;> exact hpop
  | authorized _ _ _ _ h => exact (h.template hopen).trans hpop
  | suggested _ _ _ _ h => exact (h.template hopen).trans hpop
  | blocked _ h => exact (h.template hopen).trans hpop
  | initialised _ _ _ _ h => exact (h.template hopen).trans hpop
  | received _ _ _ _ _ _ he =>
    rw [hreceives] at he
    cases he
  | retargeted _ _ h => exact h.template hopen

end Open

section Ready

def Ready (session : Session) : Prop :=
  ∀ task ∈ session.tasks, isShare task = true → session.stratumInitialized = true

theorem Says.ready {w : View} {messages : List Message} {lines : List Line}
    (h : Says w v' messages lines) (hw : Ready w.session) : Ready v'.session := by
  intro task hmem hshare
  rw [h.initialized]
  rcases h.shares task hmem hshare with hmem | hinitialized
  · exact hw task hmem hshare
  · exact hinitialized

theorem Ready.of_subset {s s' : Session} (h : Ready s) (htasks : s'.tasks ⊆ s.tasks)
    (hinitialized : s.stratumInitialized = true → s'.stratumInitialized = true) : Ready s' :=
  fun task hmem hshare ↦ hinitialized (h task (htasks hmem) hshare)

theorem pop_session_tasks (v : View) (e : SessionEvent) :
    (pop v e).session.tasks ⊆ v.session.tasks := by
  cases e with
  | resume i outcome => exact List.eraseIdx_subset
  | _ => exact List.Subset.refl _

theorem Ready.pop (h : Ready v.session) : Ready (pop v e).session :=
  h.of_subset (pop_session_tasks v e) fun hinitialized ↦ by
    rw [pop_session_stratumInitialized, hinitialized]

theorem Judges.same {submission : MiningSubmitMessage} {message : Option Message} {w : View}
    (h : Judges cfg v submission message w) :
    w.session.tasks = v.session.tasks ∧
      w.session.stratumInitialized = v.session.stratumInitialized := by
  cases h <;> exact ⟨rfl, rfl⟩

theorem Turn.ready (h : Turn cfg v e v') (hready : Ready v.session) : Ready v'.session := by
  have hpop : Ready (Shares.pop v e).session := hready.pop
  cases h with
  | calm _ h => exact h.ready hpop
  | replied _ _ _ _ _ h => exact h.ready hpop
  | refused _ _ _ _ h => exact h.ready hpop
  | judged _ _ _ w _ _ hjudges h =>
    obtain ⟨htasks, hinitialized⟩ := hjudges.same
    exact h.ready (hpop.of_subset (htasks ▸ List.Subset.refl _) fun h ↦ hinitialized.trans h)
  | authorized _ _ _ _ h => exact h.ready (hpop.of_subset (List.Subset.refl _) id)
  | suggested _ _ _ _ h => exact h.ready (hpop.of_subset (List.Subset.refl _) id)
  | blocked _ h => exact h.ready (hpop.of_subset (List.Subset.refl _) fun _ ↦ rfl)
  | initialised _ _ _ _ h => exact h.ready (hpop.of_subset (List.Subset.refl _) fun _ ↦ rfl)
  | received _ _ _ _ _ _ _ _ _ h => exact h.ready (hpop.of_subset (List.Subset.refl _) id)
  | retargeted _ _ h => exact h.ready (hready.of_subset (List.Subset.refl _) id)

theorem ready_kept : Kept cfg (fun _ ↦ True) (fun _ _ ↦ True) fun v ↦ Ready v.session :=
  .of_session fun _ _ _ _ hready _ hact ↦ (turn_of_act hready hact).ready hready

theorem ready_of_reachable {now : ℕ} {pool : Pool}
    (h : Lib.Runs.Reachable (Pool.step cfg) (Pool.start now) pool) (id : SessionId) :
    Ready (pool.view id).session := by
  refine ready_kept.reach (fun _ _ _ ↦ trivial) (fun _ ↦ ?_) (reachable_of_reach h) id
  exact fun _ hmem ↦ absurd hmem List.not_mem_nil

end Ready

end ElektronPool.Talk
