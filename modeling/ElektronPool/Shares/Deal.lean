import ElektronPool.Shares.Follow
import ElektronPool.Work.Sessions

namespace ElektronPool.Shares

open Lib Lib.JavaScript Model Model.View Work

variable {cfg : Config} {v v' w : View} {e : SessionEvent} {share : Share} {entries : List Entry}
  {added : List Task}

def popped (v : View) : SessionEvent → Option Task
  | .resume i _ => v.session.tasks[i]?
  | _ => none

def pop (v : View) : SessionEvent → View
  | .resume i _ => v.update fun s ↦ { s with tasks := s.tasks.eraseIdx i }
  | _ => v

theorem mem_of_mem_pop {task : Task} (h : task ∈ (pop v e).session.tasks) : task ∈ v.session.tasks := by
  cases e with
  | resume i outcome => exact List.mem_of_mem_eraseIdx h
  | _ => exact h

theorem mem_of_popped {task : Task} (h : popped v e = some task) : task ∈ v.session.tasks := by
  cases e with
  | resume i outcome => exact List.mem_of_getElem? h
  | _ => cases h

theorem mem_pop_or_popped {task : Task} (h : task ∈ v.session.tasks) (e : SessionEvent) :
    task ∈ (pop v e).session.tasks ∨ popped v e = some task := by
  cases e with
  | resume i outcome =>
    obtain ⟨k, hk⟩ := List.mem_iff_getElem?.mp h
    by_cases hki : k = i
    · exact .inr (hki ▸ hk)
    · exact .inl (List.mem_eraseIdx_iff_getElem?.mpr ⟨k, hki, hk⟩)
  | _ => exact .inl h

def submits (v : View) : SessionEvent → Option MiningSubmitMessage
  | .resume i .done =>
    match v.session.tasks[i]? with
    | some (.lines (.submit submission :: _)) =>
      if !v.hasStopped && !v.refuses .submit then some submission else none
    | _ => none
  | _ => none

/-- The accepted share whose reply an event reports as written, on a connection that is open. -/
def replied (v : View) : SessionEvent → Option Share
  | .resume i .done =>
    match v.session.tasks[i]? with
    | some (.write (.accepted share) _) => if v.session.isSocketClosed then none else some share
    | _ => none
  | _ => none

theorem popped_of_replied (h : replied v e = some share) :
    ∃ rest, popped v e = some (.write (.accepted share) rest) := by
  rw [replied.eq_def] at h
  split at h
  · split at h
    case h_1 s rest htask =>
      obtain ⟨-, hs⟩ := Option.ite_none_left_eq_some.mp h
      cases hs
      exact ⟨rest, htask⟩
    · cases h
  · cases h

theorem replied_of_submits {submission : MiningSubmitMessage} (h : submits v e = some submission) :
    replied v e = none := by
  cases hreplied : replied v e with
  | none => rfl
  | some share =>
    obtain ⟨rest, hpopped⟩ := popped_of_replied hreplied
    rw [submits.eq_def] at h
    split at h
    · simp only [popped] at hpopped
      simp [hpopped] at h
    · cases h

def remember (v : View) (submission : MiningSubmitMessage) : View :=
  v.update fun s ↦
    { s with miningSubmissionHashes := submissionHash submission :: s.miningSubmissionHashes }

def forget (v : View) : View := v.update fun s ↦ { s with miningSubmissionHashes := [] }

/-- What is known of a submission whose header is built. -/
structure Evaluates (cfg : Config) (v : View) (submission : MiningSubmitMessage) (share : Share) :
    Prop where
  serial : share.serial = v.history.length
  session : share.session = v.self
  difficulty : share.sessionDifficulty = v.session.sessionDifficulty
  same : share.submission = submission
  job : v.jobsService.getJobById submission.jobId = some share.job
  template : v.jobsService.getJobTemplateById share.job.jobTemplateId = some share.jobTemplate
  fresh : submissionHash submission ∉ v.session.miningSubmissionHashes
  header : share.job.buildHeaderBuffer cfg.js share.jobTemplate share.versionMask share.nonce
    share.timestamp = some share.header

/-- What follows the reply to an accepted share: its credit or its block. -/
inductive Answers (cfg : Config) (v : View) (share : Share) (entries : List Entry)
    (added : List Task) : Prop
  | share (hblock : ¬ share.IsBlock cfg.js) (h : Follows v share 1 entries added)
  | block (block : Block Number) (blockHex : Bytes) (rest : List Line)
      (hblock : share.IsBlock cfg.js)
      (hcopy : share.job.copyAndUpdateBlock cfg.js share.jobTemplate share.versionMask share.nonce
        share.timestamp = some block)
      (hhex : cfg.js.blockToBuffer false block = some blockHex)
      (hentries : entries = [.call v.self (some share) (.submitBlock block blockHex)])
      (hadded : added = [.share share (.submitBlock block blockHex) rest])
  | threw (hblock : share.IsBlock cfg.js)
      (hthrew : (share.job.copyAndUpdateBlock cfg.js share.jobTemplate share.versionMask share.nonce
        share.timestamp).bind (cfg.js.blockToBuffer false) = none)
      (hentries : entries = []) (hadded : added = [])

/-- What an event can do to the shares of a session. -/
inductive Deal (cfg : Config) (v : View) (e : SessionEvent) (v' : View) : Prop
  | calm (h : Calm (pop v e) v')
  | authorized (message : AuthorizationMessage) (he : authorizes cfg v e = some message)
      (h : Calm ((pop v e).update fun s ↦ { s with clientAuthorization := some message }) v')
  | cleared (h : Calm (forget (pop v e)) v')
      (hwiped : ∀ id, (v'.jobsService.jobs id).isSome → id = v.jobsService.getNextId)
  | refused (submission : MiningSubmitMessage) (he : submits v e = some submission)
      (h : Calm (remember (pop v e) submission) v')
  | evaluated (submission : MiningSubmitMessage) (share : Share) (added : List Task)
      (he : submits v e = some submission) (hshare : Evaluates cfg v submission share)
      (h : Adds (remember (pop v e) submission) v' [.evaluated share] added)
      (hadded : added = [] ∨ share.Meets cfg.js ∧ ∃ rest, added = [.write (.accepted share) rest])
  | answered (share : Share) (rest : List Line) (entries : List Entry) (added : List Task)
      (hpopped : popped v e = some (.write (.accepted share) rest))
      (hreplied : replied v e = some share)
      (h : Adds (pop v e) v' (entries ++ [.acknowledged share]) added)
      (hanswers : Answers cfg v share entries added)
  | continued (share : Share) (wait : ShareWait) (rest : List Line) (entries : List Entry)
      (added : List Task) (hpopped : popped v e = some (.share share wait rest))
      (h : Adds (pop v e) v' entries added)
      (hfollows : Follows v share ([.share share wait rest].filter isUnpaid).length entries added)
  | inserted (partialClient : ClientEntity) (updatedAt : Option ℕ)
      (hpopped : popped v e = some (.insertClient partialClient))
      (h : Calm ((pop v e).update fun s ↦
        { s with entity := some { partialClient with updatedAt } }) v')

section Act

theorem adds_judge (cfg : Config) (w : View) (rest : List Line) (share : Share) :
    ∃ added, Adds w (w.judge cfg rest share) [.evaluated share] added ∧
      (added = [] ∨ share.Meets cfg.js ∧ ∃ rest, added = [.write (.accepted share) rest]) := by
  have hlog : Adds w (w.log (.evaluated share)) [.evaluated share] [] := .record rfl
  simp only [View.judge]
  generalize w.log (.evaluated share) = u at hlog
  split
  case isTrue hmeets =>
    rw [View.write]
    split
    · exact ⟨[], hlog.andThen (.nextLines rest), .inl rfl⟩
    · refine ⟨[.write (.accepted share) rest], ?_, .inr ⟨hmeets, rest, rfl⟩⟩
      exact (hlog.andThen (.send _)).trans (.token rfl)
  · exact ⟨[], hlog.andThen (.write _ rest rfl), .inl rfl⟩

/-- A submission is refused, remembered in vain, or evaluated. -/
theorem deal_handleMiningSubmission {submission : MiningSubmitMessage} {rest : List Line}
    (he : submits v e = some submission) (hhistory : (pop v e).history = v.history)
    (hservice : (pop v e).jobsService = v.jobsService) (hself : (pop v e).self = v.self)
    (hdifficulty : (pop v e).session.sessionDifficulty = v.session.sessionDifficulty)
    (hhashes : (pop v e).session.miningSubmissionHashes = v.session.miningSubmissionHashes) :
    Deal cfg v e ((pop v e).handleMiningSubmission cfg rest submission) := by
  simp only [View.handleMiningSubmission]
  split
  · exact .calm (.write _ rest rfl)
  case h_2 job hjob =>
    split
    · exact .calm (.write _ rest rfl)
    case h_2 jobTemplate htemplate =>
      split
      · exact .calm (.write _ rest rfl)
      case isFalse hfresh =>
        split
        · exact .refused submission he (.throw rest)
        case h_2 header hheader =>
          let share : Share :=
            { serial := (pop v e).history.length
              session := (pop v e).self
              sessionDifficulty := (pop v e).session.sessionDifficulty
              submission, job, jobTemplate, header }
          obtain ⟨added, hadds, hadded⟩ := adds_judge cfg (remember (pop v e) submission) rest share
          have hevaluates : Evaluates cfg v submission share :=
            ⟨congrArg List.length hhistory, hself, hdifficulty, rfl, hservice ▸ hjob,
              hservice ▸ htemplate, hhashes ▸ hfresh, hheader⟩
          exact .evaluated submission share added he hevaluates hadds hadded

theorem Calm.withJobsService (jobsService : JobsService) : Calm w { w with jobsService } :=
  ⟨rfl, rfl, rfl, rfl, rfl, rfl, (List.append_nil _).symm, List.suffix_refl _⟩

/-- The answer of a fetch changes nothing about the shares, unless it comes for a
new block and all are forgotten with the jobs they were for. -/
theorem deal_receiveTemplate {address : String} {purpose : Purpose}
    {answer : Option IBlockTemplate} (hservice : w.jobsService = v.jobsService)
    (hw : w = pop v e) : Deal cfg v e (w.receiveTemplate cfg address purpose answer) := by
  subst hw
  cases answer with
  | none => exact .calm (.catchRefresh purpose (_, true))
  | some blockTemplate =>
    simp only [View.receiveTemplate]
    split
    case h_1 jobsService hthrew =>
      exact .calm ((Adds.catchRefresh purpose (_, true)).after (Calm.withJobsService jobsService))
    case h_2 jobsService jobTemplate hbuilt =>
      have hbuilds := JobsService.builds_of_buildTemplateFor hbuilt
      have hlogged : Calm (pop v e)
          ({ pop v e with jobsService }.log (.template address jobTemplate)) :=
        (Adds.log rfl).after (Calm.withJobsService jobsService)
      have hnew : Deal cfg v e (catchRefresh purpose
          ((({ pop v e with jobsService }.log (.template address jobTemplate)).cacheTemplate
            jobTemplate jobTemplate.blockData.clearJobs).sendNewMiningJob cfg jobTemplate)) := by
        cases hclear : jobTemplate.blockData.clearJobs with
        | false =>
          exact .calm ((Adds.catchRefresh purpose _).after ((Adds.sendNewMiningJob cfg _).after
            (Adds.after (.update rfl rfl rfl rfl) hlogged)))
        | true =>
          have hcached : Calm (forget (pop v e))
              (({ pop v e with jobsService }.log (.template address jobTemplate)).cacheTemplate
                jobTemplate true) :=
            ⟨rfl, rfl, rfl, rfl, rfl, rfl, (List.append_nil _).symm, List.suffix_cons _ _⟩
          have hsends := (sends_sendNewMiningJob cfg
            (({ pop v e with jobsService }.log (.template address jobTemplate)).cacheTemplate
              jobTemplate true) jobTemplate).trans (quiet_catchRefresh purpose _)
          refine .cleared ((Adds.catchRefresh purpose _).after
            ((Adds.sendNewMiningJob cfg _).after hcached)) fun id h ↦ ?_
          rcases hsends.registered h with h | h
          · change (jobsService.jobs id).isSome at h
            rw [hbuilds.service', hclear] at h
            cases h
          · refine h.trans ?_
            change jobsService.getNextId = _
            rw [hbuilds.service', hclear, hservice]
            rfl
      cases purpose with
      | vardiff =>
        exact .calm ((Adds.catchRefresh .vardiff _).after
          ((Adds.resendMiningJob cfg jobTemplate).after hlogged))
      | newBlock => exact hnew
      | refreshTimer => exact hnew

theorem answers_afterReply (cfg : Config) (w : View) (share : Share) (rest : List Line) :
    ∃ entries added, Adds w (w.afterReply cfg share rest) (entries ++ [.acknowledged share]) added ∧
      Answers cfg w share entries added := by
  have hlog : Adds w (w.log (.acknowledged share)) [.acknowledged share] [] := .record rfl
  simp only [View.afterReply]
  split
  case isTrue hblock =>
    split
    case h_1 hcopy =>
      exact ⟨[], [], hlog.andThen (.throw rest), .threw hblock (by rw [hcopy]; rfl) rfl rfl⟩
    case h_2 block hcopy =>
      split
      case h_1 hhex =>
        exact ⟨[], [], hlog.andThen (.throw rest), .threw hblock (by rw [hcopy]; exact hhex) rfl rfl⟩
      case h_2 blockHex hhex =>
        exact ⟨_, _, (hlog.trans (.record rfl)).trans (.token rfl),
          .block block blockHex rest hblock hcopy hhex rfl rfl⟩
  case isFalse hblock =>
    obtain ⟨entries, added, hadds, hfollows⟩ :=
      Continues.ensureClientEntity (v := w.log (.acknowledged share)) cfg share rest
    exact ⟨entries, added, by simpa using hlog.trans hadds, .share hblock (hfollows.after hlog)⟩

theorem answers_of_replied (hreplied : replied v e = some share) (h : v.act cfg e = some v') :
    ∃ entries added, Adds (pop v e) v' (entries ++ [.acknowledged share]) added ∧
      Answers cfg (pop v e) share entries added := by
  rw [replied.eq_def] at hreplied
  split at hreplied
  case h_2 => cases hreplied
  case h_1 i =>
    split at hreplied
    case h_2 => cases hreplied
    case h_1 s rest htask =>
      obtain ⟨hopen, hs⟩ := Option.ite_none_left_eq_some.mp hreplied
      cases hs
      have hact : some ((pop v (.resume i .done)).afterReply cfg share rest) = some v' := by
        rw [← h, act, htask, Option.bind_some]
        change _ = (pop v (.resume i .done)).resumeWrite cfg (.accepted share) rest .done
        exact (if_neg hopen).symm
      cases hact
      exact answers_afterReply cfg (pop v (.resume i .done)) share rest

theorem deal_resumeWrite {after : AfterWrite} {rest : List Line} {outcome : Outcome}
    (hpopped : popped v e = some (.write after rest)) {i : ℕ} (he : e = .resume i outcome)
    (h : (pop v e).resumeWrite cfg after rest outcome = some v')
    (hv : ∀ share entries added, Answers cfg (pop v e) share entries added →
      Answers cfg v share entries added) : Deal cfg v e v' := by
  cases outcome with
  | done =>
    simp only [View.resumeWrite] at h
    split at h
    · cases h
      exact .calm (.nextLines rest)
    case isFalse hopen =>
      cases h
      cases after with
      | reply => exact .calm (.finishMessage cfg rest)
      | suggested => exact .calm ((Adds.finishMessage cfg rest).after (.update rfl rfl rfl rfl))
      | invalidSubmit => exact .calm ((Adds.nextLines rest).after .closeSocket)
      | accepted share =>
        obtain ⟨entries, added, hadds, hanswers⟩ :=
          answers_afterReply cfg (pop v e) share rest
        refine .answered share rest entries added hpopped ?_ hadds (hv _ _ _ hanswers)
        subst he
        simp only [popped] at hpopped
        simp only [replied, hpopped, if_neg (show ¬ v.session.isSocketClosed = true from hopen)]
      | setDifficulty => exact .calm (.startWork rest)
      | notified timestamp =>
        exact .calm ((Adds.nextLines rest).after (.update rfl rfl rfl rfl))
  | failed =>
    cases h
    exact .calm ((Adds.nextLines rest).after (Adds.after (.update rfl rfl rfl rfl) .destroy))
  | answered | submitted | inserted => cases h

structure Popped (v w : View) : Prop where
  now : w.now = v.now
  self : w.self = v.self
  jobsService : w.jobsService = v.jobsService
  history : w.history = v.history
  clientAuthorization : w.session.clientAuthorization = v.session.clientAuthorization
  entity : w.session.entity = v.session.entity
  hashes : w.session.miningSubmissionHashes = v.session.miningSubmissionHashes
  difficulty : w.session.sessionDifficulty = v.session.sessionDifficulty
  stopped : w.hasStopped = v.hasStopped
  refuses : w.refuses = v.refuses

theorem popped_pop (v : View) (e : SessionEvent) : Popped v (pop v e) := by
  cases e <;> exact ⟨rfl, rfl, rfl, rfl, rfl, rfl, rfl, rfl, rfl, rfl⟩

theorem Popped.known {address : String} (h : Popped v w) (hknown : Known w address) :
    Known v address := by
  rwa [Known, h.clientAuthorization, h.entity] at hknown

theorem Popped.follows {pending : ℕ} (h : Popped v w)
    (hfollows : Follows w share pending entries added) :
    Follows v share pending entries added where
  records entry hentry := by
    refine (hfollows.records entry hentry).imp_right fun ⟨call, hcall, hsanctioned⟩ ↦ ?_
    exact ⟨call, h.self ▸ hcall, hsanctioned.noBlock, fun a ha ↦ h.known (hsanctioned.address a ha)⟩
  tokens task htask := by
    refine (hfollows.tokens task htask).imp_right fun ⟨partialClient, htask, hknown⟩ ↦ ?_
    exact ⟨partialClient, htask, h.known hknown⟩
  once := hfollows.once

theorem Popped.answers (h : Popped v w) (hanswers : Answers cfg w share entries added) :
    Answers cfg v share entries added := by
  cases hanswers with
  | share hblock hfollows => exact .share hblock (h.follows hfollows)
  | block block blockHex rest hblock hcopy hhex hentries hadded =>
    exact .block block blockHex rest hblock hcopy hhex (h.self ▸ hentries) hadded
  | threw hblock hthrew hentries hadded => exact .threw hblock hthrew hentries hadded

theorem deal_handleLines {i : ℕ} {lines : List Line} (he : e = .resume i .done)
    (htask : v.session.tasks[i]? = some (.lines lines)) :
    Deal cfg v e ((pop v e).handleLines cfg lines) := by
  have hpop := popped_pop v e
  cases lines with
  | nil => exact .calm (.refl _)
  | cons line rest =>
    rw [handleLines]
    split
    · exact .calm (.refl _)
    case isFalse hstopped =>
      rw [hpop.stopped] at hstopped
      cases line with
      | authorize message =>
        simp only [handleMessage, authorize]
        split
        case isTrue hvalid =>
          refine .authorized message ?_ ((Adds.write _ rest rfl).after
            ⟨rfl, rfl, rfl, rfl, rfl, rfl, (List.append_nil _).symm, List.suffix_refl _⟩)
          subst he
          simp only [authorizes, htask, hvalid, Bool.and_true, if_pos,
            Bool.eq_false_of_not_eq_true hstopped, Bool.not_false]
        · exact .calm (.write _ rest rfl)
      | malformed => exact .calm (.throw rest)
      | throws method =>
        simp only [handleMessage]
        split
        · exact .calm (.nextLines rest)
        · exact .calm (.throw rest)
      | invalid method id =>
        simp only [handleMessage]
        split
        · exact .calm (.nextLines rest)
        · split
          · exact .calm (.throw rest)
          · exact .calm (.invalid rest method id)
      | subscribe message => exact .calm (.subscribe cfg rest message)
      | configure id => exact .calm (.write _ rest rfl)
      | suggestDifficulty id suggestedDifficulty =>
        simp only [handleMessage]
        split
        · exact .calm (.nextLines rest)
        · exact .calm (.suggestDifficulty rest suggestedDifficulty)
      | submit submission =>
        simp only [handleMessage]
        split
        · exact .calm (.throw rest)
        case isFalse hrefuses =>
          rw [hpop.refuses] at hrefuses
          refine deal_handleMiningSubmission ?_ hpop.history hpop.jobsService hpop.self
            hpop.difficulty hpop.hashes
          subst he
          simp only [submits, htask, Bool.eq_false_of_not_eq_true hstopped,
            Bool.eq_false_of_not_eq_true hrefuses, Bool.not_false, Bool.and_self, if_true]
      | other => exact .calm (.finishMessage cfg rest)

theorem deal_resume {i : ℕ} {outcome : Outcome} (he : e = .resume i outcome)
    (h : v.act cfg e = some v') : Deal cfg v e v' := by
  have hpop := popped_pop v e
  have hpopped : popped v e = v.session.tasks[i]? := by rw [he, popped]
  have hact : v.act cfg e = v.session.tasks[i]?.bind fun task ↦
      (pop v e).resumeTask cfg task outcome := by rw [he, act]; rfl
  rw [hact, Option.bind_eq_some_iff] at h
  obtain ⟨task, htask, h⟩ := h
  rw [htask] at hpopped
  rw [resumeTask.eq_def] at h
  split at h
  case h_1 lines =>
    cases h
    exact deal_handleLines he htask
  case h_2 => exact deal_resumeWrite hpopped he h fun _ _ _ ↦ hpop.answers
  case h_3 =>
    cases h
    exact deal_receiveTemplate hpop.jobsService rfl
  case h_4 =>
    cases h
    exact deal_receiveTemplate hpop.jobsService rfl
  case h_5 share wait rest =>
    obtain ⟨entries, added, hadds, hfollows⟩ := Continues.resumeShare cfg _ _ h
    exact .continued _ _ _ entries added hpopped hadds (hpop.follows hfollows)
  case h_6 partialClient updatedAt =>
    cases h
    exact .inserted partialClient updatedAt hpopped (.refl _)
  case h_7 =>
    cases h
    exact .calm (.update rfl rfl rfl rfl)
  case h_8 => cases h

/-- Everything an event of a session can do to its shares. -/
theorem deal_of_act (h : v.act cfg e = some v') : Deal cfg v e v' := by
  cases acts_of_act h with
  | connect => exact .calm (.update rfl rfl rfl rfl)
  | data lines => exact .calm (.nextLines lines)
  | newBlock => exact .calm (.refreshMiningJob .newBlock)
  | refreshTimer => exact .calm (.refreshMiningJob .refreshTimer)
  | localTimer => exact .calm (.refreshLocalMiningWork cfg)
  | difficultyTimer => exact .calm (.checkDifficulty cfg)
  | socketEnd => exact .calm (.update rfl rfl rfl rfl)
  | socketClose => exact .calm .closeSocket
  | socketUnwritable => exact .calm (.update rfl rfl rfl rfl)
  | resume => exact deal_resume rfl h

end Act

end ElektronPool.Shares
