import ElektronPool.Model.SubmitMessage
import ElektronPool.Reference
import ElektronPool.Talk.Turn

namespace ElektronPool.SubmitVerdict

open Lib Lib.Runs Lib.JavaScript Model Model.View Work Shares Talk

variable {cfg : Config} {v v' w : View} {e : SessionEvent} {messages : List Message}
  {line : Line} {lines rest : List Line} {submission : MiningSubmitMessage}

inductive Verdict
  | granted
  | accepted
  | refused (code : eStratumErrorCode)
deriving DecidableEq

def verdictOf : Message → Option (String × Verdict)
  | .subscribed id _ _ => some (id, .granted)
  | .configured id => some (id, .granted)
  | .result id => some (id, .accepted)
  | .error id code _ => some (id, .refused code)
  | .setDifficulty _ => none
  | .notify _ => none

def replies (session : Session) : List (String × Verdict) := session.wire.filterMap verdictOf

def Writes (v v' : View) (reply : Option (String × Verdict)) : Prop :=
  replies v'.session = reply.toList ++ replies v.session

def lineId : Line → Option String
  | .invalid _ id => some id
  | .subscribe message => some message.id
  | .configure id => some id
  | .authorize message => some message.id
  | .suggestDifficulty id _ => some id
  | .submit submission => some submission.id
  | .malformed => none
  | .throws _ => none
  | .other => none

def workOf (v : View) (submission : MiningSubmitMessage) : Option (MiningJob × IJobTemplate) :=
  (v.jobsService.getJobById submission.jobId).bind fun job ↦
    (v.jobsService.getJobTemplateById job.jobTemplateId).map fun jobTemplate ↦ (job, jobTemplate)

def headerOf (cfg : Config) (submission : MiningSubmitMessage) (work : MiningJob × IJobTemplate) :
    Option Bytes :=
  work.1.buildHeaderBuffer cfg.js work.2 (parseInt16 submission.versionMask)
    (parseInt16 submission.nonce) (parseInt16 submission.ntime)

inductive Due (cfg : Config) (keys : List String) (v : View) :
    Line → Option (String × Verdict) → Prop
  | early (line : Line) (h : v.session.stratumInitialized = false) : Due cfg keys v line none
  | thrown (h : v.session.stratumInitialized = true) : Due cfg keys v (.throws .submit) none
  | invalid (id : String) (h : v.session.stratumInitialized = true) :
    Due cfg keys v (.invalid .submit id) (some (id, .refused .otherUnknown))
  | jobNotFound (submission : MiningSubmitMessage) (h : v.session.stratumInitialized = true)
      (hwork : workOf v submission = none) :
    Due cfg keys v (.submit submission) (some (submission.id, .refused .jobNotFound))
  | duplicateShare (submission : MiningSubmitMessage) (work : MiningJob × IJobTemplate)
      (h : v.session.stratumInitialized = true) (hwork : workOf v submission = some work)
      (hseen : submissionHash submission ∈ keys) :
    Due cfg keys v (.submit submission) (some (submission.id, .refused .duplicateShare))
  | headerless (submission : MiningSubmitMessage) (work : MiningJob × IJobTemplate)
      (h : v.session.stratumInitialized = true) (hwork : workOf v submission = some work)
      (hnew : submissionHash submission ∉ keys) (hheader : headerOf cfg submission work = none) :
    Due cfg keys v (.submit submission) none
  | lowDifficultyShare (submission : MiningSubmitMessage) (work : MiningJob × IJobTemplate)
      (header : Bytes) (h : v.session.stratumInitialized = true)
      (hwork : workOf v submission = some work) (hnew : submissionHash submission ∉ keys)
      (hheader : headerOf cfg submission work = some header)
      (hlow : ¬ (v.session.sessionDifficulty : Difficulty) ≤ calculateDifficulty cfg.js header) :
    Due cfg keys v (.submit submission) (some (submission.id, .refused .lowDifficultyShare))
  | accepted (submission : MiningSubmitMessage) (work : MiningJob × IJobTemplate)
      (header : Bytes) (h : v.session.stratumInitialized = true)
      (hwork : workOf v submission = some work) (hnew : submissionHash submission ∉ keys)
      (hheader : headerOf cfg submission work = some header)
      (hmeets : (v.session.sessionDifficulty : Difficulty) ≤ calculateDifficulty cfg.js header) :
    Due cfg keys v (.submit submission) (some (submission.id, .accepted))

/-- What the handling of a submission writes, as long as the socket is open exactly the reply
that is due, and that the socket is over where it writes none. -/
structure Judged (cfg : Config) (keys : List String) (line : Line) (id : String) (v v' : View) :
    Prop where
  once : ∃ reply, Writes v v' reply ∧ ∀ r ∈ reply, r.1 = id
  unanswered : Writes v v' none → v'.session.isSocketClosed = true
  due : v.session.isSocketClosed = false → ∀ reply, Writes v v' reply ↔ Due cfg keys v line reply

/-- The lines a session has received, and the keys of the submissions it has
looked up work for since its keys were last cleared. -/
structure Record where
  lines : List Line := []
  keys : List String := []

def held (v : View) (e : SessionEvent) : Option MiningSubmitMessage :=
  match handles v e with
  | some (.submit submission, _) =>
    if v.session.stratumInitialized && (workOf v submission).isSome then some submission else none
  | _ => none

def clears (cfg : Config) (v : View) (e : SessionEvent) : Bool :=
  (receives v e).any fun (address, purpose, blockTemplate) ↦
    decide (purpose ≠ .vardiff) && v.jobsService.isNewHeight address blockTemplate.height &&
      (JobsService.assembleBlock cfg.js blockTemplate 0).isSome

def arrived : SessionEvent → List Line
  | .data lines => lines
  | _ => []

def Record.note (cfg : Config) (record : Record) (v : View) (e : SessionEvent) : Record where
  lines := record.lines ++ arrived e
  keys := if clears cfg v e then [] else
    ((held v e).map submissionHash).toList ++ record.keys

/-- Every submission gets its verdict, and no id more replies than there were lines of it. -/
structure Verdicts (cfg : Config) (record : Record) (v : View) : Prop where
  once : ∀ id, (replies v.session).countP (fun reply ↦ decide (reply.1 = id)) +
      (pending v.session).countP (fun line ↦ decide (lineId line = some id)) ≤
    record.lines.countP fun line ↦ decide (lineId line = some id)
  submit : ∀ (copy : Json → Option Json) (request : SubmitRequest) rest e v',
    handles v e = some (request.line copy, rest) → v.act cfg e = some v' →
      Judged cfg record.keys (request.line copy) (request.id copy).stringify v v'
  silent : ∀ e v', handles v e = none → v.act cfg e = some v' → Writes v v' none
  failed : ∀ i after rest v', v.session.tasks[i]? = some (.write after rest) →
    v.act cfg (.resume i .failed) = some v' → v'.session.isSocketClosed = true

section Writing

theorem replies_eq_talk (session : Session) :
    replies session = (session.wire.filter isTalk).filterMap verdictOf := by
  rw [replies, List.filterMap_filter]
  apply List.filterMap_congr
  intro message _
  cases message <;> rfl

theorem replies_of_talk (h : Says w v' messages lines) :
    replies v'.session = messages.filterMap verdictOf ++ replies w.session := by
  rw [replies_eq_talk, h.wire, List.filterMap_append, ← replies_eq_talk]

theorem replies_pop (v : View) (e : SessionEvent) :
    replies (pop v e).session = replies v.session := by
  cases e <;> rfl

theorem writes_of_talk {reply : Option (String × Verdict)} (h : Says w v' messages lines)
    (hw : replies w.session = replies v.session)
    (hreply : messages.filterMap verdictOf = reply.toList) : Writes v v' reply := by
  rw [Writes, replies_of_talk h, hw, hreply]

theorem Writes.inj {reply reply' : Option (String × Verdict)} (h : Writes v v' reply)
    (h' : Writes v v' reply') : reply = reply' := by
  have hsame : reply.toList = reply'.toList := List.append_cancel_right (h.symm.trans h')
  cases reply <;> cases reply' <;> simp_all

def sent (v : View) (message : Message) : Option (String × Verdict) :=
  if v.session.isSocketClosed then none else verdictOf message

theorem verdicts_written (v : View) (message : Message) :
    (Says.written v message).filterMap verdictOf = (sent v message).toList := by
  rw [Says.written, sent]
  split
  · rfl
  · cases message <;> rfl

theorem sent_pop (v : View) (e : SessionEvent) (message : Message) :
    sent (pop v e) message = sent v message := by
  rw [sent, pop_session_closed, sent]

theorem mem_sent {message : Message} {reply : String × Verdict} (h : reply ∈ sent v message) :
    verdictOf message = some reply := by
  rw [sent] at h
  split at h
  · cases h
  · exact h

end Writing

section Counting

theorem follows_of_handles (he : handles v e = some (line, rest)) : follows v e = rest := by
  rw [handles.eq_def] at he
  split at he
  case h_1 i =>
    split at he
    case h_1 line' rest' htask =>
      obtain ⟨hrunning, h⟩ := Option.ite_none_left_eq_some.mp he
      simp only [Option.some.injEq, Prod.mk.injEq] at h
      obtain ⟨rfl, rfl⟩ := h
      simp [follows, htask, hrunning]
    case h_2 => cases he
  case h_2 => cases he

theorem pending_pop (v : View) {i : ℕ} (outcome : Outcome) {task : Task}
    (htask : v.session.tasks[i]? = some task) (p : Line → Bool) :
    (pending v.session).countP p =
      (restOf task).countP p + (pending (pop v (.resume i outcome)).session).countP p := by
  obtain ⟨hi, htask⟩ := List.getElem?_eq_some_iff.mp htask
  have hperm := (List.getElem_cons_eraseIdx_perm hi).flatMap_right restOf
  rw [htask, List.flatMap_cons] at hperm
  rw [pending, ← hperm.countP_eq, List.countP_append]
  rfl

theorem count_lines (v : View) (e : SessionEvent) (p : Line → Bool) :
    ((handles v e).map Prod.fst).toList.countP p + (pending (pop v e).session).countP p +
        (follows v e).countP p ≤
      (pending v.session).countP p + (arrived e).countP p := by
  cases e with
  | resume i outcome =>
    cases htask : v.session.tasks[i]? with
    | none =>
      have hhandles : handles v (.resume i outcome) = none := by
        cases outcome <;> simp [handles, htask]
      have hpop : (pop v (.resume i outcome)).session.tasks = v.session.tasks := by
        rw [List.getElem?_eq_none_iff] at htask
        exact List.eraseIdx_of_length_le htask
      rw [hhandles, pending, hpop, follows, htask]
      simp [pending]
    | some task =>
      rw [pending_pop v outcome htask p]
      have hline : ((handles v (.resume i outcome)).map Prod.fst).toList.countP p +
          (follows v (.resume i outcome)).countP p ≤ (restOf task).countP p := by
        cases hhandles : handles v (.resume i outcome) with
        | none =>
          simp only [Option.map_none, Option.toList_none, List.countP_nil, Nat.zero_add, follows,
            htask]
          cases task with
          | lines lines =>
            simp only [restOf]
            split
            · exact Nat.zero_le _
            · exact (List.tail_sublist lines).countP_le
          | _ => exact Nat.le_refl _
        | some handled =>
          obtain ⟨line, rest⟩ := handled
          rw [follows_of_handles hhandles]
          rw [handles.eq_def] at hhandles
          split at hhandles
          case h_1 i' heq =>
            cases heq
            rw [htask] at hhandles
            split at hhandles
            case h_1 line' rest' hlines =>
              obtain ⟨-, h⟩ := Option.ite_none_left_eq_some.mp hhandles
              simp only [Option.some.injEq, Prod.mk.injEq] at h hlines
              obtain ⟨rfl, rfl⟩ := h
              rw [hlines]
              simp only [Option.map_some, Option.toList_some, restOf, List.countP_cons,
                List.countP_nil]
              omega
            case h_2 => cases hhandles
          case h_2 => cases hhandles
      omega
  | data lines =>
    simp only [handles, Option.map_none, Option.toList_none, List.countP_nil, follows, arrived, pop]
    omega
  | _ =>
    simp only [handles, Option.map_none, Option.toList_none, List.countP_nil, follows, arrived, pop]
    omega

theorem reply_of_turn (hturn : Turn cfg v e v') :
    ∃ reply, Writes v v' reply ∧
      (∀ r ∈ reply, ∃ line rest, handles v e = some (line, rest) ∧ lineId line = some r.1) ∧
      ∀ p, (pending v'.session).countP p ≤
        (pending (pop v e).session).countP p + (follows v e).countP p := by
  have hpop := replies_pop v e
  have hrests {w : View} {messages : List Message} {lines : List Line}
      (h : Says w v' messages lines) (hw : pending w.session = pending (pop v e).session)
      (hlines : lines = follows v e ∨ lines = []) (p : Line → Bool) :
      (pending v'.session).countP p ≤
        (pending (pop v e).session).countP p + (follows v e).countP p := by
    rw [h.pending, hw, List.countP_append]
    rcases hlines with hlines | hlines
    · rw [hlines]
    · rw [hlines, List.countP_nil]
      omega
  have hsilent {w : View} {messages : List Message} {lines : List Line}
      (h : Says w v' messages lines) (hw : replies w.session = replies v.session)
      (hpending : pending w.session = pending (pop v e).session)
      (hmessages : messages.filterMap verdictOf = [])
      (hlines : lines = follows v e ∨ lines = []) :
      ∃ reply, Writes v v' reply ∧
        (∀ r ∈ reply, ∃ line rest, handles v e = some (line, rest) ∧ lineId line = some r.1) ∧
        ∀ p, (pending v'.session).countP p ≤
          (pending (pop v e).session).countP p + (follows v e).countP p :=
    ⟨none, writes_of_talk h hw hmessages, (fun _ hr ↦ by cases hr), hrests h hpending hlines⟩
  cases hturn with
  | calm _ h => exact hsilent h hpop rfl rfl (.inl rfl)
  | replied line rest message he hreplies h =>
    refine ⟨_, writes_of_talk h hpop (verdicts_written _ _), fun r hr ↦ ?_,
      hrests h rfl (.inl (follows_of_handles he).symm)⟩
    refine ⟨line, rest, he, ?_⟩
    have hr := mem_sent hr
    cases hreplies <;> cases hr <;> rfl
  | refused submission rest he _ h =>
    exact hsilent h hpop rfl rfl (.inl (follows_of_handles he).symm)
  | judged submission rest message w he _ hjudges h =>
    have hw : replies w.session = replies v.session ∧
        pending w.session = pending (pop v e).session := by
      cases hjudges <;> exact ⟨hpop, rfl⟩
    have hlines : rest = follows v e ∨ rest = [] :=
      .inl (follows_of_handles he).symm
    cases message with
    | none => exact hsilent h hw.1 hw.2 rfl hlines
    | some message =>
      refine ⟨_, writes_of_talk h hw.1 (verdicts_written _ _), fun r hr ↦ ?_, hrests h hw.2 hlines⟩
      refine ⟨_, rest, he, ?_⟩
      have hr := mem_sent hr
      cases hjudges <;> cases hr <;> rfl
  | authorized message rest he _ h =>
    refine ⟨_, writes_of_talk h hpop (verdicts_written _ _), fun r hr ↦ ?_,
      hrests h rfl (.inl (follows_of_handles he).symm)⟩
    refine ⟨_, rest, he, ?_⟩
    have hr := mem_sent hr
    cases hr
    rfl
  | suggested id suggestedDifficulty rest he h =>
    refine hsilent h hpop rfl ?_ (.inl (follows_of_handles he).symm)
    rw [Says.written]
    split <;> rfl
  | blocked _ h => exact hsilent h hpop rfl rfl (.inl rfl)
  | initialised subscription _ _ _ h =>
    refine hsilent h hpop rfl ?_ (.inl rfl)
    split
    · rw [Says.written]
      split <;> rfl
    · rfl
  | received _ _ _ _ _ _ _ _ _ h => exact hsilent h hpop rfl rfl (.inr rfl)
  | retargeted targetDiff he h =>
    subst he
    refine hsilent h rfl rfl ?_ (.inr rfl)
    split <;> rfl

theorem once_of_turn {record : Record} (hturn : Turn cfg v e v') (id : String)
    (h : (replies v.session).countP (fun reply ↦ decide (reply.1 = id)) +
        (pending v.session).countP (fun line ↦ decide (lineId line = some id)) ≤
      record.lines.countP fun line ↦ decide (lineId line = some id)) :
    (replies v'.session).countP (fun reply ↦ decide (reply.1 = id)) +
        (pending v'.session).countP (fun line ↦ decide (lineId line = some id)) ≤
      (record.note cfg v e).lines.countP fun line ↦ decide (lineId line = some id) := by
  obtain ⟨reply, hwrites, hanswers, hpending⟩ := reply_of_turn hturn
  have hpending := hpending fun line ↦ decide (lineId line = some id)
  have hlines := count_lines v e fun line ↦ decide (lineId line = some id)
  have hreply : reply.toList.countP (fun reply ↦ decide (reply.1 = id)) ≤
      ((handles v e).map Prod.fst).toList.countP fun line ↦ decide (lineId line = some id) := by
    cases reply with
    | none => exact Nat.zero_le _
    | some r =>
      obtain ⟨line, rest, hhandles, hline⟩ := hanswers r rfl
      simp only [hhandles, Option.map_some, Option.toList_some, List.countP_cons, List.countP_nil,
        hline, Option.some.injEq, Nat.le_refl]
  rw [hwrites, List.countP_append]
  simp only [Record.note, List.countP_append]
  omega

end Counting

section Keys

theorem held_of_not_submit (h : ∀ submission rest, handles v e ≠ some (.submit submission, rest)) :
    held v e = none := by
  rw [held]
  split
  case h_1 submission rest hhandles => exact absurd hhandles (h submission rest)
  case h_2 => rfl

theorem held_of_early (h : v.session.stratumInitialized = false) : held v e = none := by
  rw [held]
  split
  · rw [h, Bool.false_and, if_neg Bool.false_ne_true]
  · rfl

theorem held_of_submit (he : handles v e = some (.submit submission, rest))
    (h : v.session.stratumInitialized = true) :
    held v e = if (workOf v submission).isSome then some submission else none := by
  simp only [held, he, h, Bool.true_and]

theorem handles_of_receives {answer : String × Purpose × IBlockTemplate}
    (he : receives v e = some answer) : handles v e = none := by
  rw [receives.eq_def] at he
  split at he
  · rfl
  · cases he

theorem workOf_eq_some {job : MiningJob} {jobTemplate : IJobTemplate}
    (hjob : v.jobsService.getJobById submission.jobId = some job)
    (htemplate : v.jobsService.getJobTemplateById job.jobTemplateId = some jobTemplate) :
    workOf v submission = some (job, jobTemplate) := by
  simp only [workOf, hjob, Option.bind_some, htemplate, Option.map_some]

theorem workOf_pop (v : View) (e : SessionEvent) (submission : MiningSubmitMessage) :
    workOf (pop v e) submission = workOf v submission := by
  cases e <;> rfl

theorem hashes_pop (v : View) (e : SessionEvent) :
    (pop v e).session.miningSubmissionHashes = v.session.miningSubmissionHashes := by
  cases e <;> rfl

theorem hashes_of_judges {message : Option Message} (h : Judges cfg v submission message w) :
    (w.session.miningSubmissionHashes = v.session.miningSubmissionHashes ∧
      (workOf v submission = none ∨
        submissionHash submission ∈ v.session.miningSubmissionHashes)) ∨
    (w.session.miningSubmissionHashes =
      submissionHash submission :: v.session.miningSubmissionHashes ∧
      (workOf v submission).isSome) := by
  cases h with
  | noJob _ h => exact .inl ⟨rfl, .inl (by simp [workOf, h])⟩
  | noTemplate job _ hjob h => exact .inl ⟨rfl, .inl (by simp [workOf, hjob, h])⟩
  | duplicate _ _ _ _ h => exact .inl ⟨rfl, .inr h⟩
  | threw _ _ hjob htemplate => exact .inr ⟨rfl, by rw [workOf_eq_some hjob htemplate]; rfl⟩
  | accepted _ _ _ hjob htemplate => exact .inr ⟨rfl, by rw [workOf_eq_some hjob htemplate]; rfl⟩
  | tooLow _ _ _ hjob htemplate => exact .inr ⟨rfl, by rw [workOf_eq_some hjob htemplate]; rfl⟩

def Remembers (session : Session) (record : Record) : Prop :=
  ∀ key, key ∈ session.miningSubmissionHashes ↔ key ∈ record.keys

theorem Remembers.receives {record : Record} (h : Remembers v.session record)
    {address : String} {purpose : Purpose} {blockTemplate : IBlockTemplate}
    (he : Work.receives v e = some (address, purpose, blockTemplate))
    (hact : v.act cfg e = some v') : Remembers v'.session (record.note cfg v e) := by
  rw [act_of_receives he, Option.some.injEq] at hact
  subst hact
  have hheld : held v e = none := held_of_not_submit (by simp [handles_of_receives he])
  have hservice : (pop v e).jobsService = v.jobsService := by cases e <;> rfl
  have hnow : (pop v e).now = v.now := by cases e <;> rfl
  have hparses := JobsService.isSome_buildTemplateFor cfg.js v.jobsService address blockTemplate
    v.now 0
  have hclears : clears cfg v e = (decide (purpose ≠ .vardiff) &&
      v.jobsService.isNewHeight address blockTemplate.height &&
      (JobsService.assembleBlock cfg.js blockTemplate 0).isSome) := by
    simp only [clears, he, Option.any_some]
  intro key
  rcases says_receiveTemplate cfg (pop v e) address purpose blockTemplate with
    ⟨jobsService, hbuild, hsaid⟩ | ⟨jobsService, jobTemplate, hbuild, hsaid⟩
  · rw [hservice, hnow] at hbuild
    rw [hbuild] at hparses
    rw [← hparses, Option.isSome_none, Bool.and_false] at hclears
    simp only [Record.note, hclears, hheld, Option.map_none, Option.toList_none, List.nil_append,
      Bool.false_eq_true, if_false]
    rw [hsaid.hashes, hashes_pop]
    exact h key
  · rw [hservice, hnow] at hbuild
    rw [hbuild] at hparses
    rw [← hparses, Option.isSome_some, Bool.and_true,
      ← (JobsService.builds_of_buildTemplateFor hbuild).clearJobs] at hclears
    rw [hsaid.hashes]
    simp only [Record.note, hclears, hheld, Option.map_none, Option.toList_none, List.nil_append,
      View.cacheTemplate, View.update]
    split
    · exact Iff.rfl
    · rw [hashes_pop]
      exact h key

theorem Remembers.turn {record : Record} (h : Remembers v.session record)
    (he : Work.receives v e = none) (hturn : Turn cfg v e v') :
    Remembers v'.session (record.note cfg v e) := by
  have hclears : clears cfg v e = false := by simp only [clears, he, Option.any_none]
  have hkeys : (record.note cfg v e).keys =
      ((held v e).map submissionHash).toList ++ record.keys := by
    simp only [Record.note, hclears, Bool.false_eq_true, if_false]
  have hcalm {w : View} {messages : List Message} {lines : List Line}
      (hsaid : Says w v' messages lines)
      (hw : w.session.miningSubmissionHashes = v.session.miningSubmissionHashes)
      (hheld : held v e = none) : Remembers v'.session (record.note cfg v e) := by
    intro key
    rw [hsaid.hashes, hw, hkeys, hheld]
    exact h key
  cases hturn with
  | calm hsubmit hsaid => exact hcalm hsaid (hashes_pop v e) (held_of_not_submit hsubmit)
  | replied line rest message hhandles hreplies hsaid =>
    refine hcalm hsaid (hashes_pop v e) (held_of_not_submit fun submission rest' hsome ↦ ?_)
    rw [hhandles, Option.some.injEq, Prod.mk.injEq] at hsome
    cases hreplies <;> cases hsome.1
  | refused _ _ _ hearly hsaid => exact hcalm hsaid (hashes_pop v e) (held_of_early hearly)
  | judged submission rest message w hhandles hinitialized hjudges hsaid =>
    intro key
    rw [hsaid.hashes, hkeys, held_of_submit hhandles hinitialized]
    rcases hashes_of_judges hjudges with ⟨hsame, hnone | hseen⟩ | ⟨hadded, hsome⟩
    · rw [workOf_pop] at hnone
      rw [hsame, hashes_pop, hnone, Option.isSome_none, if_neg Bool.false_ne_true]
      exact h key
    · rw [hashes_pop] at hseen
      rw [hsame, hashes_pop]
      split
      · simp only [Option.map_some, Option.toList_some, List.singleton_append, List.mem_cons]
        refine ⟨fun hkey ↦ .inr ((h key).mp hkey), ?_⟩
        rintro (rfl | hkey)
        · exact hseen
        · exact (h key).mpr hkey
      · exact h key
    · rw [workOf_pop] at hsome
      rw [hadded, hashes_pop, if_pos hsome]
      simp only [Option.map_some, Option.toList_some, List.singleton_append, List.mem_cons]
      exact or_congr_right (h key)
  | authorized _ _ hhandles _ hsaid =>
    exact hcalm hsaid (hashes_pop v e) (held_of_not_submit (by simp [hhandles]))
  | suggested _ _ _ hhandles hsaid =>
    exact hcalm hsaid (hashes_pop v e) (held_of_not_submit (by simp [hhandles]))
  | blocked hearly hsaid => exact hcalm hsaid (hashes_pop v e) (held_of_early hearly)
  | initialised _ hearly _ _ hsaid => exact hcalm hsaid (hashes_pop v e) (held_of_early hearly)
  | received _ _ _ _ _ _ hreceives =>
    rw [he] at hreceives
    cases hreceives
  | retargeted _ htimer hsaid =>
    exact hcalm hsaid rfl (held_of_not_submit (by simp [htimer, handles]))

theorem Remembers.act {record : Record} (h : Remembers v.session record)
    (hready : Ready v.session) (hact : v.act cfg e = some v') :
    Remembers v'.session (record.note cfg v e) := by
  cases he : Work.receives v e with
  | none => exact h.turn he (turn_of_act hready hact)
  | some answer => exact h.receives he hact

end Keys

section Judging

variable {record : Record} {keys : List String} {id : String}

theorem Due.inj {reply reply' : Option (String × Verdict)} (h : Due cfg keys v line reply)
    (h' : Due cfg keys v line reply') : reply = reply' := by
  cases h <;> cases h' <;> simp_all
  case lowDifficultyShare.accepted hlow _ hmeets _ _ _ => exact absurd hmeets (not_le_of_gt hlow)
  case accepted.lowDifficultyShare hmeets _ hlow _ _ _ => exact absurd hmeets (not_le_of_gt hlow)

theorem Due.answers {reply : Option (String × Verdict)} {r : String × Verdict}
    (h : Due cfg keys v line reply) (hid : lineId line = some id) (hr : r ∈ reply) : r.1 = id := by
  cases h <;> cases hr <;> exact Option.some.inj hid

theorem judged_of_due {reply : Option (String × Verdict)} (hdue : Due cfg keys v line reply)
    (hid : ∀ r ∈ reply, r.1 = id)
    (hwrites : Writes v v' (if v.session.isSocketClosed then none else reply))
    (hnone : reply = none → v'.session.isSocketClosed = true)
    (hclosed : v.session.isSocketClosed = true → v'.session.isSocketClosed = true) :
    Judged cfg keys line id v v' where
  once := by
    refine ⟨_, hwrites, ?_⟩
    intro r hr
    split at hr
    · cases hr
    · exact hid r hr
  unanswered hsilent := by
    have hsame := hwrites.inj hsilent
    split at hsame
    case isTrue h => exact hclosed h
    case isFalse => exact hnone hsame
  due hopen other := by
    rw [hopen, if_neg Bool.false_ne_true] at hwrites
    constructor
    · intro hother
      rw [← hwrites.inj hother]
      exact hdue
    · intro hother
      rw [← hdue.inj hother]
      exact hwrites

theorem due_of_judges {message : Option Message} (hremembers : Remembers v.session record)
    (hinitialized : v.session.stratumInitialized = true)
    (h : Judges cfg (pop v e) submission message w) :
    Due cfg record.keys v (.submit submission) (message.bind verdictOf) := by
  have hkeys : submissionHash submission ∈ (pop v e).session.miningSubmissionHashes ↔
      submissionHash submission ∈ record.keys := by
    rw [hashes_pop]
    exact hremembers _
  have hdifficulty : (pop v e).session.sessionDifficulty = v.session.sessionDifficulty := by
    cases e <;> rfl
  have hwork {job : MiningJob} {jobTemplate : IJobTemplate}
      (hjob : (pop v e).jobsService.getJobById submission.jobId = some job)
      (htemplate : (pop v e).jobsService.getJobTemplateById job.jobTemplateId = some jobTemplate) :
      workOf v submission = some (job, jobTemplate) := by
    rw [← workOf_pop v e]
    exact workOf_eq_some hjob htemplate
  have hlost (h : workOf (pop v e) submission = none) : workOf v submission = none := by
    rw [← workOf_pop v e]
    exact h
  cases h with
  | noJob text hjob => exact .jobNotFound submission hinitialized (hlost (by simp [workOf, hjob]))
  | noTemplate job text hjob htemplate =>
    exact .jobNotFound submission hinitialized (hlost (by simp [workOf, hjob, htemplate]))
  | duplicate job jobTemplate hjob htemplate hseen =>
    exact .duplicateShare submission _ hinitialized (hwork hjob htemplate) (hkeys.mp hseen)
  | threw job jobTemplate hjob htemplate hfresh hheader =>
    exact .headerless submission _ hinitialized (hwork hjob htemplate)
      (fun hkey ↦ hfresh (hkeys.mpr hkey)) hheader
  | accepted job jobTemplate header hjob htemplate hfresh hheader hmeets =>
    exact .accepted submission _ header hinitialized (hwork hjob htemplate)
      (fun hkey ↦ hfresh (hkeys.mpr hkey)) hheader (hdifficulty ▸ hmeets)
  | tooLow job jobTemplate header hjob htemplate hfresh hheader hlow =>
    exact .lowDifficultyShare submission _ header hinitialized (hwork hjob htemplate)
      (fun hkey ↦ hfresh (hkeys.mpr hkey)) hheader (hdifficulty ▸ hlow)

theorem ite_sent (v : View) (message : Message) :
    (if v.session.isSocketClosed then none else verdictOf message) = sent v message := rfl

theorem judged_of_throw (hdue : Due cfg keys v line none)
    (hv : v' = (pop v e).throw rest) : Judged cfg keys line id v v' := by
  have hclosed : v'.session.isSocketClosed = true := by
    rw [hv]
    exact Says.isSocketClosed_throw rest
  refine judged_of_due hdue (fun r hr ↦ by cases hr) ?_ (fun _ ↦ hclosed) fun _ ↦ hclosed
  rw [ite_self, hv]
  exact writes_of_talk (Says.throw rest) (replies_pop v e) rfl

theorem judged_of_write {message : Message}
    (hdue : Due cfg keys v line (verdictOf message))
    (hid : ∀ r ∈ verdictOf message, r.1 = id) (hsome : verdictOf message ≠ none)
    (hw : replies w.session = replies v.session)
    (hsaid : Says w v' (Says.written (pop v e) message) rest)
    (hsame : w.session.isSocketClosed = v.session.isSocketClosed) :
    Judged cfg keys line id v v' := by
  refine judged_of_due hdue hid ?_ (fun hnone ↦ absurd hnone hsome) fun hclosed ↦ ?_
  · rw [ite_sent, ← sent_pop v e]
    exact writes_of_talk hsaid hw (verdicts_written _ _)
  · exact hsaid.closed (hsame.trans hclosed)

theorem judged_submit (hremembers : Remembers v.session record)
    (he : handles v e = some (.submit submission, rest)) (hact : v.act cfg e = some v') :
    Judged cfg record.keys (.submit submission) submission.id v v' := by
  rw [act_of_handles he, Option.some.injEq, View.handleMessage] at hact
  have hinitialized := pop_session_stratumInitialized v e
  split at hact
  case isTrue hrefuses =>
    have hearly : v.session.stratumInitialized = false := by
      simpa [View.refuses, hinitialized] using hrefuses
    exact judged_of_throw (.early _ hearly) hact.symm
  case isFalse haccepts =>
    have hready : (pop v e).session.stratumInitialized = true := by
      simpa [View.refuses] using haccepts
    obtain ⟨message, w, hjudges, hsaid, hclosed⟩ :=
      judges_handleMiningSubmission cfg (pop v e) rest submission hready
    have hdue := due_of_judges hremembers (hinitialized ▸ hready) hjudges
    have hw : replies w.session = replies v.session ∧
        w.session.isSocketClosed = v.session.isSocketClosed := by
      rw [← replies_pop v e, ← pop_session_closed v e]
      cases hjudges <;> exact ⟨rfl, rfl⟩
    subst hact
    cases message with
    | none =>
      refine judged_of_due hdue (fun r hr ↦ by cases hr) ?_ (fun _ ↦ hclosed rfl)
        fun _ ↦ hclosed rfl
      rw [Option.bind_none, ite_self]
      exact writes_of_talk hsaid hw.1 rfl
    | some message =>
      have hsome : verdictOf message ≠ none := by cases hjudges <;> simp [verdictOf]
      exact judged_of_write hdue (fun r hr ↦ hdue.answers rfl hr) hsome hw.1 hsaid hw.2

theorem judged_invalid (he : handles v e = some (.invalid .submit id, rest))
    (hact : v.act cfg e = some v') : Judged cfg keys (.invalid .submit id) id v v' := by
  rw [act_of_handles he, Option.some.injEq, View.handleMessage] at hact
  have hignores : (pop v e).ignores .submit = false := rfl
  have hinitialized := pop_session_stratumInitialized v e
  rw [hignores, if_neg Bool.false_ne_true] at hact
  split at hact
  case isTrue hrefuses =>
    have hearly : v.session.stratumInitialized = false := by
      simpa [View.refuses, hinitialized] using hrefuses
    exact judged_of_throw (.early _ hearly) hact.symm
  case isFalse haccepts =>
    have hready : v.session.stratumInitialized = true := by
      simpa [View.refuses, hinitialized] using haccepts
    subst hact
    refine judged_of_write (.invalid id hready) (fun r hr ↦ ?_) (by simp [verdictOf])
      (replies_pop v e) (Says.write rfl _ rest fun h ↦ by cases h) (pop_session_closed v e)
    cases hr
    rfl

theorem judged_throws (he : handles v e = some (.throws .submit, rest))
    (hact : v.act cfg e = some v') : Judged cfg keys (.throws .submit) id v v' := by
  rw [act_of_handles he, Option.some.injEq, View.handleMessage] at hact
  have hignores : (pop v e).ignores .submit = false := rfl
  rw [hignores, if_neg Bool.false_ne_true] at hact
  cases hinitialized : v.session.stratumInitialized with
  | true => exact judged_of_throw (.thrown hinitialized) hact.symm
  | false => exact judged_of_throw (.early _ hinitialized) hact.symm

theorem closed_of_failed {i : ℕ} {after : AfterWrite}
    (htask : v.session.tasks[i]? = some (.write after rest))
    (hact : v.act cfg (.resume i .failed) = some v') : v'.session.isSocketClosed = true := by
  simp only [act, htask, Option.bind_some, resumeTask, resumeWrite, Option.some.injEq] at hact
  subst hact
  rw [Says.isSocketClosed_nextLines]
  simp [View.update, Session.isSocketClosed]

end Judging

/-- Every `mining.submit` gets its verdict in every state of every run, except that
one which comes too early, whose class throws or whose header cannot be built ends
the connection without one. -/
theorem verdicts_of_reachable (cfg : Config) (now : ℕ) (self : SessionId) (pool : Pool)
    (record : Record)
    (h : Noted cfg (fun _ _ ↦ True) self (Record.note cfg) (Pool.start now, {}) (pool, record)) :
    Verdicts cfg record (pool.view self) := by
  have hready (pool : Pool) (hpool : Reachable (Pool.step cfg) (Pool.start now) pool) :
      Ready (pool.view self).session := ready_of_reachable hpool self
  have hremembers : Remembers (pool.sessions self) record :=
    Noted.keeps (P := Remembers) (J := fun v ↦ Ready v.session) hready (fun _ ↦ Iff.rfl)
      (fun _ _ _ _ hready h _ hact ↦ h.act hready hact) h
  have honce (id : String) :
      (replies (pool.sessions self)).countP (fun reply ↦ decide (reply.1 = id)) +
      (pending (pool.sessions self)).countP (fun line ↦ decide (lineId line = some id)) ≤
        record.lines.countP fun line ↦ decide (lineId line = some id) :=
    Noted.keeps (J := fun v ↦ Ready v.session) (P := fun session record ↦
        (replies session).countP (fun reply ↦ decide (reply.1 = id)) +
          (pending session).countP (fun line ↦ decide (lineId line = some id)) ≤
        record.lines.countP fun line ↦ decide (lineId line = some id))
      hready (Nat.le_refl 0)
      (fun _ _ _ _ hready h _ hact ↦ once_of_turn (turn_of_act hready hact) id h) h
  refine ⟨honce, ?_, ?_, ?_⟩
  · intro copy request rest e v' he hact
    rcases request.line_cases copy with ⟨message, hline, hid⟩ | hline | hline
    · rw [hline] at he ⊢
      rw [← hid]
      exact judged_submit hremembers he hact
    · rw [hline] at he ⊢
      exact judged_invalid he hact
    · rw [hline] at he ⊢
      exact judged_throws he hact
  · intro e v' he hact
    have hpool : Ready (pool.view self).session := hready pool (Reachable.of_noted h)
    obtain ⟨reply, hwrites, hanswers, -⟩ := reply_of_turn (turn_of_act hpool hact)
    cases reply with
    | none => exact hwrites
    | some r =>
      obtain ⟨line, rest, hhandles, -⟩ := hanswers r rfl
      rw [he] at hhandles
      cases hhandles
  · intro i after rest v' htask hact
    exact closed_of_failed htask hact

section Sample

open Reference

def request (params : List Json) : SubmitRequest :=
  [("id", .number "4"), ("method", .string "mining.submit"), ("params", .array params)]

def shareRequest : SubmitRequest :=
  request [.string "worker", .string "1", .null, .string "6553f100", .string "0"]

theorem verdicts_of_reachable_run :
    ∃ pool record, Noted settings (fun _ _ ↦ True) 0 (Record.note settings)
        (Pool.start 1700000000000, {}) (pool, record) ∧
      ("4", .accepted) ∈ replies (pool.sessions 0) ∧
      Verdicts settings record (pool.view 0) := by
  obtain ⟨⟨pool, record⟩, hpool, hp⟩ := Reach.of_any
    (noted (Pool.step settings) (ofSession 0 (Record.note settings)))
    (fun p event ↦ onSession (fun _ _ ↦ True) p.1 event) (Pool.start 1700000000000, {})
    (easyOpening 0 alice ++ working 0 (answer 101 (hashOf 7)) ++
      [.session 0 (.data [shareRequest.line some]), .session 0 (.resume 0 .done)])
    (fun p ↦ decide (("4", .accepted) ∈ replies (p.1.sessions 0)))
    (by decide +kernel) (by decide +kernel)
  exact ⟨pool, record, hpool, of_decide_eq_true hp,
    verdicts_of_reachable settings 1700000000000 0 pool record hpool⟩

def bareRequest : SubmitRequest := [("id", .number "4"), ("method", .string "mining.submit")]

def isUnanswered (pool : Pool) : Bool :=
  match (pool.view 0).act settings (.resume 0 .done) with
  | some v' =>
    decide (handles (pool.view 0) (.resume 0 .done) = some (bareRequest.line some, [])) &&
      (pool.sessions 0).stratumInitialized && !(pool.sessions 0).isSocketClosed &&
      decide (replies v'.session = replies (pool.sessions 0))
  | none => false

/-- Not every message that fails to validate gets the validation error: without
parameters the transforms throw. -/
theorem not_refused_of_bareRequest :
    ¬ ∀ (cfg : Config) (now : ℕ) (pool : Pool), Reachable (Pool.step cfg) (Pool.start now) pool →
      ∀ id (copy : Json → Option Json) (request : SubmitRequest) rest e v',
        handles (pool.view id) e = some (request.line copy, rest) →
        (pool.view id).act cfg e = some v' → (pool.sessions id).isSocketClosed = false →
        (pool.sessions id).stratumInitialized = true →
        (∀ message, request.line copy ≠ .submit message) →
        Writes (pool.view id) v' (some ((request.id copy).stringify, .refused .otherUnknown)) := by
  intro h
  obtain ⟨pool, hpool, hp⟩ := Reachable.of_any (Pool.step settings) (Pool.start 1700000000000)
    (opening 0 alice ++ [.session 0 (.data [bareRequest.line some])]) isUnanswered
    (by decide +kernel)
  rw [isUnanswered] at hp
  split at hp
  case h_1 v' hact =>
    simp only [Bool.and_eq_true, decide_eq_true_eq, Bool.not_eq_true'] at hp
    obtain ⟨⟨⟨hhandles, hinitialized⟩, hopen⟩, hsilent⟩ := hp
    have hwrites := h settings _ pool hpool 0 some bareRequest [] _ v' hhandles hact hopen
      hinitialized fun message hline ↦ by cases hline
    rw [Writes, hsilent] at hwrites
    exact List.cons_ne_self _ _ hwrites.symm
  case h_2 => cases hp

end Sample

end ElektronPool.SubmitVerdict
