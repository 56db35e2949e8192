import ElektronPool.Model.Pool

namespace ElektronPool.Work

open Lib Lib.JavaScript Model Model.View

def isWork : Entry → Bool
  | .template _ _ => true
  | .job _ _ _ => true
  | _ => false

def notice : Message → Option IMiningNotify
  | .notify params => some params
  | _ => none

/-- Nothing about the work of a session changes, except that its cached template may go. -/
structure Quiet (v v' : View) : Prop where
  now : v'.now = v.now
  self : v'.self = v.self
  jobsService : v'.jobsService = v.jobsService
  clientAuthorization : v'.session.clientAuthorization = v.session.clientAuthorization
  currentJobTemplate : v'.session.currentJobTemplate = v.session.currentJobTemplate ∨
    v'.session.currentJobTemplate = none
  sentJobs : v'.session.sentJobs = v.session.sentJobs
  notices : v'.session.wire.filterMap notice = v.session.wire.filterMap notice
  fetches : ∀ address purpose, Task.template address purpose ∈ v'.session.tasks →
    Task.template address purpose ∈ v.session.tasks
  work : v'.history.filter isWork = v.history.filter isWork

namespace Quiet

variable {v v' v'' : View}

theorem refl (v : View) : Quiet v v := ⟨rfl, rfl, rfl, rfl, .inl rfl, rfl, rfl, fun _ _ h ↦ h, rfl⟩

theorem trans (h : Quiet v v') (h' : Quiet v' v'') : Quiet v v'' where
  now := h'.now.trans h.now
  self := h'.self.trans h.self
  jobsService := h'.jobsService.trans h.jobsService
  clientAuthorization := h'.clientAuthorization.trans h.clientAuthorization
  currentJobTemplate := by
    rcases h'.currentJobTemplate with h' | h'
    · rw [h']
      exact h.currentJobTemplate
    · exact .inr h'
  sentJobs := h'.sentJobs.trans h.sentJobs
  notices := h'.notices.trans h.notices
  fetches address purpose hmem := h.fetches _ _ (h'.fetches _ _ hmem)
  work := h'.work.trans h.work

/-- A change of the fields that are about the connection, the difficulty or the shares. -/
theorem update {f : Session → Session}
    (hauth : (f v.session).clientAuthorization = v.session.clientAuthorization)
    (hcache : (f v.session).currentJobTemplate = v.session.currentJobTemplate ∨
      (f v.session).currentJobTemplate = none)
    (hsent : (f v.session).sentJobs = v.session.sentJobs)
    (htasks : (f v.session).tasks = v.session.tasks) (hwire : (f v.session).wire = v.session.wire) :
    Quiet v (v.update f) :=
  ⟨rfl, rfl, rfl, hauth, hcache, hsent, congrArg _ hwire, fun _ _ h ↦ htasks ▸ h, rfl⟩

theorem log (entry : Entry) (h : isWork entry = false) : Quiet v (v.log entry) :=
  ⟨rfl, rfl, rfl, rfl, .inl rfl, rfl, rfl, fun _ _ h ↦ h, by simp [View.log, h]⟩

theorem call (share : Option Share) (call : Call) : Quiet v (v.call share call) := log _ rfl

theorem suspend {task : Task} (h : ∀ address purpose, task ≠ .template address purpose) :
    Quiet v (v.suspend task) where
  now := rfl
  self := rfl
  jobsService := rfl
  clientAuthorization := rfl
  currentJobTemplate := .inl rfl
  sentJobs := rfl
  notices := rfl
  fetches address purpose hmem := by
    rcases List.mem_append.mp hmem with hmem | hmem
    · exact hmem
    · exact absurd (List.mem_singleton.mp hmem).symm (h address purpose)
  work := rfl

theorem erase (i : ℕ) : Quiet v (v.update fun s ↦ { s with tasks := s.tasks.eraseIdx i }) :=
  ⟨rfl, rfl, rfl, rfl, .inl rfl, rfl, rfl, fun _ _ h ↦ List.mem_of_mem_eraseIdx h, rfl⟩

theorem crash : Quiet v { v with crashed := true } :=
  ⟨rfl, rfl, rfl, rfl, .inl rfl, rfl, rfl, fun _ _ h ↦ h, rfl⟩

theorem nextLines (rest : List Line) : Quiet v (v.nextLines rest) := by
  rw [View.nextLines]
  split
  · exact refl v
  · exact suspend fun _ _ h ↦ by cases h

theorem send {message : Message} (h : notice message = none) : Quiet v (v.send message) :=
  ⟨rfl, rfl, rfl, rfl, .inl rfl, rfl, List.filterMap_cons_none h, fun _ _ h ↦ h, rfl⟩

theorem write {message : Message} (h : notice message = none) (after : AfterWrite)
    (rest : List Line) : Quiet v (v.write message after rest) := by
  rw [View.write]
  split
  · exact nextLines rest
  · exact (send h).trans (suspend fun _ _ h ↦ by cases h)

theorem endSocket : Quiet v v.endSocket := update rfl (.inl rfl) rfl rfl rfl

theorem throw (rest : List Line) : Quiet v (v.throw rest) := endSocket.trans (nextLines rest)

theorem destroy : Quiet v v.destroy := by
  rw [View.destroy]
  split
  · exact refl v
  · split
    · exact (update rfl (.inr rfl) rfl rfl rfl).trans (call _ _)
    · exact update rfl (.inr rfl) rfl rfl rfl

theorem closeSocket : Quiet v v.closeSocket :=
  ((update rfl (.inl rfl) rfl rfl rfl).trans destroy).trans (update rfl (.inl rfl) rfl rfl rfl)

section Handlers

variable (cfg : Config) (rest : List Line) (share : Share)

theorem startWork : Quiet v (v.startWork rest) :=
  (update rfl (.inl rfl) rfl rfl rfl).trans (nextLines rest)

theorem initStratum (subscription : SubscriptionMessage) :
    Quiet v (v.initStratum cfg rest subscription) := by
  have hinit : Quiet v (v.update fun s ↦ { s with stratumInitialized := true }) :=
    update rfl (.inl rfl) rfl rfl rfl
  simp only [View.initStratum]
  refine hinit.trans ?_
  split
  · exact closeSocket.trans (nextLines rest)
  · split
    · exact Quiet.trans (update rfl (.inl rfl) rfl rfl rfl) (write rfl _ rest)
    · exact Quiet.trans (update rfl (.inl rfl) rfl rfl rfl) (startWork rest)

theorem finishMessage : Quiet v (v.finishMessage cfg rest) := by
  rw [View.finishMessage]
  split
  · split
    · exact nextLines rest
    · exact initStratum cfg rest _
  · exact nextLines rest

theorem submitExternalShare : Quiet v (v.submitExternalShare cfg share rest) := by
  simp only [View.submitExternalShare]
  split
  · exact (call _ _).trans (finishMessage cfg rest)
  · exact finishMessage cfg rest

theorem suspendShare (wait : ShareWait) : Quiet v (v.suspend (.share share wait rest)) :=
  suspend fun _ _ h ↦ by cases h

theorem updateBestDifficulty : Quiet v (v.updateBestDifficulty cfg share rest) := by
  simp only [View.updateBestDifficulty]
  split
  · split
    · exact (call _ _).trans (suspendShare rest share _)
    · exact submitExternalShare cfg rest share
  · exact submitExternalShare cfg rest share

theorem heartbeat : Quiet v (v.heartbeat cfg share rest) := by
  simp only [View.heartbeat]
  split
  · split
    · exact (call _ _).trans (suspendShare rest share _)
    · exact updateBestDifficulty cfg rest share
  · exact updateBestDifficulty cfg rest share

theorem afterAddShares (r : StratumV1ClientStatistics × Option (StatisticsCall × AddShares)) :
    Quiet v (v.afterAddShares cfg share rest r) := by
  obtain ⟨statistics, _ | ⟨statisticsCall, wait⟩⟩ := r
  · exact Quiet.trans (update rfl (.inl rfl) rfl rfl rfl) (heartbeat cfg rest share)
  · exact (Quiet.trans (update rfl (.inl rfl) rfl rfl rfl) (call _ _)).trans
      (suspendShare rest share _)

theorem addShares (entity : ClientEntity) : Quiet v (v.addShares cfg share rest entity) := by
  simp only [View.addShares]
  split
  · exact (log _ rfl).trans (afterAddShares cfg rest share _)
  · exact updateBestDifficulty cfg rest share

theorem ensureClientEntity : Quiet v (v.ensureClientEntity cfg share rest) := by
  simp only [View.ensureClientEntity]
  split
  · exact addShares cfg rest share _
  · split
    · exact ((Quiet.trans (update rfl (.inl rfl) rfl rfl rfl) (call _ _)).trans
        (suspend fun _ _ h ↦ by cases h)).trans (suspendShare rest share _)
    · exact suspendShare rest share _

theorem afterReply : Quiet v (v.afterReply cfg share rest) := by
  simp only [View.afterReply]
  refine (log (.acknowledged share) rfl).trans ?_
  split
  · split
    · exact throw rest
    · split
      · exact throw rest
      · exact (call _ _).trans (suspendShare rest share _)
  · exact ensureClientEntity cfg rest share

theorem judge : Quiet v (v.judge cfg rest share) := by
  simp only [View.judge]
  split
  · exact (log _ rfl).trans (write rfl _ rest)
  · exact (log _ rfl).trans (write rfl _ rest)

theorem handleMiningSubmission (submission : MiningSubmitMessage) :
    Quiet v (v.handleMiningSubmission cfg rest submission) := by
  simp only [View.handleMiningSubmission]
  split
  · exact write rfl _ rest
  · split
    · exact write rfl _ rest
    · split
      · exact write rfl _ rest
      · split
        · exact Quiet.trans (update rfl (.inl rfl) rfl rfl rfl) (throw rest)
        · exact Quiet.trans (update rfl (.inl rfl) rfl rfl rfl) (judge cfg rest _)

theorem subscribe (message : SubscriptionMessage) : Quiet v (v.subscribe cfg rest message) := by
  simp only [View.subscribe]
  split
  · exact closeSocket.trans (nextLines rest)
  · split
    · exact Quiet.trans
        (Quiet.trans (update rfl (.inl rfl) rfl rfl rfl) (update rfl (.inl rfl) rfl rfl rfl))
        (write rfl _ rest)
    · exact Quiet.trans (update rfl (.inl rfl) rfl rfl rfl) (write rfl _ rest)

theorem suggestDifficulty (suggestedDifficulty : ℚ) :
    Quiet v (v.suggestDifficulty rest suggestedDifficulty) :=
  Quiet.trans (update rfl (.inl rfl) rfl rfl rfl) (write rfl _ rest)

theorem invalid (method : eRequestMethod) (id : String) : Quiet v (v.invalid rest method id) := by
  cases method <;> exact write rfl _ rest

theorem resumeWrite {after : AfterWrite} {outcome : Outcome}
    (h : v.resumeWrite cfg after rest outcome = some v') : Quiet v v' := by
  cases outcome with
  | done =>
    simp only [View.resumeWrite] at h
    split at h
    · cases h
      exact nextLines rest
    · cases h
      cases after with
      | reply => exact finishMessage cfg rest
      | suggested => exact Quiet.trans (update rfl (.inl rfl) rfl rfl rfl) (finishMessage cfg rest)
      | invalidSubmit => exact closeSocket.trans (nextLines rest)
      | accepted share => exact afterReply cfg rest share
      | setDifficulty => exact startWork rest
      | notified timestamp => exact Quiet.trans (update rfl (.inl rfl) rfl rfl rfl) (nextLines rest)
  | failed =>
    cases h
    exact (destroy.trans (update rfl (.inl rfl) rfl rfl rfl)).trans (nextLines rest)
  | answered | submitted | inserted => cases h

theorem callShare (c : Call) (wait : ShareWait) :
    Quiet v ((v.call (some share) c).suspend (.share share wait rest)) :=
  (call _ _).trans (suspendShare rest share _)

theorem afterSubmitBlock (block : Block Number) (blockHex : Bytes) (response : String) :
    Quiet v (v.afterSubmitBlock cfg share rest block blockHex response) := by
  simp only [View.afterSubmitBlock]
  split
  · split
    · exact callShare rest share _ _
    · exact throw rest
  · exact ensureClientEntity cfg rest share

theorem afterSaveBlock (block : Block Number) : Quiet v (v.afterSaveBlock share rest block) := by
  simp only [View.afterSaveBlock]
  split
  · exact callShare rest share _ _
  · exact throw rest

theorem resumeAddShares (wait : AddShares) : Quiet v (v.resumeAddShares cfg share rest wait) := by
  simp only [View.resumeAddShares]
  split
  · exact afterAddShares cfg rest share _
  · exact updateBestDifficulty cfg rest share

theorem afterClientBest : Quiet v (v.afterClientBest cfg share rest) := by
  simp only [View.afterClientBest]
  split
  · exact Quiet.trans (update rfl (.inl rfl) rfl rfl rfl) (callShare rest share _ _)
  · exact Quiet.trans (update rfl (.inl rfl) rfl rfl rfl) (submitExternalShare cfg rest share)

theorem afterHeartbeat (now : ℕ) : Quiet v (v.afterHeartbeat cfg share rest now) :=
  Quiet.trans (update rfl (.inl rfl) rfl rfl rfl) (updateBestDifficulty cfg rest share)

theorem resumeShare {wait : ShareWait} {outcome : Outcome}
    (h : v.resumeShare cfg share rest wait outcome = some v') : Quiet v v' := by
  rw [View.resumeShare.eq_def] at h
  split at h
  all_goals try simp only [Option.some.injEq] at h
  all_goals try subst h
  · exact afterSubmitBlock cfg rest share _ _ _
  · exact afterSaveBlock rest share _
  · exact callShare rest share _ _
  · exact callShare rest share _ _
  · exact ensureClientEntity cfg rest share
  · exact throw rest
  · exact throw rest
  · exact throw rest
  · exact throw rest
  · obtain ⟨entity, -, rfl⟩ := Option.map_eq_some_iff.mp h
    exact addShares cfg rest share entity
  · obtain ⟨-, h⟩ := Option.ite_none_right_eq_some.mp h
    cases h
    exact throw rest
  · exact resumeAddShares cfg rest share _
  · exact afterHeartbeat cfg rest share _
  · exact updateBestDifficulty cfg rest share
  · exact updateBestDifficulty cfg rest share
  · exact afterClientBest cfg rest share
  · exact submitExternalShare cfg rest share
  · exact submitExternalShare cfg rest share
  · exact submitExternalShare cfg rest share
  · cases h

end Handlers

end Quiet

end ElektronPool.Work
