import ElektronPool.Model.Pool

namespace ElektronPool.Talk

open Lib Lib.JavaScript Model Model.View

def isTalk : Message → Bool
  | .notify _ => false
  | _ => true

def restOf : Task → List Line
  | .lines rest => rest
  | .write _ rest => rest
  | .share _ _ rest => rest
  | _ => []

def pending (session : Session) : List Line := session.tasks.flatMap restOf

def isShare : Task → Bool
  | .write (.accepted _) _ | .share _ _ _ => true
  | _ => false

/-- Nothing works for a session that was destroyed. -/
def Inert (session : Session) : Prop :=
  session.destroyCalled = true → session.connectionClosed = true ∧
    session.stratumSubscription = false ∧ session.backgroundWork = false ∧
    session.currentJobTemplate = none

/-- What of a session is about its connection, its difficulty and its work. -/
structure Channel where
  sessionDifficulty : ℚ
  clientSuggestedDifficulty : Option ℚ
  stratumInitialized : Bool
  miningSubmissionHashes : List String
  connectionClosed : Bool
  socketDestroyed : Bool
  writableEnded : Bool
  writable : Bool
  destroyCalled : Bool
  stratumSubscription : Bool
  backgroundWork : Bool
  currentJobTemplate : Option IJobTemplate
  tasks : List Task
  wire : List Message

def channel (session : Session) : Channel where
  sessionDifficulty := session.sessionDifficulty
  clientSuggestedDifficulty := session.clientSuggestedDifficulty
  stratumInitialized := session.stratumInitialized
  miningSubmissionHashes := session.miningSubmissionHashes
  connectionClosed := session.connectionClosed
  socketDestroyed := session.socketDestroyed
  writableEnded := session.writableEnded
  writable := session.writable
  destroyCalled := session.destroyCalled
  stratumSubscription := session.stratumSubscription
  backgroundWork := session.backgroundWork
  currentJobTemplate := session.currentJobTemplate
  tasks := session.tasks
  wire := session.wire

/-- These messages were written and these lines are left to be handled; a closed
connection stays closed and a destroyed session inert. -/
structure Says (v v' : View) (messages : List Message) (lines : List Line) : Prop where
  difficulty : v'.session.sessionDifficulty = v.session.sessionDifficulty
  suggested : v'.session.clientSuggestedDifficulty = v.session.clientSuggestedDifficulty
  initialized : v'.session.stratumInitialized = v.session.stratumInitialized
  hashes : v'.session.miningSubmissionHashes = v.session.miningSubmissionHashes
  wire : v'.session.wire.filter isTalk = messages ++ v.session.wire.filter isTalk
  pending : pending v'.session = pending v.session ++ lines
  closed : v.session.isSocketClosed = true → v'.session.isSocketClosed = true
  stopped : v.hasStopped = true → v'.hasStopped = true
  inert : Inert v.session → Inert v'.session
  template : v'.session.isSocketClosed = false →
    v'.session.currentJobTemplate = v.session.currentJobTemplate
  shares : ∀ task ∈ v'.session.tasks, isShare task = true →
    task ∈ v.session.tasks ∨ v.session.stratumInitialized = true

namespace Says

variable {v v' v'' : View} {messages messages' : List Message} {lines lines' : List Line}

theorem trans (h : Says v v' messages lines) (h' : Says v' v'' messages' lines') :
    Says v v'' (messages' ++ messages) (lines ++ lines') where
  difficulty := h'.difficulty.trans h.difficulty
  suggested := h'.suggested.trans h.suggested
  initialized := h'.initialized.trans h.initialized
  hashes := h'.hashes.trans h.hashes
  wire := by rw [h'.wire, h.wire, List.append_assoc]
  pending := by rw [h'.pending, h.pending, List.append_assoc]
  closed hclosed := h'.closed (h.closed hclosed)
  stopped hstopped := h'.stopped (h.stopped hstopped)
  inert hinert := h'.inert (h.inert hinert)
  template hopen := by
    have hbefore : v'.session.isSocketClosed = false := by
      cases hclosed : v'.session.isSocketClosed with
      | false => rfl
      | true =>
        rw [h'.closed hclosed] at hopen
        cases hopen
    exact (h'.template hopen).trans (h.template hbefore)
  shares task hmem hshare := by
    rcases h'.shares task hmem hshare with hmem | hinitialized
    · exact h.shares task hmem hshare
    · exact .inr (h.initialized ▸ hinitialized)

theorem after (h : Says v' v'' messages lines) (hcalm : Says v v' [] []) :
    Says v v'' messages lines := by
  simpa only [List.append_nil, List.nil_append] using hcalm.trans h

theorem andThen (h : Says v v' messages []) (hcalm : Says v' v'' [] lines) :
    Says v v'' messages lines := by
  simpa only [List.append_nil, List.nil_append] using h.trans hcalm

theorem closing (byPeer destroyed ended unwritable : Bool)
    (h : channel v'.session =
      { channel v.session with
        connectionClosed := byPeer || v.session.connectionClosed
        socketDestroyed := destroyed || v.session.socketDestroyed
        writableEnded := ended || v.session.writableEnded
        writable := !unwritable && v.session.writable }) : Says v v' [] [] := by
  have hconnection := congrArg Channel.connectionClosed h
  have hdestroyed := congrArg Channel.socketDestroyed h
  have hended := congrArg Channel.writableEnded h
  have hwritable := congrArg Channel.writable h
  have htasks : v'.session.tasks = v.session.tasks := congrArg Channel.tasks h
  have htemplate : v'.session.currentJobTemplate = v.session.currentJobTemplate :=
    congrArg Channel.currentJobTemplate h
  simp only [channel] at hconnection hdestroyed hended hwritable
  refine ⟨congrArg Channel.sessionDifficulty h, congrArg Channel.clientSuggestedDifficulty h,
    congrArg Channel.stratumInitialized h, congrArg Channel.miningSubmissionHashes h,
    congrArg (List.filter isTalk ∘ Channel.wire) h, ?_, ?_, ?_, ?_, fun _ ↦ htemplate, ?_⟩
  · rw [Talk.pending, Talk.pending, htasks, List.append_nil]
  · simp only [Session.isSocketClosed, hconnection, hdestroyed, hended, hwritable, Bool.or_eq_true,
      Bool.not_and, Bool.not_not]
    rintro (((h | h) | h) | h) <;> simp [h]
  · simp only [View.hasStopped, hconnection, hdestroyed, hended, Bool.or_eq_true]
    rintro ((h | h) | h) <;> simp [h]
  · have hcalled := congrArg Channel.destroyCalled h
    have hsubscription := congrArg Channel.stratumSubscription h
    have hwork := congrArg Channel.backgroundWork h
    simp only [channel] at hcalled hsubscription hwork
    simp only [Inert, hcalled, hconnection, hsubscription, hwork, htemplate, Bool.or_eq_true]
    exact fun hinert h ↦ ⟨.inr (hinert h).1, (hinert h).2⟩
  · exact fun task hmem _ ↦ .inl (htasks ▸ hmem)

theorem of_channel (h : channel v'.session = channel v.session) : Says v v' [] [] :=
  closing false false false false h

theorem refl (v : View) : Says v v [] [] := of_channel rfl

theorem suspend {task : Task} (h : isShare task = true → v.session.stratumInitialized = true) :
    Says v (v.suspend task) [] (restOf task) where
  difficulty := rfl
  suggested := rfl
  initialized := rfl
  hashes := rfl
  wire := rfl
  pending := by
    simp only [Talk.pending, View.suspend, View.update, List.flatMap_append, List.flatMap_cons,
      List.flatMap_nil, List.append_nil]
  closed := id
  stopped := id
  inert := id
  template _ := rfl
  shares other hmem hshare := by
    rcases List.mem_append.mp hmem with hmem | hmem
    · exact .inl hmem
    · rw [List.mem_singleton.mp hmem] at hshare
      exact .inr (h hshare)

theorem nextLines (rest : List Line) : Says v (v.nextLines rest) [] rest := by
  rw [View.nextLines]
  split
  case isTrue hrest =>
    rw [hrest]
    exact refl v
  · exact suspend fun h ↦ by cases h

theorem send {message : Message} (h : isTalk message = true) :
    Says v (v.send message) [message] [] :=
  { refl v with
    wire := by simp only [View.send, View.update, List.filter_cons, h, if_true, List.singleton_append] }

theorem sendQuiet {message : Message} (h : isTalk message = false) :
    Says v (v.send message) [] [] :=
  { refl v with
    wire := by
      simp only [View.send, View.update, List.filter_cons, h, Bool.false_eq_true, if_false,
        List.nil_append] }

def written (v : View) (message : Message) : List Message :=
  if v.session.isSocketClosed then [] else [message]

theorem write {message : Message} (htalk : isTalk message = true) (after : AfterWrite)
    (rest : List Line)
    (hshare : isShare (.write after rest) = true → v.session.stratumInitialized = true) :
    Says v (v.write message after rest) (written v message) rest := by
  rw [View.write, written]
  split
  · exact nextLines rest
  · exact (send htalk).andThen (suspend hshare)

theorem endSocket : Says v v.endSocket [] [] := closing false false true false rfl

theorem isSocketClosed_endSocket : v.endSocket.session.isSocketClosed = true := by
  simp [View.endSocket, View.update, Session.isSocketClosed]

theorem throw (rest : List Line) : Says v (v.throw rest) [] rest :=
  (nextLines rest).after endSocket

theorem isSocketClosed_nextLines (rest : List Line) :
    (v.nextLines rest).session.isSocketClosed = v.session.isSocketClosed := by
  rw [View.nextLines]
  split <;> rfl

theorem isSocketClosed_throw (rest : List Line) :
    (v.throw rest).session.isSocketClosed = true := by
  rw [View.throw, isSocketClosed_nextLines]
  exact isSocketClosed_endSocket

def halted (v : View) : View := v.update fun s ↦
  { s with
    destroyCalled := true
    connectionClosed := true
    backgroundWork := false
    stratumSubscription := false
    currentJobTemplate := none }

theorem of_halted (v : View) : Says v (Says.halted v) [] [] where
  difficulty := rfl
  suggested := rfl
  initialized := rfl
  hashes := rfl
  wire := rfl
  pending := (List.append_nil _).symm
  closed _ := by simp [Says.halted, View.update, Session.isSocketClosed]
  stopped _ := by simp [Says.halted, View.update, View.hasStopped]
  inert _ _ := ⟨rfl, rfl, rfl, rfl⟩
  template h := by simp [Says.halted, View.update, Session.isSocketClosed] at h
  shares _ hmem _ := .inl hmem

theorem destroy : Says v v.destroy [] [] := by
  rw [View.destroy]
  split
  · exact refl v
  · split
    · exact (of_halted v).andThen (of_channel rfl)
    · exact of_halted v

theorem socketDestroyed : Says v (v.update fun s ↦ { s with socketDestroyed := true }) [] [] :=
  closing false true false false rfl

theorem connectionClosed : Says v (v.update fun s ↦ { s with connectionClosed := true }) [] [] :=
  closing true false false false rfl

theorem unwritable : Says v (v.update fun s ↦ { s with writable := false }) [] [] :=
  closing false false false true rfl

theorem closeSocket : Says v v.closeSocket [] [] :=
  (socketDestroyed.after destroy).after connectionClosed

theorem isSocketClosed_closeSocket : v.closeSocket.session.isSocketClosed = true := by
  simp [View.closeSocket, View.update, Session.isSocketClosed]

section Handlers

variable (cfg : Config) (rest : List Line) (share : Share)

theorem crash : Says v { v with crashed := true } [] [] := of_channel rfl

theorem suspendShare (wait : ShareWait) (h : v.session.stratumInitialized = true) :
    Says v (v.suspend (.share share wait rest)) [] rest := suspend fun _ ↦ h

theorem callShare (c : Call) (wait : ShareWait) (h : v.session.stratumInitialized = true) :
    Says v ((v.call (some share) c).suspend (.share share wait rest)) [] rest :=
  (suspendShare (v := v.call (some share) c) rest share wait h).after (of_channel rfl)

theorem finishMessage (h : v.session.stratumInitialized = true) :
    Says v (v.finishMessage cfg rest) [] rest := by
  rw [View.finishMessage]
  split
  · rw [if_pos h]
    exact nextLines rest
  · exact nextLines rest

theorem submitExternalShare (h : v.session.stratumInitialized = true) :
    Says v (v.submitExternalShare cfg share rest) [] rest := by
  simp only [View.submitExternalShare]
  split
  case h_1 authorization subscription _ _ _ =>
    exact (finishMessage (v := v.call (some share) (.submitExternalShare authorization.address
      authorization.worker subscription.userAgent share.header)) cfg rest h).after (of_channel rfl)
  · exact finishMessage cfg rest h

theorem updateBestDifficulty (h : v.session.stratumInitialized = true) :
    Says v (v.updateBestDifficulty cfg share rest) [] rest := by
  simp only [View.updateBestDifficulty]
  split
  · split
    · exact callShare rest share _ _ h
    · exact submitExternalShare cfg rest share h
  · exact submitExternalShare cfg rest share h

theorem heartbeat (h : v.session.stratumInitialized = true) :
    Says v (v.heartbeat cfg share rest) [] rest := by
  simp only [View.heartbeat]
  split
  · split
    · exact callShare rest share _ _ h
    · exact updateBestDifficulty cfg rest share h
  · exact updateBestDifficulty cfg rest share h

theorem afterAddShares (h : v.session.stratumInitialized = true)
    (r : StratumV1ClientStatistics × Option (StatisticsCall × AddShares)) :
    Says v (v.afterAddShares cfg share rest r) [] rest := by
  have hupdate (statistics : StratumV1ClientStatistics) :
      Says v (v.update fun s ↦ { s with statistics := some statistics }) [] [] := of_channel rfl
  obtain ⟨statistics, _ | ⟨statisticsCall, wait⟩⟩ := r
  · refine Says.after ?_ (hupdate statistics)
    exact heartbeat cfg rest share h
  · refine Says.after ?_ (hupdate statistics)
    exact callShare rest share _ _ h

theorem addShares (h : v.session.stratumInitialized = true) (entity : ClientEntity) :
    Says v (v.addShares cfg share rest entity) [] rest := by
  simp only [View.addShares]
  split
  · exact (afterAddShares (v := v.log (.credited share)) cfg rest share h _).after (of_channel rfl)
  · exact updateBestDifficulty cfg rest share h

theorem ensureClientEntity (h : v.session.stratumInitialized = true) :
    Says v (v.ensureClientEntity cfg share rest) [] rest := by
  simp only [View.ensureClientEntity]
  split
  · exact addShares cfg rest share h _
  · split
    · refine Says.after (suspendShare rest share _ ?_) (Says.after (suspend ?_) (of_channel rfl))
      · exact h
      · exact fun h ↦ by cases h
    · exact suspendShare rest share _ h

theorem afterReply (h : v.session.stratumInitialized = true) :
    Says v (v.afterReply cfg share rest) [] rest := by
  simp only [View.afterReply]
  have hlog : Says v (v.log (.acknowledged share)) [] [] := of_channel rfl
  refine Says.after ?_ hlog
  split
  · split
    · exact throw rest
    · split
      · exact throw rest
      · exact callShare rest share _ _ h
  · exact ensureClientEntity cfg rest share h

theorem afterSubmitBlock (h : v.session.stratumInitialized = true) (block : Block Number)
    (blockHex : Bytes) (response : String) :
    Says v (v.afterSubmitBlock cfg share rest block blockHex response) [] rest := by
  simp only [View.afterSubmitBlock]
  split
  · split
    · exact callShare rest share _ _ h
    · exact throw rest
  · exact ensureClientEntity cfg rest share h

theorem afterSaveBlock (h : v.session.stratumInitialized = true) (block : Block Number) :
    Says v (v.afterSaveBlock share rest block) [] rest := by
  simp only [View.afterSaveBlock]
  split
  · exact callShare rest share _ _ h
  · exact throw rest

theorem resumeAddShares (h : v.session.stratumInitialized = true) (wait : AddShares) :
    Says v (v.resumeAddShares cfg share rest wait) [] rest := by
  simp only [View.resumeAddShares]
  split
  · exact afterAddShares cfg rest share h _
  · exact updateBestDifficulty cfg rest share h

theorem afterClientBest (h : v.session.stratumInitialized = true) :
    Says v (v.afterClientBest cfg share rest) [] rest := by
  simp only [View.afterClientBest]
  split
  · refine Says.after (callShare rest share _ _ ?_) (of_channel rfl)
    exact h
  · refine Says.after (submitExternalShare cfg rest share ?_) (of_channel rfl)
    exact h

theorem afterHeartbeat (h : v.session.stratumInitialized = true) (now : ℕ) :
    Says v (v.afterHeartbeat cfg share rest now) [] rest := by
  rw [View.afterHeartbeat]
  refine Says.after (updateBestDifficulty cfg rest share ?_) (of_channel rfl)
  exact h

theorem resumeShare {wait : ShareWait} {outcome : Outcome}
    (h : v.session.stratumInitialized = true)
    (hresume : v.resumeShare cfg share rest wait outcome = some v') : Says v v' [] rest := by
  rw [View.resumeShare.eq_def] at hresume
  split at hresume
  all_goals try simp only [Option.some.injEq] at hresume
  all_goals try subst hresume
  · exact afterSubmitBlock cfg rest share h _ _ _
  · exact afterSaveBlock rest share h _
  · exact callShare rest share _ _ h
  · exact callShare rest share _ _ h
  · exact ensureClientEntity cfg rest share h
  · exact throw rest
  · exact throw rest
  · exact throw rest
  · exact throw rest
  · obtain ⟨entity, -, rfl⟩ := Option.map_eq_some_iff.mp hresume
    exact addShares cfg rest share h entity
  · obtain ⟨-, hresume⟩ := Option.ite_none_right_eq_some.mp hresume
    cases hresume
    exact throw rest
  · exact resumeAddShares cfg rest share h _
  · exact afterHeartbeat cfg rest share h _
  · exact updateBestDifficulty cfg rest share h
  · exact updateBestDifficulty cfg rest share h
  · exact afterClientBest cfg rest share h
  · exact submitExternalShare cfg rest share h
  · exact submitExternalShare cfg rest share h
  · exact submitExternalShare cfg rest share h
  · cases hresume

theorem sendNewMiningJob (jobTemplate : IJobTemplate) :
    Says v (v.sendNewMiningJob cfg jobTemplate).1 [] [] := by
  have hcopy : Says v v.copyHashRate [] [] := by
    rw [copyHashRate]
    split <;> exact of_channel rfl
  simp only [View.sendNewMiningJob]
  split
  · exact refl v
  · refine Says.after ?_ hcopy
    generalize v.copyHashRate = w
    split
    · generalize w.rotationState jobTemplate = rotationState
      have hcount : Says w (w.countJob rotationState) [] [] := of_channel rfl
      refine Says.after ?_ hcount
      generalize w.countJob rotationState = u
      split
      · exact refl u
      case h_2 job _ =>
        simp only [View.write]
        split
        · exact of_channel rfl
        · refine Says.andThen ?_ (suspend fun h ↦ by cases h)
          exact (sendQuiet rfl).after (of_channel rfl)
    · exact refl w

theorem catchRefresh (purpose : Purpose) (r : View × Bool) :
    Says r.1 (catchRefresh purpose r) [] [] := by
  obtain ⟨v, _ | _⟩ := r
  · exact refl v
  · cases purpose with
    | newBlock => exact endSocket
    | refreshTimer => exact refl v
    | vardiff => exact crash

theorem refreshMiningJob (purpose : Purpose) : Says v (v.refreshMiningJob purpose) [] [] := by
  rw [View.refreshMiningJob]
  split
  · exact refl v
  · split
    · exact suspend fun h ↦ by cases h
    · exact refl v

theorem refreshLocalMiningWork : Says v (v.refreshLocalMiningWork cfg) [] [] := by
  simp only [View.refreshLocalMiningWork]
  split
  · exact refl v
  · split
    · exact refl v
    · split
      · exact refl v
      · exact sendNewMiningJob cfg _

theorem resendMiningJob (jobTemplate : IJobTemplate) :
    Says (v.cacheTemplate jobTemplate false) (v.resendMiningJob cfg jobTemplate).1 [] [] :=
  sendNewMiningJob cfg _

theorem startWork (hconnected : v.session.connectionClosed = false) :
    Says v (v.startWork rest) [] rest := by
  rw [View.startWork]
  refine Says.after (nextLines rest) ?_
  exact
    { refl v with
      inert := fun hinert hcalled ↦ by
        rw [(hinert hcalled).1] at hconnected
        cases hconnected }

end Handlers

end Says

end ElektronPool.Talk
