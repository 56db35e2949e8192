import ElektronPool.Model.Pool
import Mathlib.Logic.Relation

namespace ElektronPool.Moves

open Lib Lib.JavaScript Model Model.View

variable {cfg : Config} {v₀ v v' v'' : View} {e : SessionEvent}

def resumed (v₀ : View) : SessionEvent → Option Task
  | .resume i _ => v₀.session.tasks[i]?
  | _ => none

theorem mem_of_resumed {task : Task} (h : resumed v₀ e = some task) : task ∈ v₀.session.tasks := by
  cases e with
  | resume i _ => exact List.mem_of_getElem? h
  | _ => cases h

/-- The event is of what brings work to the session: a new block, a timer, or the answer of
a fetch. -/
inductive Serves (v₀ : View) : SessionEvent → Prop
  | newBlock (h : v₀.session.stratumSubscription = true) : Serves v₀ .newBlock
  | refreshTimer (h : v₀.session.backgroundWork = true) : Serves v₀ .refreshTimer
  | localTimer (h : v₀.session.backgroundWork = true) : Serves v₀ .localTimer
  | difficultyTimer (h : v₀.session.backgroundWork = true) : Serves v₀ .difficultyTimer
  | template (e : SessionEvent) (address : String) (purpose : Purpose)
      (h : resumed v₀ e = some (.template address purpose)) : Serves v₀ e

inductive Continues (v₀ : View) (e : SessionEvent) (share : Share) : Prop
  | accepted (rest : List Line) (h : resumed v₀ e = some (.write (.accepted share) rest))
  | waiting (wait : ShareWait) (rest : List Line) (h : resumed v₀ e = some (.share share wait rest))

inductive Waits (v₀ : View) (e : SessionEvent) (v : View) : Task → Prop
  | lines (rest : List Line) : Waits v₀ e v (.lines rest)
  | template (authorization : AuthorizationMessage) (purpose : Purpose) (hserves : Serves v₀ e)
      (h : v.session.clientAuthorization = some authorization) :
      Waits v₀ e v (.template authorization.address purpose)
  | share (share : Share) (wait : ShareWait) (rest : List Line) (h : Continues v₀ e share) :
      Waits v₀ e v (.share share wait rest)

def HeaderOf (cfg : Config) (share : Share) : Prop :=
  share.job.buildHeaderBuffer cfg.js share.jobTemplate share.versionMask share.nonce
    share.timestamp = some share.header

/-- What is written, and what the callback of the write goes on with. -/
inductive Writes (cfg : Config) (v₀ : View) (e : SessionEvent) (v : View) :
    Message → AfterWrite → Prop
  | configured (id : String) : Writes cfg v₀ e v (.configured id) .reply
  | refused (id : String) (code : eStratumErrorCode) (text : String) :
      Writes cfg v₀ e v (.error id code text) .reply
  | invalid (id : String) (code : eStratumErrorCode) (text : String) :
      Writes cfg v₀ e v (.error id code text) .invalidSubmit
  | initial (h : v.session.stratumInitialized = true) :
      Writes cfg v₀ e v (.setDifficulty v.session.sessionDifficulty) .setDifficulty
  | accepted (share : Share) (hheader : HeaderOf cfg share) (hmeets : share.Meets cfg.js)
      (hinitialized : v.session.stratumInitialized = true) :
      Writes cfg v₀ e v (.result share.submission.id) (.accepted share)
  | notify (params : IMiningNotify) (timestamp : ℕ) (hserves : Serves v₀ e) :
      Writes cfg v₀ e v (.notify params) (.notified timestamp)

structure RowKey where
  address : String
  clientName : String
  sessionId : String

def keyOf (client : ClientEntity) : RowKey := ⟨client.address, client.clientName, client.sessionId⟩

def statisticsKey : StatisticsCall → RowKey
  | .insert row | .update row => ⟨row.address, row.clientName, row.sessionId⟩

def newRow (s : Session) (authorization : AuthorizationMessage) (subscription : SubscriptionMessage) :
    ClientEntity where
  sessionId := s.extraNonceAndSessionId.getD ""
  address := authorization.address
  clientName := authorization.worker
  userAgent := subscription.userAgent
  bestDifficulty := 0
  updatedAt := none

/-- The calls that are made about an accepted share, with what they tell of the session. -/
inductive Calls (cfg : Config) (v : View) (share : Share) : Call → Prop
  | submitBlock (block : Block Number) (blockHex : Bytes) :
      Calls cfg v share (.submitBlock block blockHex)
  | saveBlock (authorization : AuthorizationMessage) (blockData : Bytes)
      (h : v.session.clientAuthorization = some authorization) :
      Calls cfg v share (.saveBlock share.jobTemplate.blockData.height authorization.address
        authorization.worker v.session.extraNonceAndSessionId blockData)
  | notifySubscribersBlockFound (address : String) (height : ℕ) :
      Calls cfg v share (.notifySubscribersBlockFound address height)
  | resetBestDifficultyAndShares : Calls cfg v share .resetBestDifficultyAndShares
  | reportBlockFound (block : Block Number) : Calls cfg v share (.reportBlockFound block)
  | statistics (call : StatisticsCall) (entity : ClientEntity)
      (h : v.session.entity = some entity) (hkey : statisticsKey call = keyOf entity) :
      Calls cfg v share (.statistics call)
  | heartbeat (entity : ClientEntity) (hashRate : Difficulty) (updatedAt : ℕ)
      (h : v.session.entity = some entity) :
      Calls cfg v share
        (.heartbeat entity.address entity.clientName entity.sessionId hashRate updatedAt)
  | updateClientBest (bestDifficulty : Difficulty) :
      Calls cfg v share (.updateClientBest v.session.extraNonceAndSessionId bestDifficulty)
  | updateAddressBest (address : String) (bestDifficulty : Difficulty) (userAgent : String) :
      Calls cfg v share (.updateAddressBest address bestDifficulty userAgent)
  | submitExternalShare (authorization : AuthorizationMessage) (subscription : SubscriptionMessage)
      (hauthorization : v.session.clientAuthorization = some authorization)
      (hsubscription : v.session.clientSubscription = some subscription) (minimumDifficulty : ℚ)
      (hminimum : cfg.externalShareDifficulty = some minimumDifficulty)
      (hle : (minimumDifficulty : Difficulty) ≤ share.submissionDifficulty cfg.js) :
      Calls cfg v share (.submitExternalShare authorization.address authorization.worker
        subscription.userAgent share.header)

inductive Logs (cfg : Config) (v₀ : View) (e : SessionEvent) (v : View) : Entry → Prop
  | template (address : String) (jobTemplate : IJobTemplate) :
      Logs cfg v₀ e v (.template address jobTemplate)
  | evaluated (share : Share) : Logs cfg v₀ e v (.evaluated share)
  | acknowledged (share : Share) (h : Continues v₀ e share) : Logs cfg v₀ e v (.acknowledged share)
  | credited (share : Share) (h : Continues v₀ e share) : Logs cfg v₀ e v (.credited share)
  | call (share : Share) (call : Call) (h : Continues v₀ e share) (hcalls : Calls cfg v share call) :
      Logs cfg v₀ e v (.call v.self (some share) call)
  | deleted (sessionId : String) (h : v.session.extraNonceAndSessionId = some sessionId) :
      Logs cfg v₀ e v (.call v.self none (.deleteClient sessionId))

/-- An event whose exceptions nobody catches: a difficulty timer, or the answer it waits for. -/
inductive Throws (v₀ : View) : SessionEvent → Prop
  | difficultyTimer : Throws v₀ .difficultyTimer
  | template (i : ℕ) (outcome : Outcome) (address : String)
      (h : v₀.session.tasks[i]? = some (.template address .vardiff)) :
      Throws v₀ (.resume i outcome)

/-- What of a session the other moves change. -/
structure Profile where
  connected : Bool
  randomHex : String
  connectionClosed : Bool
  socketDestroyed : Bool
  writableEnded : Bool
  writable : Bool
  destroyCalled : Bool
  clientSubscription : Option SubscriptionMessage
  clientAuthorization : Option AuthorizationMessage
  clientSuggestedDifficulty : Option ℚ
  stratumSubscription : Bool
  backgroundWork : Bool
  hasStatistics : Bool
  stratumInitialized : Bool
  isHobbyMinerSession : Bool
  row : Option RowKey
  creatingEntity : Option CreatingEntity
  extraNonceAndSessionId : Option String
  sessionStart : Option ℕ
  currentJobTemplate : Option IJobTemplate
  tasks : List Task
  wire : List Message

def profile (s : Session) : Profile where
  connected := s.connected
  randomHex := s.randomHex
  connectionClosed := s.connectionClosed
  socketDestroyed := s.socketDestroyed
  writableEnded := s.writableEnded
  writable := s.writable
  destroyCalled := s.destroyCalled
  clientSubscription := s.clientSubscription
  clientAuthorization := s.clientAuthorization
  clientSuggestedDifficulty := s.clientSuggestedDifficulty
  stratumSubscription := s.stratumSubscription
  backgroundWork := s.backgroundWork
  hasStatistics := s.statistics.isSome
  stratumInitialized := s.stratumInitialized
  isHobbyMinerSession := s.isHobbyMinerSession
  row := s.entity.map keyOf
  creatingEntity := s.creatingEntity
  extraNonceAndSessionId := s.extraNonceAndSessionId
  sessionStart := s.sessionStart
  currentJobTemplate := s.currentJobTemplate
  tasks := s.tasks
  wire := s.wire

theorem isSocketClosed_of_profile {s s' : Session} (h : profile s' = profile s) :
    s'.isSocketClosed = s.isSocketClosed := by
  have hclosed (s : Session) : s.isSocketClosed = ((profile s).connectionClosed ||
    (profile s).socketDestroyed || (profile s).writableEnded || !(profile s).writable) := rfl
  rw [hclosed, hclosed, h]

/-- One move of the handling of an event. -/
inductive Move (cfg : Config) (v₀ : View) (e : SessionEvent) (v : View) : View → Prop
  | erase (i : ℕ) : Move cfg v₀ e v (v.update fun s ↦ { s with tasks := s.tasks.eraseIdx i })
  | connect (randomHex : String) (h : v.session.connected = false) :
      Move cfg v₀ e v (v.update fun s ↦ { s with connected := true, randomHex })
  | wait (task : Task) (h : Waits v₀ e v task) : Move cfg v₀ e v (v.suspend task)
  | write (message : Message) (after : AfterWrite) (rest : List Line)
      (hopen : v.session.isSocketClosed = false) (h : Writes cfg v₀ e v message after) :
      Move cfg v₀ e v ((v.send message).suspend (.write after rest))
  | announce (hserves : Serves v₀ e) :
      Move cfg v₀ e v (v.send (.setDifficulty v.session.sessionDifficulty))
  | disconnect : Move cfg v₀ e v (v.update fun s ↦ { s with connectionClosed := true })
  | destroySocket : Move cfg v₀ e v (v.update fun s ↦ { s with socketDestroyed := true })
  | endSocket : Move cfg v₀ e v v.endSocket
  | unwritable : Move cfg v₀ e v (v.update fun s ↦ { s with writable := false })
  | halt (h : v.session.destroyCalled = false) :
      Move cfg v₀ e v (v.update fun s ↦
        { s with
          destroyCalled := true
          connectionClosed := true
          backgroundWork := false
          stratumSubscription := false
          currentJobTemplate := none })
  | log (entry : Entry) (h : Logs cfg v₀ e v entry) : Move cfg v₀ e v (v.log entry)
  | adjust (f : Session → Session) (h : profile (f v.session) = profile v.session) :
      Move cfg v₀ e v (v.update f)
  | begin (isHobbyMinerSession : Bool) (h : v.session.sessionStart = none) :
      Move cfg v₀ e v (v.update fun s ↦
        { s with
          sessionStart := some v.now
          statistics := some { submissionCacheStart := v.now }
          extraNonceAndSessionId := some s.randomHex
          isHobbyMinerSession })
  | create (authorization : AuthorizationMessage) (subscription : SubscriptionMessage) (share : Share)
      (hshare : Continues v₀ e share) (hcreating : v.session.creatingEntity = none) :
      Move cfg v₀ e v
        (((v.update fun s ↦ { s with creatingEntity := some .pending }).call (some share)
          (.insertClient (newRow v.session authorization subscription))).suspend
            (.insertClient (newRow v.session authorization subscription)))
  | enter (partialClient : ClientEntity) (updatedAt : Option ℕ)
      (h : resumed v₀ e = some (.insertClient partialClient)) :
      Move cfg v₀ e v (v.update fun s ↦ { s with entity := some { partialClient with updatedAt } })
  | reject (partialClient : ClientEntity)
      (h : resumed v₀ e = some (.insertClient partialClient)) :
      Move cfg v₀ e v (v.update fun s ↦ { s with creatingEntity := some .rejected })
  | subscribe (subscription : SubscriptionMessage) (rest : List Line)
      (h : v.session.sessionStart ≠ none) :
      Move cfg v₀ e v ((v.update fun s ↦ { s with clientSubscription := some subscription }).write
        (.subscribed subscription.id v.session.extraNonceAndSessionId
          (if v.session.isHobbyMinerSession then v.session.extraNonceAndSessionId else some ""))
        .reply rest)
  | authorize (authorization : AuthorizationMessage) (rest : List Line)
      (h : cfg.isBitcoinAddress authorization.address = true) :
      Move cfg v₀ e v
        ((v.update (authorized authorization)).write (.result authorization.id) .reply rest)
  | suggest (suggestedDifficulty : ℚ) (rest : List Line) :
      Move cfg v₀ e v ((v.update fun s ↦
        { s with
          clientSuggestedDifficulty := some suggestedDifficulty
          sessionDifficulty := suggestedDifficulty }).write
            (.setDifficulty suggestedDifficulty) .suggested rest)
  | initStratum (hsubscription : v.session.clientSubscription ≠ none)
      (hauthorization : v.session.clientAuthorization ≠ none) :
      Move cfg v₀ e v (v.update fun s ↦ { s with stratumInitialized := true })
  | start (h : v.session.stratumInitialized = true ∧ v.session.clientSuggestedDifficulty ≠ none ∨
        ∃ rest, resumed v₀ e = some (.write .setDifficulty rest)) :
      Move cfg v₀ e v (v.update fun s ↦ { s with stratumSubscription := true, backgroundWork := true })
  | cache (jobTemplate : IJobTemplate) (clear : Bool) (hserves : Serves v₀ e) :
      Move cfg v₀ e v (v.cacheTemplate jobTemplate clear)
  | build (address : String) (blockTemplate : IBlockTemplate) (jobsService : JobsService)
      (built : Option IJobTemplate)
      (h : v.jobsService.buildTemplateFor cfg.js address blockTemplate v.now = (jobsService, built)) :
      Move cfg v₀ e v { v with jobsService }
  | addJob (sent : SentJob) (hserves : Serves v₀ e) : Move cfg v₀ e v (v.addJob sent)
  | crash (h : Throws v₀ e) : Move cfg v₀ e v { v with crashed := true }

abbrev Trace (cfg : Config) (v₀ : View) (e : SessionEvent) : View → View → Prop :=
  Relation.ReflTransGen (Move cfg v₀ e)

namespace Trace

variable (v) (rest : List Line) (share : Share)

theorem refl : Trace cfg v₀ e v v := Relation.ReflTransGen.refl

variable {v} in
theorem one (h : Move cfg v₀ e v v') : Trace cfg v₀ e v v' := Relation.ReflTransGen.single h

theorem adjust {f : Session → Session} (h : profile (f v.session) = profile v.session) :
    Trace cfg v₀ e v (v.update f) := one (.adjust f h)

theorem touch (f : ClientEntity → ClientEntity) (hf : ∀ entity, keyOf (f entity) = keyOf entity) :
    Trace cfg v₀ e v (v.update fun s ↦ { s with entity := s.entity.map f }) := by
  apply adjust
  simp only [profile, Option.map_map, Function.comp_def, hf]

theorem nextLines : Trace cfg v₀ e v (v.nextLines rest) := by
  rw [View.nextLines]
  split
  · exact refl v
  · exact one (.wait _ (.lines rest))

theorem write {message : Message} {after : AfterWrite} (h : Writes cfg v₀ e v message after) :
    Trace cfg v₀ e v (v.write message after rest) := by
  rw [View.write]
  split
  · exact nextLines v rest
  case isFalse hopen => exact one (.write message after rest (Bool.eq_false_of_not_eq_true hopen) h)

theorem throw : Trace cfg v₀ e v (v.throw rest) :=
  (one .endSocket).trans (nextLines _ rest)

theorem destroy : Trace cfg v₀ e v v.destroy := by
  rw [View.destroy]
  split
  · exact refl v
  case isFalse hcalled =>
    have hhalt := Bool.eq_false_of_not_eq_true hcalled
    split
    case h_1 sessionId hsessionId =>
      exact (one (.halt hhalt)).trans (one (.log _ (.deleted sessionId hsessionId)))
    case h_2 => exact one (.halt hhalt)

theorem closeSocket : Trace cfg v₀ e v v.closeSocket :=
  ((one .disconnect).trans (destroy _)).trans (one .destroySocket)

/-- The end of a refresh: only an exception of the difficulty timer's is caught nowhere. -/
theorem finish {purpose : Purpose} {result : View × Bool} (h : Trace cfg v₀ e v result.1)
    (hthrows : purpose = .vardiff → Throws v₀ e) :
    Trace cfg v₀ e v (catchRefresh purpose result) := by
  obtain ⟨sent, thrown⟩ := result
  cases thrown with
  | false => exact h
  | true =>
    cases purpose with
    | newBlock => exact h.trans (one .endSocket)
    | refreshTimer => exact h
    | vardiff => exact h.trans (one (.crash (hthrows rfl)))

section Work

theorem copyHashRate : Trace cfg v₀ e v v.copyHashRate := by
  rw [View.copyHashRate]
  split
  · exact adjust v rfl
  · exact refl v

theorem cacheTemplate (hserves : Serves v₀ e) (jobTemplate : IJobTemplate) (clear : Bool) :
    Trace cfg v₀ e v (v.cacheTemplate jobTemplate clear) :=
  one (.cache jobTemplate clear hserves)

theorem sendNewMiningJob (hserves : Serves v₀ e) (jobTemplate : IJobTemplate) :
    Trace cfg v₀ e v (v.sendNewMiningJob cfg jobTemplate).1 := by
  rw [View.sendNewMiningJob]
  dsimp only
  split
  · exact refl v
  · have hcopied : Trace cfg v₀ e v v.copyHashRate := copyHashRate v
    split
    · have hcounted := hcopied.trans
        (adjust v.copyHashRate (f := fun s ↦
          { s with elektronPoolVersionCounter := v.copyHashRate.rotationState jobTemplate + 1 }) rfl)
      split
      · exact hcounted
      · refine (hcounted.trans (one (.addJob _ hserves))).trans (write _ [] ?_)
        exact .notify _ _ hserves
    · exact hcopied

theorem resendMiningJob (hserves : Serves v₀ e) (jobTemplate : IJobTemplate) :
    Trace cfg v₀ e v (v.resendMiningJob cfg jobTemplate).1 :=
  (cacheTemplate v hserves jobTemplate false).trans (sendNewMiningJob _ hserves _)

theorem suspendTemplate (hserves : Serves v₀ e) {authorization : AuthorizationMessage}
    (h : v.session.clientAuthorization = some authorization) (purpose : Purpose) :
    Trace cfg v₀ e v (v.suspend (.template authorization.address purpose)) :=
  one (.wait _ (.template authorization purpose hserves h))

theorem refreshMiningJob (hserves : Serves v₀ e) (purpose : Purpose) :
    Trace cfg v₀ e v (v.refreshMiningJob purpose) := by
  rw [View.refreshMiningJob]
  split
  · exact refl v
  · split
    case h_1 authorization hauthorization =>
      exact suspendTemplate v hserves hauthorization purpose
    case h_2 => exact refl v

theorem refreshLocalMiningWork (hserves : Serves v₀ e) :
    Trace cfg v₀ e v (v.refreshLocalMiningWork cfg) := by
  rw [View.refreshLocalMiningWork]
  split
  · exact refl v
  · split
    · exact refl v
    · split
      · exact refl v
      · exact sendNewMiningJob v hserves _

theorem sendUnchecked (hserves : Serves v₀ e) {difficulty : ℚ}
    (h : v.session.sessionDifficulty = difficulty) :
    Trace cfg v₀ e v (v.sendUnchecked (.setDifficulty difficulty)) := by
  rw [View.sendUnchecked]
  split
  · exact refl v
  · rw [← h]
    exact one (.announce hserves)

theorem receiveTemplate {i : ℕ} {address : String} {purpose : Purpose}
    (htask : v₀.session.tasks[i]? = some (.template address purpose)) (outcome : Outcome)
    (answer : Option IBlockTemplate) :
    Trace cfg v₀ (.resume i outcome) v (v.receiveTemplate cfg address purpose answer) := by
  have hserves : Serves v₀ (.resume i outcome) := .template _ address purpose htask
  have hthrows : purpose = .vardiff → Throws v₀ (.resume i outcome) := by
    rintro rfl
    exact .template i outcome address htask
  rw [View.receiveTemplate.eq_def]
  split
  case h_1 => exact finish v (refl v) hthrows
  case h_2 blockTemplate =>
    split
    case h_1 jobsService hbuild =>
      exact finish v (one (.build address blockTemplate jobsService none hbuild)) hthrows
    case h_2 jobsService jobTemplate hbuild =>
      have hlogged : Trace cfg v₀ (.resume i outcome) v
          ({ v with jobsService }.log (.template address jobTemplate)) :=
        (one (.build address blockTemplate jobsService _ hbuild)).trans
          (one (.log _ (.template address jobTemplate)))
      have hcached : Trace cfg v₀ (.resume i outcome) v (({ v with jobsService }.log
          (.template address jobTemplate)).cacheTemplate jobTemplate
            jobTemplate.blockData.clearJobs) :=
        hlogged.trans (cacheTemplate _ hserves jobTemplate _)
      split
      · exact finish v (hlogged.trans (resendMiningJob _ hserves jobTemplate)) hthrows
      · exact finish v (hcached.trans (sendNewMiningJob _ hserves jobTemplate)) hthrows
      · exact finish v (hcached.trans (sendNewMiningJob _ hserves jobTemplate)) hthrows

theorem checkDifficulty (hserves : Serves v₀ e) (hthrows : Throws v₀ e) :
    Trace cfg v₀ e v (v.checkDifficulty cfg) := by
  have hcrash (v : View) : Trace cfg v₀ e v { v with crashed := true } := one (.crash hthrows)
  rw [View.checkDifficulty]
  split
  · exact hcrash v
  · split
    · exact hcrash v
    · exact refl v
    case h_3 targetDiff _ =>
      split
      · exact refl v
      · dsimp only
        have htold : Trace cfg v₀ e v
            ((v.update fun s ↦ { s with sessionDifficulty := targetDiff }).sendUnchecked
              (.setDifficulty targetDiff)) :=
          (adjust v rfl).trans (sendUnchecked _ hserves rfl)
        split
        case h_1 _ _ jobTemplate hcached =>
          exact finish v (htold.trans (resendMiningJob _ hserves jobTemplate)) fun _ ↦ hthrows
        case h_2 _ _ authorization _ hauthorization =>
          exact htold.trans (suspendTemplate _ hserves hauthorization .vardiff)
        case h_3 => exact htold.trans (hcrash _)

end Work

section Initialisation

theorem startWork (h : v.session.stratumInitialized = true ∧
      v.session.clientSuggestedDifficulty ≠ none ∨
      ∃ rest, resumed v₀ e = some (.write .setDifficulty rest)) :
    Trace cfg v₀ e v (v.startWork rest) :=
  (one (.start h)).trans (nextLines _ rest)

theorem initStratum (subscription : SubscriptionMessage)
    (hsubscription : v.session.clientSubscription ≠ none)
    (hauthorization : v.session.clientAuthorization ≠ none) :
    Trace cfg v₀ e v (v.initStratum cfg rest subscription) := by
  have hinitialized : Trace cfg v₀ e v
      (v.update fun s ↦ { s with stratumInitialized := true }) :=
    one (.initStratum hsubscription hauthorization)
  rw [View.initStratum]
  dsimp only
  split
  · exact (hinitialized.trans (closeSocket _)).trans (nextLines _ rest)
  · have hdifficulty := hinitialized.trans (adjust _ (f := fun s ↦
      { s with sessionDifficulty := initialDifficulty cfg s subscription.userAgent }) rfl)
    split
    · exact hdifficulty.trans (write _ rest (.initial rfl))
    case isFalse hsuggested => exact hdifficulty.trans (startWork _ rest (.inl ⟨rfl, hsuggested⟩))

theorem finishMessage : Trace cfg v₀ e v (v.finishMessage cfg rest) := by
  rw [View.finishMessage]
  split
  case h_1 subscription authorization hsubscription hauthorization =>
    split
    · exact nextLines v rest
    · exact initStratum v rest subscription (by simp [hsubscription]) (by simp [hauthorization])
  case h_2 => exact nextLines v rest

end Initialisation

section Shares

theorem statisticsKey_addShares {statistics : StratumV1ClientStatistics} {client : ClientEntity}
    {date : ℕ} {submissionDifficulty : Difficulty} {saved : StatisticsCall × AddShares}
    (h : (statistics.addShares client date submissionDifficulty).2 = some saved) :
    statisticsKey saved.1 = keyOf client := by
  rw [StratumV1ClientStatistics.addShares] at h
  dsimp only at h
  split at h
  · cases h
    rfl
  · split at h
    · cases h
      rfl
    · split at h
      · cases h
        rfl
      · cases h

theorem statisticsKey_resumeAddShares {statistics : StratumV1ClientStatistics}
    {client : ClientEntity} {now : ℕ} {wait : AddShares} {saved : StatisticsCall × AddShares}
    (h : (statistics.resumeAddShares client now wait).2 = some saved) :
    statisticsKey saved.1 = keyOf client := by
  cases wait with
  | updatedOld timeSlot submissionDifficulty =>
    cases h
    rfl
  | insertedFirst | insertedNew | updated => cases h

variable {share} (hshare : Continues v₀ e share)
include hshare

theorem call {c : Call} (hcall : Calls cfg v share c) (wait : ShareWait) :
    Trace cfg v₀ e v ((v.call (some share) c).suspend (.share share wait rest)) :=
  (one (.log _ (.call share c hshare hcall))).trans (one (.wait _ (.share share wait rest hshare)))

theorem submitExternalShare : Trace cfg v₀ e v (v.submitExternalShare cfg share rest) := by
  rw [View.submitExternalShare]
  split
  case h_1 _ _ _ authorization subscription henabled hauthorization hsubscription =>
    obtain ⟨_, hsome, hle⟩ := (Option.any_eq_true _ _).mp henabled
    obtain ⟨minimumDifficulty, hminimum, hlift⟩ := Option.bind_eq_some_iff.mp hsome
    cases hlift
    exact (one (.log _ (.call share _ hshare (.submitExternalShare authorization subscription
      hauthorization hsubscription minimumDifficulty hminimum (of_decide_eq_true hle))))).trans
        (finishMessage _ rest)
  case h_2 => exact finishMessage v rest

theorem updateBestDifficulty : Trace cfg v₀ e v (v.updateBestDifficulty cfg share rest) := by
  rw [View.updateBestDifficulty]
  split
  · split
    · exact call v rest hshare (.updateClientBest _) _
    · exact submitExternalShare v rest hshare
  · exact submitExternalShare v rest hshare

theorem heartbeat : Trace cfg v₀ e v (v.heartbeat cfg share rest) := by
  rw [View.heartbeat]
  split
  · split
    · exact call v rest hshare (.heartbeat _ _ _ ‹_›) _
    · exact updateBestDifficulty v rest hshare
  · exact updateBestDifficulty v rest hshare

theorem afterAddShares {entity : ClientEntity} (h : v.session.statistics ≠ none)
    (hentity : v.session.entity = some entity)
    {added : StratumV1ClientStatistics × Option (StatisticsCall × AddShares)}
    (hkey : ∀ saved, added.2 = some saved → statisticsKey saved.1 = keyOf entity) :
    Trace cfg v₀ e v (v.afterAddShares cfg share rest added) := by
  obtain ⟨statistics, saved⟩ := added
  have hcounted : Trace cfg v₀ e v
      (v.update fun s ↦ { s with statistics := some statistics }) := by
    apply adjust
    obtain ⟨counted, hstatistics⟩ := Option.ne_none_iff_exists'.mp h
    simp only [profile, hstatistics, Option.isSome_some]
  cases saved with
  | none => exact hcounted.trans (heartbeat _ rest hshare)
  | some saved =>
    refine hcounted.trans (call _ rest hshare ?_ _)
    exact .statistics saved.1 entity hentity (hkey saved rfl)

theorem addShares {entity : ClientEntity} (hentity : v.session.entity = some entity) :
    Trace cfg v₀ e v (v.addShares cfg share rest entity) := by
  rw [View.addShares]
  split
  case h_1 statistics hstatistics =>
    refine (one (.log _ (.credited share hshare))).trans ?_
    apply afterAddShares (v.log (.credited share)) rest hshare _ hentity
    · intro saved hsaved
      exact statisticsKey_addShares hsaved
    · exact Option.ne_none_iff_exists'.mpr ⟨statistics, hstatistics⟩
  case h_2 => exact updateBestDifficulty v rest hshare

theorem ensureClientEntity : Trace cfg v₀ e v (v.ensureClientEntity cfg share rest) := by
  rw [View.ensureClientEntity]
  split
  case h_1 entity hentity => exact addShares v rest hshare hentity
  case h_2 =>
    split
    case h_1 _ _ _ authorization subscription hcreating _ _ =>
      exact (one (.create authorization subscription share hshare hcreating)).trans
        (one (.wait _ (.share share _ rest hshare)))
    case h_2 => exact one (.wait _ (.share share _ rest hshare))

theorem afterReply : Trace cfg v₀ e v (v.afterReply cfg share rest) := by
  have hlogged : Trace cfg v₀ e v (v.log (.acknowledged share)) :=
    one (.log _ (.acknowledged share hshare))
  rw [View.afterReply]
  split
  · split
    · exact hlogged.trans (throw _ rest)
    · split
      · exact hlogged.trans (throw _ rest)
      · exact hlogged.trans (call _ rest hshare (.submitBlock ..) _)
  · exact hlogged.trans (ensureClientEntity _ rest hshare)

theorem afterSubmitBlock (block : Block Number) (blockHex : Bytes) (response : String) :
    Trace cfg v₀ e v (v.afterSubmitBlock cfg share rest block blockHex response) := by
  rw [View.afterSubmitBlock]
  split
  · split
    case h_1 authorization hauthorization =>
      exact call v rest hshare (.saveBlock authorization blockHex hauthorization) _
    case h_2 => exact throw v rest
  · exact ensureClientEntity v rest hshare

theorem afterSaveBlock (block : Block Number) :
    Trace cfg v₀ e v (v.afterSaveBlock share rest block) := by
  rw [View.afterSaveBlock]
  split
  · exact call v rest hshare (.notifySubscribersBlockFound ..) _
  · exact throw v rest

theorem resumeAddShares (wait : AddShares) :
    Trace cfg v₀ e v (v.resumeAddShares cfg share rest wait) := by
  rw [View.resumeAddShares]
  split
  case h_1 statistics entity hstatistics hentity =>
    apply afterAddShares v rest hshare _ hentity
    · intro saved hsaved
      exact statisticsKey_resumeAddShares hsaved
    · exact Option.ne_none_iff_exists'.mpr ⟨statistics, hstatistics⟩
  case h_2 => exact updateBestDifficulty v rest hshare

theorem afterClientBest : Trace cfg v₀ e v (v.afterClientBest cfg share rest) := by
  rw [View.afterClientBest]
  have htouched : Trace cfg v₀ e v (v.update fun s ↦ { s with
      entity := s.entity.map fun entity ↦
        { entity with bestDifficulty := share.submissionDifficulty cfg.js } }) :=
    touch v _ fun _ ↦ rfl
  split
  · exact htouched.trans (call _ rest hshare (.updateAddressBest ..) _)
  · exact htouched.trans (submitExternalShare _ rest hshare)

theorem afterHeartbeat (now : ℕ) : Trace cfg v₀ e v (v.afterHeartbeat cfg share rest now) := by
  have htouched : Trace cfg v₀ e v (v.update fun s ↦ { s with
      entity := s.entity.map fun entity ↦ { entity with updatedAt := some now } }) :=
    touch v _ fun _ ↦ rfl
  exact htouched.trans (updateBestDifficulty _ rest hshare)

theorem resumeShare {wait : ShareWait} {outcome : Outcome}
    (hresume : v.resumeShare cfg share rest wait outcome = some v') : Trace cfg v₀ e v v' := by
  rw [View.resumeShare.eq_def] at hresume
  split at hresume
  all_goals try simp only [Option.some.injEq] at hresume
  all_goals try subst hresume
  · exact afterSubmitBlock v rest hshare _ _ _
  · exact afterSaveBlock v rest hshare _
  · exact call v rest hshare .resetBestDifficultyAndShares _
  · exact call v rest hshare (.reportBlockFound _) _
  · exact ensureClientEntity v rest hshare
  · exact throw v rest
  · exact throw v rest
  · exact throw v rest
  · exact throw v rest
  · obtain ⟨entity, hentity, rfl⟩ := Option.map_eq_some_iff.mp hresume
    exact addShares v rest hshare hentity
  · obtain ⟨-, hresume⟩ := Option.ite_none_right_eq_some.mp hresume
    cases hresume
    exact throw v rest
  · exact resumeAddShares v rest hshare _
  · exact afterHeartbeat v rest hshare _
  · exact updateBestDifficulty v rest hshare
  · exact updateBestDifficulty v rest hshare
  · exact afterClientBest v rest hshare
  · exact submitExternalShare v rest hshare
  · exact submitExternalShare v rest hshare
  · exact submitExternalShare v rest hshare
  · cases hresume

end Shares

section Messages

theorem judge (hinitialized : v.session.stratumInitialized = true)
    (hheader : HeaderOf cfg share) : Trace cfg v₀ e v (v.judge cfg rest share) := by
  have hlogged : Trace cfg v₀ e v (v.log (.evaluated share)) := one (.log _ (.evaluated share))
  rw [View.judge]
  split
  case isTrue hmeets => exact hlogged.trans (write _ rest (.accepted share hheader hmeets hinitialized))
  case isFalse => exact hlogged.trans (write _ rest (.refused ..))

theorem handleMiningSubmission (hinitialized : v.session.stratumInitialized = true)
    (submission : MiningSubmitMessage) :
    Trace cfg v₀ e v (v.handleMiningSubmission cfg rest submission) := by
  rw [View.handleMiningSubmission]
  split
  · exact write v rest (.refused ..)
  · split
    · exact write v rest (.refused ..)
    · split
      · exact write v rest (.refused ..)
      · have hnoted : Trace cfg v₀ e v (v.update fun s ↦
            { s with miningSubmissionHashes :=
                submissionHash submission :: s.miningSubmissionHashes }) := adjust v rfl
        dsimp only
        split
        · exact hnoted.trans (throw _ rest)
        case h_2 header hheader => exact hnoted.trans (judge _ rest _ hinitialized hheader)

theorem subscribe (message : SubscriptionMessage) :
    Trace cfg v₀ e v (v.subscribe cfg rest message) := by
  rw [View.subscribe]
  split
  · exact (closeSocket v).trans (nextLines _ rest)
  · dsimp only
    split
    case isTrue hstart =>
      exact (one (.begin _ hstart)).trans (one (.subscribe message rest (Option.some_ne_none _)))
    case isFalse hstart => exact one (.subscribe message rest hstart)

theorem authorize (message : AuthorizationMessage) :
    Trace cfg v₀ e v (v.authorize cfg rest message) := by
  rw [View.authorize]
  split
  case isTrue haddress => exact one (.authorize message rest haddress)
  case isFalse => exact write v rest (.refused ..)

theorem invalid (method : eRequestMethod) (id : String) :
    Trace cfg v₀ e v (v.invalid rest method id) := by
  cases method with
  | submit => exact write v rest (.invalid ..)
  | subscribe | configure | authorize | suggestDifficulty => exact write v rest (.refused ..)

theorem handleMessage (line : Line) : Trace cfg v₀ e v (v.handleMessage cfg rest line) := by
  have hthrow : Trace cfg v₀ e v (v.endSocket.nextLines rest) := throw v rest
  cases line with
  | malformed => exact hthrow
  | throws method =>
    rw [View.handleMessage]
    split
    · exact nextLines v rest
    · exact hthrow
  | invalid method id =>
    rw [View.handleMessage]
    split
    · exact nextLines v rest
    · split
      · exact hthrow
      · exact invalid v rest method id
  | subscribe message => exact subscribe v rest message
  | configure id => exact write v rest (.configured id)
  | authorize message => exact authorize v rest message
  | suggestDifficulty id suggestedDifficulty =>
    rw [View.handleMessage]
    split
    · exact nextLines v rest
    · exact one (.suggest suggestedDifficulty rest)
  | submit submission =>
    rw [View.handleMessage]
    split
    · exact hthrow
    case isFalse hrefuses =>
      apply handleMiningSubmission v rest
      simpa only [View.refuses, decide_true, Bool.true_and, Bool.not_eq_true', Bool.not_eq_false]
        using hrefuses
  | other => exact finishMessage v rest

theorem handleLines (lines : List Line) : Trace cfg v₀ e v (v.handleLines cfg lines) := by
  cases lines with
  | nil => exact refl v
  | cons line rest =>
    rw [View.handleLines]
    split
    · exact refl v
    · exact handleMessage v rest line

end Messages

section Tasks

theorem resumeWrite {after : AfterWrite} {outcome : Outcome}
    (htask : resumed v₀ e = some (.write after rest))
    (hresume : v.resumeWrite cfg after rest outcome = some v') : Trace cfg v₀ e v v' := by
  cases outcome with
  | done =>
    rw [View.resumeWrite.eq_def] at hresume
    dsimp only at hresume
    split at hresume
    · cases hresume
      exact nextLines v rest
    · cases hresume
      cases after with
      | reply => exact finishMessage v rest
      | suggested => exact (adjust v rfl).trans (finishMessage _ rest)
      | invalidSubmit => exact (closeSocket v).trans (nextLines _ rest)
      | accepted share => exact afterReply v rest (.accepted rest htask)
      | setDifficulty => exact startWork v rest (.inr ⟨rest, htask⟩)
      | notified timestamp => exact (adjust v rfl).trans (nextLines _ rest)
  | failed =>
    cases hresume
    exact ((destroy v).trans (one .destroySocket)).trans (nextLines _ rest)
  | answered | submitted | inserted => cases hresume

theorem resumeTask {i : ℕ} {task : Task} {outcome : Outcome}
    (htask : v₀.session.tasks[i]? = some task)
    (hresume : v.resumeTask cfg task outcome = some v') :
    Trace cfg v₀ (.resume i outcome) v v' := by
  rw [View.resumeTask.eq_def] at hresume
  split at hresume
  case h_1 =>
    cases hresume
    exact handleLines v _
  case h_2 => exact resumeWrite v _ htask hresume
  case h_3 =>
    cases hresume
    exact receiveTemplate v htask _ _
  case h_4 =>
    cases hresume
    exact receiveTemplate v htask _ _
  case h_5 => exact resumeShare v _ (.waiting _ _ htask) hresume
  case h_6 partialClient updatedAt =>
    cases hresume
    exact one (.enter partialClient updatedAt htask)
  case h_7 partialClient =>
    cases hresume
    exact one (.reject partialClient htask)
  case h_8 => cases hresume

variable {v} in
/-- Every callback is a sequence of moves. -/
theorem of_act (h : v.act cfg e = some v') : Trace cfg v e v v' := by
  cases acts_of_act h with
  | connect randomHex hconnected => exact one (.connect randomHex hconnected)
  | data lines => exact nextLines v lines
  | newBlock hworks => exact refreshMiningJob v (.newBlock hworks) .newBlock
  | refreshTimer hworks => exact refreshMiningJob v (.refreshTimer hworks) .refreshTimer
  | localTimer hworks => exact refreshLocalMiningWork v (.localTimer hworks)
  | difficultyTimer hworks => exact checkDifficulty v (.difficultyTimer hworks) .difficultyTimer
  | socketEnd => exact one .disconnect
  | socketClose => exact closeSocket v
  | socketUnwritable => exact one .unwritable
  | resume i outcome task _ htask hresume =>
    exact (one (.erase i)).trans (resumeTask _ htask hresume)

end Tasks

end Trace

end ElektronPool.Moves
