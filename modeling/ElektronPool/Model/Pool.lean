import ElektronPool.Lib.Runs
import ElektronPool.Model.Client

namespace ElektronPool.Model

open Lib Lib.JavaScript

/-- What a suspended function is resumed with. -/
inductive Outcome
  | done
  | failed
  | answered (blockTemplate : IBlockTemplate)
  | submitted (response : String)
  | inserted (updatedAt : Option ℕ)
deriving DecidableEq

/-- What happens at one session. -/
inductive SessionEvent
  | connect (randomHex : String)
  | data (lines : List Line)
  | newBlock
  | refreshTimer
  | localTimer
  | difficultyTimer
  | socketEnd
  | socketClose
  | socketUnwritable
  | resume (i : ℕ) (outcome : Outcome)
deriving DecidableEq

namespace View

variable (cfg : Config) (v : View)

def resumeWrite (after : AfterWrite) (rest : List Line) : Outcome → Option View
  | .done =>
    if v.session.isSocketClosed then some (v.nextLines rest)
    else some <|
      match after with
      | .reply => v.finishMessage cfg rest
      | .suggested =>
        (v.update fun s ↦ { s with usedSuggestedDifficulty := true }).finishMessage cfg rest
      | .invalidSubmit => v.closeSocket.nextLines rest
      | .accepted share => v.afterReply cfg share rest
      | .setDifficulty => v.startWork rest
      | .notified timestamp =>
        (v.update fun s ↦
          { s with
            lastSentMiningJobTimestamp := some timestamp
            lastLocalWorkSentAt := v.now }).nextLines rest
  | .failed => some ((v.destroy.update fun s ↦ { s with socketDestroyed := true }).nextLines rest)
  | _ => none

section Shares

variable (share : Share) (rest : List Line)

def throw : View := v.endSocket.nextLines rest

/-- What follows the answer of `submitblock`: only an accepted block is recorded. -/
def afterSubmitBlock (block : Block Number) (blockHex : Bytes) (response : String) : View :=
  if response = "SUCCESS!" then
    match v.session.clientAuthorization with
    | some authorization =>
      (v.call (some share) (.saveBlock share.jobTemplate.blockData.height authorization.address
        authorization.worker v.session.extraNonceAndSessionId blockHex)).suspend
        (.share share (.saveBlock block) rest)
    | none => v.throw rest
  else v.ensureClientEntity cfg share rest

def afterSaveBlock (block : Block Number) : View :=
  match v.session.clientAuthorization with
  | some authorization =>
    (v.call (some share) (.notifySubscribersBlockFound authorization.address
      share.jobTemplate.blockData.height)).suspend (.share share (.notifySubscribers block) rest)
  | none => v.throw rest

def resumeAddShares (wait : AddShares) : View :=
  match v.session.statistics, v.session.entity with
  | some statistics, some entity =>
    v.afterAddShares cfg share rest (statistics.resumeAddShares entity v.now wait)
  | _, _ => v.updateBestDifficulty cfg share rest

def afterClientBest : View :=
  let v := v.update fun s ↦
    { s with entity := s.entity.map fun entity ↦
      { entity with bestDifficulty := share.submissionDifficulty cfg.js } }
  match v.session.clientAuthorization, v.session.entity with
  | some authorization, some entity =>
    (v.call (some share) (.updateAddressBest authorization.address
      (share.submissionDifficulty cfg.js) entity.userAgent)).suspend
      (.share share .addressBest rest)
  | _, _ => v.submitExternalShare cfg share rest

def afterHeartbeat (now : ℕ) : View :=
  (v.update fun s ↦
    { s with entity := s.entity.map fun entity ↦ { entity with updatedAt := some now } })
    |>.updateBestDifficulty cfg share rest

def resumeShare : ShareWait → Outcome → Option View
  | .submitBlock block blockHex, .submitted response =>
    some (v.afterSubmitBlock cfg share rest block blockHex response)
  | .saveBlock block, .done => some (v.afterSaveBlock share rest block)
  | .notifySubscribers block, .done =>
    some ((v.call (some share) .resetBestDifficultyAndShares).suspend
      (.share share (.resetBest block) rest))
  | .resetBest block, .done =>
    some ((v.call (some share) (.reportBlockFound block)).suspend (.share share .reportBlock rest))
  | .reportBlock, .done => some (v.ensureClientEntity cfg share rest)
  | .saveBlock _, .failed | .notifySubscribers _, .failed | .resetBest _, .failed
  | .reportBlock, .failed => some (v.throw rest)
  | .clientEntity, .done => v.session.entity.map fun entity ↦ v.addShares cfg share rest entity
  | .clientEntity, .failed =>
    if v.session.creatingEntity = some .rejected then some (v.throw rest) else none
  | .addShares wait, .done => some (v.resumeAddShares cfg share rest wait)
  | .heartbeat now, .done => some (v.afterHeartbeat cfg share rest now)
  | .addShares _, .failed | .heartbeat _, .failed => some (v.updateBestDifficulty cfg share rest)
  | .clientBest, .done => some (v.afterClientBest cfg share rest)
  | .clientBest, .failed | .addressBest, .done | .addressBest, .failed =>
    some (v.submitExternalShare cfg share rest)
  | _, _ => none

end Shares

def resumeTask : Task → Outcome → Option View
  | .lines rest, .done => some (v.handleLines cfg rest)
  | .write after rest, outcome => v.resumeWrite cfg after rest outcome
  | .template address purpose, .answered blockTemplate =>
    some (v.receiveTemplate cfg address purpose (some blockTemplate))
  | .template address purpose, .failed => some (v.receiveTemplate cfg address purpose none)
  | .share share wait rest, outcome => v.resumeShare cfg share rest wait outcome
  | .insertClient partialClient, .inserted updatedAt =>
    some (v.update fun s ↦ { s with entity := some { partialClient with updatedAt } })
  | .insertClient _, .failed =>
    some (v.update fun s ↦ { s with creatingEntity := some .rejected })
  | _, _ => none

/-- One callback of the event loop, up to the waits it ends in. -/
def act : SessionEvent → Option View
  | .connect randomHex =>
    if v.session.connected then none
    else some (v.update fun s ↦ { s with connected := true, randomHex })
  | .data lines => if v.session.connected then some (v.nextLines lines) else none
  | .newBlock =>
    if v.session.stratumSubscription then some (v.refreshMiningJob .newBlock) else none
  | .refreshTimer =>
    if v.session.backgroundWork then some (v.refreshMiningJob .refreshTimer) else none
  | .localTimer =>
    if v.session.backgroundWork then some (v.refreshLocalMiningWork cfg) else none
  | .difficultyTimer => if v.session.backgroundWork then some (v.checkDifficulty cfg) else none
  | .socketEnd =>
    if v.session.connected then some (v.update fun s ↦ { s with connectionClosed := true })
    else none
  | .socketClose => if v.session.connected then some v.closeSocket else none
  | .socketUnwritable =>
    if v.session.connected then some (v.update fun s ↦ { s with writable := false }) else none
  | .resume i outcome =>
    v.session.tasks[i]?.bind fun task ↦
      (v.update fun s ↦ { s with tasks := s.tasks.eraseIdx i }).resumeTask cfg task outcome

inductive Acts : SessionEvent → View → Prop
  | connect (randomHex : String) (h : v.session.connected = false) :
    Acts (.connect randomHex) (v.update fun s ↦ { s with connected := true, randomHex })
  | data (lines : List Line) (h : v.session.connected = true) : Acts (.data lines) (v.nextLines lines)
  | newBlock (h : v.session.stratumSubscription = true) :
    Acts .newBlock (v.refreshMiningJob .newBlock)
  | refreshTimer (h : v.session.backgroundWork = true) :
    Acts .refreshTimer (v.refreshMiningJob .refreshTimer)
  | localTimer (h : v.session.backgroundWork = true) :
    Acts .localTimer (v.refreshLocalMiningWork cfg)
  | difficultyTimer (h : v.session.backgroundWork = true) :
    Acts .difficultyTimer (v.checkDifficulty cfg)
  | socketEnd (h : v.session.connected = true) :
    Acts .socketEnd (v.update fun s ↦ { s with connectionClosed := true })
  | socketClose (h : v.session.connected = true) : Acts .socketClose v.closeSocket
  | socketUnwritable (h : v.session.connected = true) :
    Acts .socketUnwritable (v.update fun s ↦ { s with writable := false })
  | resume (i : ℕ) (outcome : Outcome) (task : Task) (v' : View)
      (htask : v.session.tasks[i]? = some task)
      (h : (v.update fun s ↦ { s with tasks := s.tasks.eraseIdx i }).resumeTask cfg task outcome =
        some v') : Acts (.resume i outcome) v'

variable {cfg v} in
theorem acts_of_act {e : SessionEvent} {v' : View} (h : v.act cfg e = some v') : v.Acts cfg e v' := by
  cases e with
  | connect randomHex =>
    obtain ⟨hconnected, h⟩ := Option.ite_none_left_eq_some.mp h
    cases h
    exact .connect randomHex (Bool.eq_false_of_not_eq_true hconnected)
  | data lines =>
    obtain ⟨hconnected, h⟩ := Option.ite_none_right_eq_some.mp h
    cases h
    exact .data lines hconnected
  | newBlock =>
    obtain ⟨hsubscribed, h⟩ := Option.ite_none_right_eq_some.mp h
    cases h
    exact .newBlock hsubscribed
  | refreshTimer =>
    obtain ⟨hworks, h⟩ := Option.ite_none_right_eq_some.mp h
    cases h
    exact .refreshTimer hworks
  | localTimer =>
    obtain ⟨hworks, h⟩ := Option.ite_none_right_eq_some.mp h
    cases h
    exact .localTimer hworks
  | difficultyTimer =>
    obtain ⟨hworks, h⟩ := Option.ite_none_right_eq_some.mp h
    cases h
    exact .difficultyTimer hworks
  | socketEnd =>
    obtain ⟨hconnected, h⟩ := Option.ite_none_right_eq_some.mp h
    cases h
    exact .socketEnd hconnected
  | socketClose =>
    obtain ⟨hconnected, h⟩ := Option.ite_none_right_eq_some.mp h
    cases h
    exact .socketClose hconnected
  | socketUnwritable =>
    obtain ⟨hconnected, h⟩ := Option.ite_none_right_eq_some.mp h
    cases h
    exact .socketUnwritable hconnected
  | resume i outcome =>
    obtain ⟨task, htask, h⟩ := Option.bind_eq_some_iff.mp h
    exact .resume i outcome task v' htask h

end View

/-- The pool process: its clock, the shared registry, and every session. -/
structure Pool where
  now : ℕ
  jobsService : JobsService
  sessions : SessionId → Session
  history : List Entry
  crashed : Bool

inductive Event
  | tick (milliseconds : ℕ)
  | session (id : SessionId) (event : SessionEvent)

namespace Pool

def start (now : ℕ) : Pool where
  now
  jobsService := {}
  sessions _ := {}
  history := []
  crashed := false

def view (pool : Pool) (id : SessionId) : View where
  now := pool.now
  self := id
  jobsService := pool.jobsService
  session := pool.sessions id
  history := pool.history
  crashed := pool.crashed

def put (pool : Pool) (id : SessionId) (v : View) : Pool where
  now := pool.now
  jobsService := v.jobsService
  sessions := Function.update pool.sessions id v.session
  history := v.history
  crashed := v.crashed

theorem sessions_put_self (pool : Pool) (id : SessionId) (v : View) :
    (pool.put id v).sessions id = v.session := Function.update_self ..

theorem sessions_put_of_ne {id id' : SessionId} (h : id' ≠ id) (pool : Pool) (v : View) :
    (pool.put id v).sessions id' = pool.sessions id' := Function.update_of_ne h ..

/-- A crash of the process ends the run. -/
def step (cfg : Config) (pool : Pool) (event : Event) : Option Pool :=
  if pool.crashed then none
  else
    match event with
    | .tick milliseconds => some { pool with now := pool.now + milliseconds }
    | .session id event => ((pool.view id).act cfg event).map (pool.put id)

end Pool

end ElektronPool.Model
