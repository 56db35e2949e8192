import ElektronPool.Model.ClientStatistics
import ElektronPool.Model.JobsService

namespace ElektronPool.Model

open Lib Lib.JavaScript

abbrev SessionId := ℕ

/-- The settings of the process, and the library it calls. -/
structure Config where
  js : BitcoinJs
  /-- `none` when `NETWORK` names none of the known networks -/
  network : Option Network
  isBlockedUserAgent : String → Bool
  isHobbyMiner : String → Bool
  hobbyMinerDifficulty : ℚ
  /-- the minimum difficulty of an external share, when their submission is enabled -/
  externalShareDifficulty : Option ℚ
  /-- the frames of the call stack -/
  stack : ℕ

inductive eRequestMethod
  | subscribe
  | configure
  | authorize
  | suggestDifficulty
  | submit
deriving DecidableEq

inductive eStratumErrorCode
  | otherUnknown
  | jobNotFound
  | duplicateShare
  | lowDifficultyShare
deriving DecidableEq

def eStratumErrorCode.code : eStratumErrorCode → ℕ
  | .otherUnknown => 20
  | .jobNotFound => 21
  | .duplicateShare => 22
  | .lowDifficultyShare => 23

structure SubscriptionMessage where
  id : String
  userAgent : String
deriving DecidableEq

structure AuthorizationMessage where
  id : String
  address : String
  worker : String
  startingDiff : Option ℕ
deriving DecidableEq

structure MiningSubmitMessage where
  id : String
  jobId : String
  extraNonce2 : String
  ntime : String
  nonce : String
  versionMask : String
deriving DecidableEq

/-- A line from the miner, as far as parsing and the validation decorators take it. -/
inductive Line
  | malformed
  /-- a transform of the message class throws -/
  | throws (method : eRequestMethod)
  | invalid (method : eRequestMethod) (id : String)
  | subscribe (message : SubscriptionMessage)
  | configure (id : String)
  | authorize (message : AuthorizationMessage)
  | suggestDifficulty (id : String) (suggestedDifficulty : ℚ)
  | submit (message : MiningSubmitMessage)
  | other
deriving DecidableEq

/-- A line to the miner. -/
inductive Message
  | subscribed (id : String) (clientId : Option String) (extranonce1 : Option String)
  | configured (id : String)
  | result (id : String)
  | error (id : String) (code : eStratumErrorCode) (text : String)
  | setDifficulty (difficulty : ℚ)
  | notify (params : IMiningNotify)
deriving DecidableEq

/-- The locals of `handleMiningSubmission` once the header is built. The number
of the submission, its session and the difficulty it is held against are kept for
reference. -/
structure Share where
  serial : ℕ
  session : SessionId
  sessionDifficulty : ℚ
  submission : MiningSubmitMessage
  job : MiningJob
  jobTemplate : IJobTemplate
  header : Bytes
deriving DecidableEq

namespace Share

variable (share : Share)

def versionMask : Number := parseInt16 share.submission.versionMask
def nonce : Number := parseInt16 share.submission.nonce
def timestamp : Number := parseInt16 share.submission.ntime

def submissionDifficulty (js : BitcoinJs) : Difficulty := calculateDifficulty js share.header

def Meets (js : BitcoinJs) : Prop :=
  (share.sessionDifficulty : Difficulty) ≤ share.submissionDifficulty js

instance (js : BitcoinJs) : Decidable (share.Meets js) := inferInstanceAs (Decidable (_ ≤ _))

def IsBlock (js : BitcoinJs) : Prop :=
  share.jobTemplate.blockData.networkDifficulty ≤ share.submissionDifficulty js

instance (js : BitcoinJs) : Decidable (share.IsBlock js) := inferInstanceAs (Decidable (_ ≤ _))

end Share

inductive Call
  | deleteClient (sessionId : String)
  | submitBlock (block : Block Number) (blockHex : Bytes)
  | saveBlock (height : ℕ) (minerAddress worker : String) (sessionId : Option String)
      (blockData : Bytes)
  | notifySubscribersBlockFound (address : String) (height : ℕ)
  | resetBestDifficultyAndShares
  | reportBlockFound (block : Block Number)
  | insertClient (partialClient : ClientEntity)
  | statistics (call : StatisticsCall)
  | heartbeat (address clientName sessionId : String) (hashRate : Difficulty) (updatedAt : ℕ)
  | updateClientBest (sessionId : Option String) (bestDifficulty : Difficulty)
  | updateAddressBest (address : String) (bestDifficulty : Difficulty) (userAgent : String)
  | submitExternalShare (address worker userAgent : String) (header : Bytes)
deriving DecidableEq

inductive Purpose
  | newBlock
  | refreshTimer
  | vardiff
deriving DecidableEq

inductive AfterWrite
  | reply
  | suggested
  | invalidSubmit
  | accepted (share : Share)
  | setDifficulty
  | notified (timestamp : ℕ)
deriving DecidableEq

/-- What an accepted share waits for. -/
inductive ShareWait
  | submitBlock (block : Block Number) (blockHex : Bytes)
  | saveBlock (block : Block Number)
  | notifySubscribers (block : Block Number)
  | resetBest (block : Block Number)
  | reportBlock
  | clientEntity
  | addShares (wait : AddShares)
  | heartbeat (now : ℕ)
  | clientBest
  | addressBest
deriving DecidableEq

/-- A suspended function of a session; `rest` are the lines still to be handled after it. -/
inductive Task
  | lines (rest : List Line)
  | write (after : AfterWrite) (rest : List Line)
  | template (address : String) (purpose : Purpose)
  | share (share : Share) (wait : ShareWait) (rest : List Line)
  | insertClient (partialClient : ClientEntity)
deriving DecidableEq

inductive CreatingEntity
  | pending
  | rejected
deriving DecidableEq

/-- A `mining.notify` that was written, with the template it was built from and
the session's state when it was. -/
structure SentJob where
  params : IMiningNotify
  job : MiningJob
  jobTemplate : IJobTemplate
  rotationState : ℕ
  submissionHashes : List String
deriving DecidableEq

structure Session where
  connected : Bool := false
  randomHex : String := ""
  connectionClosed : Bool := false
  socketDestroyed : Bool := false
  writableEnded : Bool := false
  writable : Bool := true
  destroyCalled : Bool := false
  clientSubscription : Option SubscriptionMessage := none
  clientAuthorization : Option AuthorizationMessage := none
  clientSuggestedDifficulty : Option ℚ := none
  stratumSubscription : Bool := false
  backgroundWork : Bool := false
  statistics : Option StratumV1ClientStatistics := none
  stratumInitialized : Bool := false
  usedSuggestedDifficulty : Bool := false
  sessionDifficulty : ℚ := 100000
  isHobbyMinerSession : Bool := false
  entity : Option ClientEntity := none
  creatingEntity : Option CreatingEntity := none
  extraNonceAndSessionId : Option String := none
  sessionStart : Option ℕ := none
  hashRate : Difficulty := 0
  lastSentMiningJobTimestamp : Option ℕ := none
  miningSubmissionHashes : List String := []
  elektronPoolVersionCounter : ℕ := 0
  currentJobTemplate : Option IJobTemplate := none
  lastLocalWorkSentAt : ℕ := 0
  tasks : List Task := []
  /-- every line written to the socket, last first -/
  wire : List Message := []
  /-- every job among them -/
  sentJobs : List SentJob := []

/-- What the process has done so far, last first. -/
inductive Entry
  | template (coinbaseAddress : String) (jobTemplate : IJobTemplate)
  | job (session : SessionId) (job : MiningJob) (jobTemplate : IJobTemplate)
  | evaluated (share : Share)
  | acknowledged (share : Share)
  | credited (share : Share)
  | call (session : SessionId) (share : Option Share) (call : Call)
deriving DecidableEq

/-- What the code of one session acts on. -/
structure View where
  now : ℕ
  self : SessionId
  jobsService : JobsService
  session : Session
  history : List Entry
  crashed : Bool

namespace Session

variable (session : Session)

def isSocketClosed : Bool :=
  session.connectionClosed || session.socketDestroyed || session.writableEnded || !session.writable

end Session

namespace View

variable (v : View)

def update (f : Session → Session) : View := { v with session := f v.session }

def log (entry : Entry) : View := { v with history := entry :: v.history }

def call (share : Option Share) (call : Call) : View := v.log (.call v.self share call)

def suspend (task : Task) : View := v.update fun s ↦ { s with tasks := s.tasks ++ [task] }

def nextLines (rest : List Line) : View := if rest = [] then v else v.suspend (.lines rest)

def send (message : Message) : View := v.update fun s ↦ { s with wire := message :: s.wire }

/-- `write`: the line goes out unless the socket is closed, and the function
waits for the callback. A write that fails ends the handling of its message. -/
def write (message : Message) (after : AfterWrite) (rest : List Line) : View :=
  if v.session.isSocketClosed then v.nextLines rest
  else (v.send message).suspend (.write after rest)

def endSocket : View := v.update fun s ↦ { s with writableEnded := true }

def destroy : View :=
  if v.session.destroyCalled then v
  else
    let stopped := v.update fun s ↦
      { s with
        destroyCalled := true
        connectionClosed := true
        backgroundWork := false
        stratumSubscription := false
        currentJobTemplate := none }
    match v.session.extraNonceAndSessionId with
    | some sessionId => stopped.call none (.deleteClient sessionId)
    | none => stopped

def closeSocket : View :=
  ((v.update fun s ↦ { s with connectionClosed := true }).destroy).update fun s ↦
    { s with socketDestroyed := true }

end View

end ElektronPool.Model
