import ElektronPool.Model.Session

namespace ElektronPool.Model

open Lib Lib.JavaScript

/-- BIP320 version bits 13 to 16, which the pool rotates itself. -/
def elektronPoolVersionBitsMask : BitVec 32 := 0x0001e000

/-- The version of a job: the template's with the rotation state in the pool's bits. -/
def rotatedVersion (version : ℤ) (rotationState : ℕ) : ℕ :=
  let poolVersionBits := BitVec.ofNat 32 rotationState <<< 13
  ((BitVec.ofInt 32 version &&& ~~~elektronPoolVersionBitsMask) |||
    (poolVersionBits &&& elektronPoolVersionBitsMask)).toNat

def versionedJobTemplate (jobTemplate : IJobTemplate) (rotationState : ℕ) : IJobTemplate :=
  { jobTemplate with
    block := { jobTemplate.block with
      version := rotatedVersion jobTemplate.block.version (rotationState % 16) } }

def retimedJobTemplate (jobTemplate : IJobTemplate) (timestamp : ℕ) (clearJobs : Bool) :
    IJobTemplate :=
  { jobTemplate with
    block := { jobTemplate.block with timestamp }
    blockData := { jobTemplate.blockData with clearJobs } }

/-- Properties every JavaScript object has; they are never job ids, yet found as one. -/
def inheritedNames : List String :=
  ["constructor", "__defineGetter__", "__defineSetter__", "hasOwnProperty", "__lookupGetter__",
    "__lookupSetter__", "isPrototypeOf", "propertyIsEnumerable", "toString", "valueOf",
    "__proto__", "toLocaleString"]

/-- The key of the duplicate check. -/
def submissionHash (submission : MiningSubmitMessage) : String :=
  ":".intercalate [submission.jobId, submission.extraNonce2, submission.ntime, submission.nonce,
    submission.versionMask]

namespace Config

variable (cfg : Config)

def isBitcoinAddress (address : String) : Bool :=
  cfg.network.any fun network ↦ (cfg.js.toOutputScript network address).isSome

end Config

namespace View

variable (cfg : Config) (v : View)

section Work

def copyHashRate : View :=
  match v.session.entity, v.session.statistics with
  | some _, some statistics => v.update fun s ↦ { s with hashRate := statistics.hashRate }
  | _, _ => v

/-- The rotation starts again with a job for a new block. -/
def rotationState (jobTemplate : IJobTemplate) : ℕ :=
  if jobTemplate.blockData.clearJobs then 0 else v.session.elektronPoolVersionCounter

def countJob (rotationState : ℕ) : View :=
  v.update fun s ↦ { s with elektronPoolVersionCounter := rotationState + 1 }

def addJob (sent : SentJob) : View :=
  { v with
    jobsService := v.jobsService.addJob sent.job
    history := .job v.self sent.job sent.jobTemplate :: v.history
    session := { v.session with sentJobs := sent :: v.session.sentJobs } }

/-- `sendNewMiningJob`, and whether it throws. -/
def sendNewMiningJob (jobTemplate : IJobTemplate) : View × Bool :=
  if v.session.isSocketClosed then (v, false)
  else
    let v := v.copyHashRate
    match v.session.clientAuthorization, cfg.network with
    | some authorization, some network =>
      let rotationState := v.rotationState jobTemplate
      let v := v.countJob rotationState
      let versioned := versionedJobTemplate jobTemplate rotationState
      match MiningJob.new cfg.js network v.jobsService.getNextId [⟨authorization.address, 100⟩]
          versioned v.now with
      | none => (v, true)
      | some job =>
        let sent : SentJob :=
          { params := job.response versioned, job, jobTemplate, rotationState,
            submissionHashes := v.session.miningSubmissionHashes }
        ((v.addJob sent).write (.notify sent.params) (.notified jobTemplate.block.timestamp) [],
          false)
    | _, _ => (v, true)

def catchRefresh (purpose : Purpose) : View × Bool → View
  | (v, false) => v
  | (v, true) =>
    match purpose with
    | .newBlock => v.endSocket
    | .refreshTimer => v
    | .vardiff => { v with crashed := true }

def refreshMiningJob (purpose : Purpose) : View :=
  if v.session.isSocketClosed then v
  else
    match v.session.clientAuthorization with
    | some authorization => v.suspend (.template authorization.address purpose)
    | none => v

def cacheTemplate (jobTemplate : IJobTemplate) (clear : Bool) : View :=
  v.update fun s ↦
    { s with
      currentJobTemplate := some jobTemplate
      miningSubmissionHashes := if clear then [] else s.miningSubmissionHashes }

/-- The work with the new difficulty, at a timestamp not sent before. -/
def resendMiningJob (jobTemplate : IJobTemplate) : View × Bool :=
  let v := v.cacheTemplate jobTemplate false
  let timestamp := max (max jobTemplate.block.timestamp (v.now / 1000))
    (v.session.lastSentMiningJobTimestamp.getD 0 + 1)
  v.sendNewMiningJob cfg (retimedJobTemplate jobTemplate timestamp true)

/-- What follows the answer of `getblocktemplate`. -/
def receiveTemplate (address : String) (purpose : Purpose) (answer : Option IBlockTemplate) :
    View :=
  match answer with
  | none => catchRefresh purpose (v, true)
  | some blockTemplate =>
    match v.jobsService.buildTemplateFor cfg.js address blockTemplate v.now with
    | (jobsService, none) => catchRefresh purpose ({ v with jobsService }, true)
    | (jobsService, some jobTemplate) =>
      let v := { v with jobsService }.log (.template address jobTemplate)
      match purpose with
      | .vardiff => catchRefresh purpose (v.resendMiningJob cfg jobTemplate)
      | .newBlock | .refreshTimer =>
        let v := v.cacheTemplate jobTemplate jobTemplate.blockData.clearJobs
        catchRefresh purpose (v.sendNewMiningJob cfg jobTemplate)

def refreshLocalMiningWork : View :=
  if v.session.isSocketClosed then v
  else
    match v.session.currentJobTemplate with
    | none => v
    | some baseTemplate =>
      if v.now - v.session.lastLocalWorkSentAt < 350 then v
      else
        let timestamp := max baseTemplate.block.timestamp (v.now / 1000)
        (v.sendNewMiningJob cfg (retimedJobTemplate baseTemplate timestamp false)).1

/-- `socket.write` without a look at the connection; an ended socket drops the line. -/
def sendUnchecked (message : Message) : View :=
  if v.session.socketDestroyed || v.session.writableEnded || !v.session.writable then v
  else v.send message

def checkDifficulty : View :=
  match v.session.statistics with
  | none => { v with crashed := true }
  | some statistics =>
    match statistics.getSuggestedDifficulty cfg.stack v.session.sessionDifficulty v.now with
    | .error _ => { v with crashed := true }
    | .ok none => v
    | .ok (some targetDiff) =>
      if targetDiff = v.session.sessionDifficulty then v
      else
        let v := (v.update fun s ↦ { s with sessionDifficulty := targetDiff }).sendUnchecked
          (.setDifficulty targetDiff)
        match v.session.currentJobTemplate, v.session.clientAuthorization with
        | some jobTemplate, _ => catchRefresh .vardiff (v.resendMiningJob cfg jobTemplate)
        | none, some authorization => v.suspend (.template authorization.address .vardiff)
        | none, none => { v with crashed := true }

end Work

section Initialisation

variable (rest : List Line)

/-- The end of `initStratum`: the subscription to new blocks and the timers. -/
def startWork : View :=
  (v.update fun s ↦ { s with stratumSubscription := true, backgroundWork := true }).nextLines rest

/-- The difficulty a session starts at; slow miners get a low one whatever they asked for. -/
def initialDifficulty (session : Session) (userAgent : String) : ℚ :=
  if session.isHobbyMinerSession then cfg.hobbyMinerDifficulty
  else if userAgent = "cpuminer" then 1 / 10
  else session.sessionDifficulty

def initStratum (subscription : SubscriptionMessage) : View :=
  let v := v.update fun s ↦ { s with stratumInitialized := true }
  if cfg.isBlockedUserAgent subscription.userAgent then v.closeSocket.nextLines rest
  else
    let v := v.update fun s ↦
      { s with sessionDifficulty := initialDifficulty cfg s subscription.userAgent }
    if v.session.clientSuggestedDifficulty = none then
      v.write (.setDifficulty v.session.sessionDifficulty) .setDifficulty rest
    else v.startWork rest

def finishMessage : View :=
  match v.session.clientSubscription, v.session.clientAuthorization with
  | some subscription, some _ =>
    if v.session.stratumInitialized then v.nextLines rest
    else v.initStratum cfg rest subscription
  | _, _ => v.nextLines rest

end Initialisation

section Credit

variable (share : Share) (rest : List Line)

def submitExternalShare : View :=
  let enabled := cfg.externalShareDifficulty.any fun minimumDifficulty ↦
    (minimumDifficulty : Difficulty) ≤ share.submissionDifficulty cfg.js
  match enabled, v.session.clientAuthorization, v.session.clientSubscription with
  | true, some authorization, some subscription =>
    (v.call (some share) (.submitExternalShare authorization.address authorization.worker
      subscription.userAgent share.header)).finishMessage cfg rest
  | _, _, _ => v.finishMessage cfg rest

def updateBestDifficulty : View :=
  match v.session.entity with
  | some entity =>
    if entity.bestDifficulty < share.submissionDifficulty cfg.js then
      (v.call (some share) (.updateClientBest v.session.extraNonceAndSessionId
        (share.submissionDifficulty cfg.js))).suspend (.share share .clientBest rest)
    else v.submitExternalShare cfg share rest
  | none => v.submitExternalShare cfg share rest

def heartbeat : View :=
  match v.session.entity with
  | some entity =>
    if entity.updatedAt.all fun updatedAt ↦ updatedAt + 1000 * 60 < v.now then
      (v.call (some share) (.heartbeat entity.address entity.clientName entity.sessionId
        v.session.hashRate v.now)).suspend (.share share (.heartbeat v.now) rest)
    else v.updateBestDifficulty cfg share rest
  | none => v.updateBestDifficulty cfg share rest

def afterAddShares :
    StratumV1ClientStatistics × Option (StatisticsCall × AddShares) → View
  | (statistics, none) =>
    (v.update fun s ↦ { s with statistics := some statistics }).heartbeat cfg share rest
  | (statistics, some (call, wait)) =>
    ((v.update fun s ↦ { s with statistics := some statistics }).call (some share)
      (.statistics call)).suspend (.share share (.addShares wait) rest)

def addShares (entity : ClientEntity) : View :=
  match v.session.statistics with
  | some statistics =>
    (v.log (.credited share)).afterAddShares cfg share rest
      (statistics.addShares entity v.now (share.submissionDifficulty cfg.js))
  | none => v.updateBestDifficulty cfg share rest

/-- The first share of a session creates its row; later ones wait for the same insert. -/
def ensureClientEntity : View :=
  match v.session.entity with
  | some entity => v.addShares cfg share rest entity
  | none =>
    match v.session.creatingEntity, v.session.clientAuthorization, v.session.clientSubscription with
    | none, some authorization, some subscription =>
      let partialClient : ClientEntity :=
        { sessionId := v.session.extraNonceAndSessionId.getD ""
          address := authorization.address
          clientName := authorization.worker
          userAgent := subscription.userAgent
          bestDifficulty := 0
          updatedAt := none }
      (((v.update fun s ↦ { s with creatingEntity := some .pending }).call (some share)
        (.insertClient partialClient)).suspend (.insertClient partialClient)).suspend
        (.share share .clientEntity rest)
    | _, _, _ => v.suspend (.share share .clientEntity rest)

def afterReply : View :=
  let v := v.log (.acknowledged share)
  if share.IsBlock cfg.js then
    match share.job.copyAndUpdateBlock cfg.js share.jobTemplate share.versionMask share.nonce
        share.timestamp with
    | none => v.endSocket.nextLines rest
    | some block =>
      match cfg.js.blockToBuffer false block with
      | none => v.endSocket.nextLines rest
      | some blockHex =>
        (v.call (some share) (.submitBlock block blockHex)).suspend
          (.share share (.submitBlock block blockHex) rest)
  else v.ensureClientEntity cfg share rest

end Credit

section Messages

variable (rest : List Line)

/-- A share whose header is built: it is acknowledged first and credited later. -/
def judge (share : Share) : View :=
  let v := v.log (.evaluated share)
  if share.Meets cfg.js then v.write (.result share.submission.id) (.accepted share) rest
  else
    v.write (.error share.submission.id .lowDifficultyShare "Difficulty too low") .reply rest

def handleMiningSubmission (submission : MiningSubmitMessage) : View :=
  match v.jobsService.getJobById submission.jobId with
  | none =>
    let text := if submission.jobId ∈ inheritedNames then "Job Template not found"
      else "Job not found"
    v.write (.error submission.id .jobNotFound text) .reply rest
  | some job =>
    match v.jobsService.getJobTemplateById job.jobTemplateId with
    | none => v.write (.error submission.id .jobNotFound "Job Template not found") .reply rest
    | some jobTemplate =>
      if submissionHash submission ∈ v.session.miningSubmissionHashes then
        v.write (.error submission.id .duplicateShare "Duplicate share") .reply rest
      else
        let v := v.update fun s ↦
          { s with
            miningSubmissionHashes := submissionHash submission :: s.miningSubmissionHashes }
        match job.buildHeaderBuffer cfg.js jobTemplate (parseInt16 submission.versionMask)
            (parseInt16 submission.nonce) (parseInt16 submission.ntime) with
        | none => v.endSocket.nextLines rest
        | some header =>
          v.judge cfg rest
            { serial := v.history.length
              session := v.self
              sessionDifficulty := v.session.sessionDifficulty
              submission, job, jobTemplate, header }

def subscribe (message : SubscriptionMessage) : View :=
  if cfg.isBlockedUserAgent message.userAgent then v.closeSocket.nextLines rest
  else
    let v :=
      if v.session.sessionStart = none then
        v.update fun s ↦
          { s with
            sessionStart := some v.now
            statistics := some { submissionCacheStart := v.now }
            extraNonceAndSessionId := some s.randomHex
            isHobbyMinerSession := cfg.isHobbyMiner message.userAgent }
      else v
    let v := v.update fun s ↦ { s with clientSubscription := some message }
    let extranonce1 :=
      if v.session.isHobbyMinerSession then v.session.extraNonceAndSessionId else some ""
    v.write (.subscribed message.id v.session.extraNonceAndSessionId extranonce1) .reply rest

def authorized (message : AuthorizationMessage) (session : Session) : Session :=
  { session with
    clientAuthorization := some message
    sessionDifficulty :=
      match session.clientSuggestedDifficulty, message.startingDiff with
      | none, some startingDiff => max session.sessionDifficulty startingDiff
      | _, _ => session.sessionDifficulty }

def authorize (message : AuthorizationMessage) : View :=
  if cfg.isBitcoinAddress message.address then
    (v.update (authorized message)).write (.result message.id) .reply rest
  else v.write (.error message.id .otherUnknown "Authorization validation error") .reply rest

def suggestDifficulty (suggestedDifficulty : ℚ) : View :=
  let v := v.update fun s ↦
    { s with
      clientSuggestedDifficulty := some suggestedDifficulty
      sessionDifficulty := suggestedDifficulty }
  v.write (.setDifficulty suggestedDifficulty) .suggested rest

def invalid (method : eRequestMethod) (id : String) : View :=
  match method with
  | .subscribe => v.write (.error id .otherUnknown "Subscription validation error") .reply rest
  | .configure => v.write (.error id .otherUnknown "Configuration validation error") .reply rest
  | .authorize => v.write (.error id .otherUnknown "Authorization validation error") .reply rest
  | .suggestDifficulty =>
    v.write (.error id .otherUnknown "Suggest difficulty validation error") .reply rest
  | .submit =>
    v.write (.error id .otherUnknown "Mining Submit validation error") .invalidSubmit rest

/-- Whether a request is dropped before its message is looked at: a second
suggestion is ignored, a submission before initialisation ends the connection. -/
def ignores (method : eRequestMethod) : Bool :=
  method = .suggestDifficulty && v.session.usedSuggestedDifficulty

def refuses (method : eRequestMethod) : Bool :=
  method = .submit && !v.session.stratumInitialized

def handleMessage : Line → View
  | .malformed => v.endSocket.nextLines rest
  | .throws method =>
    if v.ignores method then v.nextLines rest else v.endSocket.nextLines rest
  | .invalid method id =>
    if v.ignores method then v.nextLines rest
    else if v.refuses method then v.endSocket.nextLines rest
    else v.invalid rest method id
  | .subscribe message => v.subscribe cfg rest message
  | .configure id => v.write (.configured id) .reply rest
  | .authorize message => v.authorize cfg rest message
  | .suggestDifficulty _ suggestedDifficulty =>
    if v.ignores .suggestDifficulty then v.nextLines rest
    else v.suggestDifficulty rest suggestedDifficulty
  | .submit submission =>
    if v.refuses .submit then v.endSocket.nextLines rest
    else v.handleMiningSubmission cfg rest submission
  | .other => v.finishMessage cfg rest

/-- Lines that are still to be handled when the connection is over are dropped. -/
def hasStopped : Bool :=
  v.session.connectionClosed || v.session.socketDestroyed || v.session.writableEnded

def handleLines : List Line → View
  | [] => v
  | line :: rest => if v.hasStopped then v else v.handleMessage cfg rest line

end Messages

end View

end ElektronPool.Model
