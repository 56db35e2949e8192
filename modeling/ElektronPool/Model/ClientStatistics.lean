import ElektronPool.Lib.FloatingPoint
import ElektronPool.Model.ShareDifficulty

namespace ElektronPool.Model

open Lib Lib.FloatingPoint
open Lib.FloatingPoint.Arithmetic (binary64)

structure ClientEntity where
  sessionId : String
  address : String
  clientName : String
  userAgent : String
  bestDifficulty : Difficulty
  updatedAt : Option ℕ
deriving DecidableEq

/-- A row of `client_statistics`, also the argument of the service's calls. -/
structure ClientStatisticsEntity where
  time : ℕ
  shares : Difficulty
  acceptedCount : ℕ
  address : String
  clientName : String
  sessionId : String
deriving DecidableEq

inductive StatisticsCall
  | insert (row : ClientStatisticsEntity)
  | update (row : ClientStatisticsEntity)
deriving DecidableEq

namespace ClientStatisticsService

def sameKey (row clientStatistic : ClientStatisticsEntity) : Bool :=
  row.address = clientStatistic.address && row.clientName = clientStatistic.clientName &&
    row.sessionId = clientStatistic.sessionId && row.time = clientStatistic.time

def update (rows : List ClientStatisticsEntity) (clientStatistic : ClientStatisticsEntity) :
    List ClientStatisticsEntity :=
  rows.map fun row ↦
    if sameKey row clientStatistic then
      { row with shares := clientStatistic.shares, acceptedCount := clientStatistic.acceptedCount }
    else row

def insert (rows : List ClientStatisticsEntity) (clientStatistic : ClientStatisticsEntity) :
    List ClientStatisticsEntity := rows ++ [clientStatistic]

def execute (rows : List ClientStatisticsEntity) : StatisticsCall → List ClientStatisticsEntity
  | .insert row => insert rows row
  | .update row => update rows row

end ClientStatisticsService

structure CachedSubmission where
  time : ℕ
  difficulty : Difficulty
deriving DecidableEq

/-- Where a call of `addShares` waits for the statistics service. -/
inductive AddShares
  | insertedFirst
  | updatedOld (timeSlot : ℕ) (submissionDifficulty : Difficulty)
  | insertedNew
  | updated
deriving DecidableEq

structure StratumV1ClientStatistics where
  shares : Difficulty := 0
  acceptedCount : ℕ := 0
  submissionCacheStart : ℕ
  submissionCache : List CachedSubmission := []
  currentTimeSlot : Option ℕ := none
  lastSave : Option ℕ := none
  hashRate : Difficulty := 0
  previousTimeSlotTime : ℕ := 0
  currentTimeSlotTime : ℕ := 0
  previousShares : Difficulty := 0
deriving DecidableEq

/-- The call stack is exhausted. -/
inductive RangeError
  | maximumCallStackSizeExceeded
deriving DecidableEq

def divide : Difficulty → ℚ → Difficulty
  | ⊤, _ => ⊤
  | (x : ℚ), y => quotient x y

theorem divide_coe (x y : ℚ) : divide x y = quotient x y := rfl

namespace ClientStatisticsService

inductive WhereClause
  | pool
  | address (address : String)
  | group (address clientName : String)
  | session (address clientName sessionId : String)

def WhereClause.selects (address clientName sessionId : String) : WhereClause → Bool
  | .pool => true
  | .address a => address = a
  | .group a c => address = a && clientName = c
  | .session a c s => address = a && clientName = c && sessionId = s

structure Accounting where
  totalCreditedDifficulty : Difficulty
  totalAcceptedShares : ℕ
  creditedDifficultyLastHour : Difficulty
  acceptedSharesLast10Minutes : ℕ
  hashRateLast10Minutes : Difficulty
  hashRateLastHour : Difficulty
deriving DecidableEq

def creditedDifficulty (rows : List ClientStatisticsEntity) : Difficulty :=
  (rows.map ClientStatisticsEntity.shares).sum

def acceptedShares (rows : List ClientStatisticsEntity) : ℕ :=
  (rows.map ClientStatisticsEntity.acceptedCount).sum

def since (time : ℤ) (rows : List ClientStatisticsEntity) : List ClientStatisticsEntity :=
  rows.filter fun row ↦ time ≤ row.time

def selected (whereClause : WhereClause) (rows : List ClientStatisticsEntity) :
    List ClientStatisticsEntity :=
  rows.filter fun row ↦ whereClause.selects row.address row.clientName row.sessionId

def getAccounting (whereClause : WhereClause) (rows : List ClientStatisticsEntity) (now : ℕ) :
    Accounting :=
  let tenMinutesAgo := (now : ℤ) - 10 * 60 * 1000
  let oneHourAgo := (now : ℤ) - 60 * 60 * 1000
  let rows := selected whereClause rows
  { totalCreditedDifficulty := creditedDifficulty rows
    totalAcceptedShares := acceptedShares rows
    creditedDifficultyLastHour := creditedDifficulty (since oneHourAgo rows)
    acceptedSharesLast10Minutes := acceptedShares (since tenMinutesAgo rows)
    hashRateLast10Minutes :=
      divide (creditedDifficulty (since tenMinutesAgo rows) * 4294967296) (10 * 60)
    hashRateLastHour :=
      divide (creditedDifficulty (since oneHourAgo rows) * 4294967296) (60 * 60) }

end ClientStatisticsService

namespace StratumV1ClientStatistics

def cacheSize : ℕ := 30
def targetSubmissionPerSecond : ℚ := 10

/-- The literal; the code's number is the nearest double. -/
def minDiff : ℚ := 1 / 100000

/-- The ten-minute slot of a time, as the time it starts at. -/
def timeSlotOf (date : ℕ) : ℕ := date / (1000 * 60 * 10) * (1000 * 60 * 10)

variable (statistics : StratumV1ClientStatistics)

def row (client : ClientEntity) (time : ℕ) : ClientStatisticsEntity where
  time
  shares := statistics.shares
  acceptedCount := statistics.acceptedCount
  address := client.address
  clientName := client.clientName
  sessionId := client.sessionId

def cache (date : ℕ) (submissionDifficulty : Difficulty) : StratumV1ClientStatistics :=
  let kept :=
    if cacheSize < statistics.submissionCache.length then statistics.submissionCache.tail
    else statistics.submissionCache
  { statistics with submissionCache := kept ++ [⟨date, submissionDifficulty⟩] }

def accumulate (submissionDifficulty : Difficulty) : StratumV1ClientStatistics :=
  { statistics with
    shares := statistics.shares + submissionDifficulty
    acceptedCount := statistics.acceptedCount + 1 }

/-- `addShares` up to its first wait: the service call it issues and where it
waits, or nothing when it returns at once. -/
def addShares (client : ClientEntity) (date : ℕ) (submissionDifficulty : Difficulty) :
    StratumV1ClientStatistics × Option (StatisticsCall × AddShares) :=
  let timeSlot := timeSlotOf date
  let cached := statistics.cache date submissionDifficulty
  match cached.currentTimeSlot with
  | none =>
    let first := { cached.accumulate submissionDifficulty with
      previousTimeSlotTime := date
      currentTimeSlotTime := date
      currentTimeSlot := some timeSlot }
    (first, some (.insert (first.row client timeSlot), .insertedFirst))
  | some currentTimeSlot =>
    if currentTimeSlot ≠ timeSlot then
      (cached, some (.update (cached.row client currentTimeSlot),
        .updatedOld timeSlot submissionDifficulty))
    else if cached.lastSave.getD 0 + 60 * 1000 < date then
      let added := cached.accumulate submissionDifficulty
      (added, some (.update (added.row client currentTimeSlot), .updated))
    else
      let added := cached.accumulate submissionDifficulty
      let hashRate :=
        if 0 < added.shares then
          divide ((added.previousShares + added.shares) * 4294967296)
            (((date - added.previousTimeSlotTime : ℕ) : ℚ) / 1000)
        else added.hashRate
      ({ added with hashRate }, none)

/-- `addShares` from one wait to the next. -/
def resumeAddShares (client : ClientEntity) (now : ℕ) :
    AddShares → StratumV1ClientStatistics × Option (StatisticsCall × AddShares)
  | .updatedOld timeSlot submissionDifficulty =>
    let moved := { statistics with
      previousShares := statistics.shares
      previousTimeSlotTime := statistics.currentTimeSlotTime
      currentTimeSlotTime := now
      currentTimeSlot := some timeSlot
      shares := submissionDifficulty
      acceptedCount := 1 }
    (moved, some (.insert (moved.row client timeSlot), .insertedNew))
  | .insertedFirst | .insertedNew | .updated => ({ statistics with lastSave := some now }, none)

def toInt32 : Difficulty → BitVec 32
  | ⊤ => 0
  | (val : ℚ) => BitVec.ofInt 32 (if 0 ≤ val then ⌊val⌋ else ⌈val⌉)

/-- A shift by 32 bits is a shift by none. -/
def highestBit (val : BitVec 32) : ℤ :=
  let x := val ||| val.sshiftRight 1
  let x := x ||| x.sshiftRight 2
  let x := x ||| x.sshiftRight 4
  let x := x ||| x.sshiftRight 8
  let x := x ||| x.sshiftRight 16
  let x := x ||| x.sshiftRight 0
  x.toInt - (x.sshiftRight 1).toInt

/-- `null` is `none`. The recursion of the source runs until its call stack of
`stack` frames is used up. -/
def nearestPowerOfTwo (A : Arithmetic) : (stack : ℕ) → Difficulty → Except RangeError (Option ℚ)
  | 0, _ => .error .maximumCallStackSizeExceeded
  | stack + 1, val =>
    if val = 0 then .ok none
    else if val < (A.round minDiff : ℚ) then .ok (some (A.round minDiff))
    else
      let res := highestBit (toInt32 val)
      if res = 0 ∧ A.number (val * 100) < (A.round minDiff : ℚ) then .ok (some (A.round minDiff))
      else if res = 0 then
        (nearestPowerOfTwo A stack (A.number (val * 100))).map fun r ↦
          some (A.round (r.getD 0 / 100))
      else .ok (some res)

def sum : Difficulty :=
  statistics.submissionCache.foldl (fun pre cur ↦ binary64.number (pre + cur.difficulty)) 0

def diffSeconds : ℚ :=
  match statistics.submissionCache, statistics.submissionCache.getLast? with
  | first :: _, some last => binary64.round (((last.time : ℚ) - first.time) / 1000)
  | _, _ => 0

def targetDifficulty : Difficulty :=
  binary64.number (binary64.number (divide statistics.sum statistics.diffSeconds) *
    (targetSubmissionPerSecond : Difficulty))

def getSuggestedDifficulty (stack : ℕ) (clientDifficulty : ℚ) (now : ℕ) :
    Except RangeError (Option ℚ) :=
  if statistics.submissionCache.length < 5 then
    if 60 < binary64.round (((now : ℚ) - statistics.submissionCacheStart) / 1000) then
      nearestPowerOfTwo binary64 stack (binary64.number (clientDifficulty / 6 : ℚ))
    else .ok none
  else
    let targetDifficulty := statistics.targetDifficulty
    if binary64.number (clientDifficulty * 2 : ℚ) < targetDifficulty ∨
        targetDifficulty < binary64.number (clientDifficulty / 2 : ℚ) then
      nearestPowerOfTwo binary64 stack targetDifficulty
    else .ok none

end StratumV1ClientStatistics

end ElektronPool.Model
