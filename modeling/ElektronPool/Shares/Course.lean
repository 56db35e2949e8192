import ElektronPool.Shares.Account
import ElektronPool.Shares.Deal

namespace ElektronPool.Shares

open Lib Lib.JavaScript Model Model.View

variable {cfg : Config} {v v' w : View} {share : Share} {n : ℕ} {a a' : Account}

def stage : ShareWait → ℕ
  | .submitBlock _ _ => 0
  | .saveBlock _ => 1
  | .notifySubscribers _ => 2
  | .resetBest _ => 3
  | .reportBlock => 4
  | .clientEntity => 5
  | .addShares (.updatedOld _ _) => 6
  | .addShares _ => 7
  | .heartbeat _ => 8
  | .clientBest => 9
  | .addressBest => 10

/-- A share after its credit: it is through, not above its session's best, or it
waits at a later stage. -/
inductive Tail (cfg : Config) (share : Share) (n : ℕ) (a a' : Account) : Prop
  | through (entity : ClientEntity) (hentity : a.entity = some entity)
      (hgate : ¬ entity.bestDifficulty < share.submissionDifficulty cfg.js) (h : a' = a)
  | waits (wait : ShareWait) (rest : List Line) (hstage : n < stage wait)
      (h : a' = a.push (.share share wait rest))

/-- A share before its credit: it waits at a later stage, queues the insert of the
session's row, or is credited. -/
inductive Course (cfg : Config) (share : Share) (now n : ℕ) (a a' : Account) : Prop
  | waits (wait : ShareWait) (rest : List Line) (hstage : n < stage wait)
      (hunpaid : stage wait ≤ 5) (h : a' = a.push (.share share wait rest))
  | queued (partialClient : ClientEntity) (rest : List Line) (hentity : a.entity = none)
      (hcreating : a.creatingEntity = none)
      (h : a' = (({ a with creatingEntity := some .pending }).push
        (.insertClient partialClient)).push (.share share .clientEntity rest))
  | suspended (entity : ClientEntity) (statistics statistics' : StratumV1ClientStatistics)
      (call : StatisticsCall) (wait : AddShares) (rest : List Line)
      (hentity : a.entity = some entity) (hstatistics : a.statistics = some statistics)
      (hadds : statistics.addShares entity now (share.submissionDifficulty cfg.js) =
        (statistics', some (call, wait)))
      (h : a' = ((a.book (.credited share)).keep statistics').push
        (.share share (.addShares wait) rest))
  | credited (entity : ClientEntity) (statistics statistics' : StratumV1ClientStatistics)
      (hentity : a.entity = some entity) (hstatistics : a.statistics = some statistics)
      (hadds : statistics.addShares entity now (share.submissionDifficulty cfg.js) =
        (statistics', none))
      (h : Tail cfg share 7 ((a.book (.credited share)).keep statistics') a')

def throws : ShareWait → Bool
  | .saveBlock _ | .notifySubscribers _ | .resetBest _ | .reportBlock | .clientEntity => true
  | _ => false

/-- A share that is resumed from a wait. -/
inductive Goes (cfg : Config) (share : Share) (now : ℕ) (a a' : Account) :
    ShareWait → Outcome → Prop
  | threw {wait : ShareWait} (hthrows : throws wait = true) (h : a' = a) :
    Goes cfg share now a a' wait .failed
  | course {wait : ShareWait} {outcome : Outcome} (hunpaid : stage wait ≤ 5)
      (h : Course cfg share now (stage wait) a a') : Goes cfg share now a a' wait outcome
  | moved (slot : ℕ) (d : Difficulty) (entity : ClientEntity)
      (statistics statistics' : StratumV1ClientStatistics) (call : StatisticsCall)
      (rest : List Line) (hstatistics : a.statistics = some statistics)
      (hmoves : statistics.resumeAddShares entity now (.updatedOld slot d) =
        (statistics', some (call, .insertedNew)))
      (h : a' = (a.keep statistics').push (.share share (.addShares .insertedNew) rest)) :
    Goes cfg share now a a' (.addShares (.updatedOld slot d)) .done
  | saved {wait : AddShares} (statistics : StratumV1ClientStatistics)
      (hlate : 6 < stage (.addShares wait)) (hstatistics : a.statistics = some statistics)
      (h : Tail cfg share 7 (a.keep { statistics with lastSave := some now }) a') :
    Goes cfg share now a a' (.addShares wait) .done
  | unsaved {wait : AddShares} (h : Tail cfg share 8 a a') :
    Goes cfg share now a a' (.addShares wait) .failed
  | beaten {date : ℕ} (h : Tail cfg share 8 (a.beat date) a') :
    Goes cfg share now a a' (.heartbeat date) .done
  | unbeaten {date : ℕ} (h : Tail cfg share 8 a a') :
    Goes cfg share now a a' (.heartbeat date) .failed
  | raised (id : SessionId) (address userAgent : String) (rest : List Line)
      (h : a' = ((a.raise (share.submissionDifficulty cfg.js)).book
        (.call id (some share) (.updateAddressBest address (share.submissionDifficulty cfg.js)
          userAgent))).push (.share share .addressBest rest)) :
    Goes cfg share now a a' .clientBest .done
  | unraised (h : a' = a) : Goes cfg share now a a' .clientBest .failed
  | closed {outcome : Outcome} (h : a' = a) : Goes cfg share now a a' .addressBest outcome

theorem Tail.bookings (h : Tail cfg share n a a') : a'.bookings = a.bookings := by
  cases h with
  | through _ _ _ h => rw [h]
  | waits _ _ _ h => rw [h, Account.push]

section Handlers

variable (cfg : Config) (share : Share) (rest : List Line)

theorem account_submitExternalShare :
    account (v.submitExternalShare cfg share rest) = account v := by
  simp only [View.submitExternalShare]
  split
  · exact account_finishMessage cfg rest
  · exact account_finishMessage cfg rest

theorem tail_updateBestDifficulty {entity : ClientEntity} (h : v.session.entity = some entity)
    (hn : n < 9) : Tail cfg share n (account v) (account (v.updateBestDifficulty cfg share rest)) := by
  simp only [View.updateBestDifficulty, h]
  split
  · exact .waits .clientBest rest hn (account_token rfl)
  case isFalse hgate => exact .through entity h hgate (account_submitExternalShare cfg share rest)

theorem tail_heartbeat {entity : ClientEntity} (h : v.session.entity = some entity) :
    Tail cfg share 7 (account v) (account (v.heartbeat cfg share rest)) := by
  simp only [View.heartbeat, h]
  split
  · exact .waits (.heartbeat v.now) rest (by simp [stage]) (account_token rfl)
  · exact tail_updateBestDifficulty cfg share rest h (by decide)

theorem tail_afterAddShares {entity : ClientEntity} (h : v.session.entity = some entity)
    (statistics : StratumV1ClientStatistics) :
    Tail cfg share 7 ((account v).keep statistics)
      (account (v.afterAddShares cfg share rest (statistics, none))) :=
  tail_heartbeat cfg share rest (v := v.update fun s ↦ { s with statistics := some statistics }) h

theorem course_addShares {entity : ClientEntity} {statistics : StratumV1ClientStatistics}
    (hentity : v.session.entity = some entity) (hstatistics : v.session.statistics = some statistics) :
    Course cfg share v.now n (account v) (account (v.addShares cfg share rest entity)) := by
  simp only [View.addShares, hstatistics]
  cases hadds : statistics.addShares entity v.now (share.submissionDifficulty cfg.js) with
  | mk statistics' step =>
    cases step with
    | none =>
      exact .credited entity statistics statistics' hentity hstatistics hadds
        (tail_afterAddShares cfg share rest (v := v.log (.credited share)) hentity statistics')
    | some step =>
      obtain ⟨call, wait⟩ := step
      exact .suspended entity statistics statistics' call wait rest hentity hstatistics hadds
        (account_token rfl)

theorem course_ensureClientEntity {statistics : StratumV1ClientStatistics} (hn : n < 5)
    (hstatistics : v.session.statistics = some statistics) :
    Course cfg share v.now n (account v) (account (v.ensureClientEntity cfg share rest)) := by
  simp only [View.ensureClientEntity]
  split
  case h_1 entity hentity => exact course_addShares cfg share rest hentity hstatistics
  case h_2 hentity =>
    split
    case h_1 authorization subscription hcreating _ _ =>
      exact .queued
        { sessionId := v.session.extraNonceAndSessionId.getD ""
          address := authorization.address
          clientName := authorization.worker
          userAgent := subscription.userAgent
          bestDifficulty := 0
          updatedAt := none } rest hentity hcreating
        ((account_token rfl).trans (congrArg (Account.push · _) (account_token rfl)))
    · exact .waits .clientEntity rest hn le_rfl (account_token rfl)

variable {message : AuthorizationMessage} {statistics : StratumV1ClientStatistics}

theorem course_afterSubmitBlock (hauthorization : v.session.clientAuthorization = some message)
    (hstatistics : v.session.statistics = some statistics) (block : Block Number)
    (blockHex : Bytes) (response : String) :
    Course cfg share v.now 0 (account v)
      (account (v.afterSubmitBlock cfg share rest block blockHex response)) := by
  simp only [View.afterSubmitBlock, hauthorization]
  split
  · exact .waits (.saveBlock block) rest (by simp [stage]) (by simp [stage]) (account_token rfl)
  · exact course_ensureClientEntity cfg share rest (by decide) hstatistics

theorem course_afterSaveBlock (hauthorization : v.session.clientAuthorization = some message)
    (block : Block Number) :
    Course cfg share v.now 1 (account v) (account (v.afterSaveBlock share rest block)) := by
  simp only [View.afterSaveBlock, hauthorization]
  exact .waits (.notifySubscribers block) rest (by simp [stage]) (by simp [stage]) (account_token rfl)

theorem goes_resumeAddShares {entity : ClientEntity} (hentity : v.session.entity = some entity)
    (hstatistics : v.session.statistics = some statistics) (wait : AddShares) :
    Goes cfg share v.now (account v) (account (v.resumeAddShares cfg share rest wait))
      (.addShares wait) .done := by
  simp only [View.resumeAddShares, hstatistics, hentity]
  have hsaved := tail_afterAddShares cfg share rest hentity
    { statistics with lastSave := some v.now }
  cases wait with
  | updatedOld slot d =>
    exact .moved slot d entity statistics _ _ rest hstatistics rfl (account_token rfl)
  | insertedFirst => exact .saved statistics (by decide) hstatistics hsaved
  | insertedNew => exact .saved statistics (by decide) hstatistics hsaved
  | updated => exact .saved statistics (by decide) hstatistics hsaved

theorem goes_afterHeartbeat {entity : ClientEntity} (h : v.session.entity = some entity)
    (date : ℕ) :
    Goes cfg share v.now (account v) (account (v.afterHeartbeat cfg share rest date))
      (.heartbeat date) .done := by
  have hentity : (v.update fun s ↦ { s with entity := s.entity.map fun entity ↦
      { entity with updatedAt := some date } }).session.entity =
      some { entity with updatedAt := some date } := by
    simp only [View.update, h, Option.map_some]
  exact .beaten (tail_updateBestDifficulty cfg share rest hentity (by decide))

theorem goes_afterClientBest {entity : ClientEntity} (h : v.session.entity = some entity)
    (hauthorization : v.session.clientAuthorization = some message) :
    Goes cfg share v.now (account v) (account (v.afterClientBest cfg share rest)) .clientBest
      .done := by
  refine .raised v.self message.address entity.userAgent rest ?_
  simp only [View.afterClientBest, View.update, h, hauthorization, Option.map_some]
  rw [account_token rfl, View.call, account_booking rfl]
  simp only [account, Account.raise, h, hauthorization, Option.map_some]

theorem goes_resumeShare {wait : ShareWait} {outcome : Outcome}
    (h : v.resumeShare cfg share rest wait outcome = some v')
    (hauthorization : v.session.clientAuthorization = some message)
    (hstatistics : v.session.statistics = some statistics)
    (hentity : 6 ≤ stage wait → ∃ entity, v.session.entity = some entity) :
    Goes cfg share v.now (account v) (account v') wait outcome := by
  rw [View.resumeShare.eq_def] at h
  split at h
  case h_1 block blockHex response =>
    cases h
    exact .course (by simp [stage])
      (course_afterSubmitBlock cfg share rest hauthorization hstatistics block blockHex response)
  case h_2 block =>
    cases h
    exact .course (by simp [stage]) (course_afterSaveBlock cfg share rest hauthorization block)
  case h_3 block =>
    cases h
    exact .course (by simp [stage])
      (.waits (.resetBest block) rest (by simp [stage]) (by simp [stage]) (account_token rfl))
  case h_4 block =>
    cases h
    exact .course (by simp [stage])
      (.waits .reportBlock rest (by simp [stage]) (by simp [stage]) (account_token rfl))
  case h_5 =>
    cases h
    exact .course (by simp [stage])
      (course_ensureClientEntity cfg share rest (by simp [stage]) hstatistics)
  case h_6 | h_7 | h_8 | h_9 =>
    cases h
    exact .threw rfl (account_throw rest)
  case h_10 =>
    obtain ⟨entity, hentity, rfl⟩ := Option.map_eq_some_iff.mp h
    exact .course le_rfl (course_addShares cfg share rest hentity hstatistics)
  case h_11 =>
    obtain ⟨-, h⟩ := Option.ite_none_right_eq_some.mp h
    cases h
    exact .threw rfl (account_throw rest)
  case h_12 wait =>
    cases h
    obtain ⟨entity, hentity⟩ := hentity (by cases wait <;> simp [stage])
    exact goes_resumeAddShares cfg share rest hentity hstatistics wait
  case h_13 date =>
    cases h
    obtain ⟨entity, hentity⟩ := hentity (by simp [stage])
    exact goes_afterHeartbeat cfg share rest hentity date
  case h_14 wait =>
    cases h
    obtain ⟨entity, hentity⟩ := hentity (by cases wait <;> simp [stage])
    exact .unsaved (tail_updateBestDifficulty cfg share rest hentity (by decide))
  case h_15 =>
    cases h
    obtain ⟨entity, hentity⟩ := hentity (by simp [stage])
    exact .unbeaten (tail_updateBestDifficulty cfg share rest hentity (by decide))
  case h_16 =>
    cases h
    obtain ⟨entity, hentity⟩ := hentity (by simp [stage])
    exact goes_afterClientBest cfg share rest hentity hauthorization
  case h_17 =>
    cases h
    exact .unraised (account_submitExternalShare cfg share rest)
  case h_18 | h_19 =>
    cases h
    exact .closed (account_submitExternalShare cfg share rest)
  case h_20 => cases h

/-- A share whose reply is written: it goes on, or it is a block. -/
inductive Answered (cfg : Config) (share : Share) (now : ℕ) (a a' : Account) : Prop
  | course (hblock : ¬ share.IsBlock cfg.js) (n : ℕ) (h : Course cfg share now n a a')
  | block (block : Block Number) (blockHex : Bytes) (rest : List Line)
      (hblock : share.IsBlock cfg.js)
      (h : a' = a.push (.share share (.submitBlock block blockHex) rest))
  | threw (hblock : share.IsBlock cfg.js)
      (hthrew : (share.job.copyAndUpdateBlock cfg.js share.jobTemplate share.versionMask share.nonce
        share.timestamp).bind (cfg.js.blockToBuffer false) = none) (h : a' = a)

theorem answered_afterReply (hstatistics : v.session.statistics = some statistics) :
    Answered cfg share v.now ((account v).book (.acknowledged share))
      (account (v.afterReply cfg share rest)) := by
  have hbooked : account (v.log (.acknowledged share)) =
      (account v).book (.acknowledged share) := rfl
  simp only [View.afterReply]
  split
  case isTrue hblock =>
    split
    case h_1 hcopy =>
      exact .threw hblock (by rw [hcopy]; rfl) (account_throw rest)
    case h_2 block hcopy =>
      split
      case h_1 hhex => exact .threw hblock (by rw [hcopy]; exact hhex) (account_throw rest)
      case h_2 blockHex hhex =>
        exact .block block blockHex rest hblock (account_token rfl)
  case isFalse hblock =>
    exact .course hblock 0 (hbooked ▸ course_ensureClientEntity (v := v.log (.acknowledged share)) cfg
      share rest (Nat.zero_lt_succ 4) hstatistics)

end Handlers

end ElektronPool.Shares
