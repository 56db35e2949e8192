import ElektronPool.Shares.Adds

namespace ElektronPool.Shares

open Lib Lib.JavaScript Model Model.View

variable {cfg : Config} {v v' w : View} {share : Share} {pending : ℕ} {entries : List Entry}
  {added : List Task}

def recordAddress : Call → Option String
  | .saveBlock _ minerAddress _ _ _ => some minerAddress
  | .notifySubscribersBlockFound address _ => some address
  | .insertClient partialClient => some partialClient.address
  | .statistics (.insert row) | .statistics (.update row) => some row.address
  | .heartbeat address _ _ _ _ => some address
  | .updateAddressBest address _ _ => some address
  | .submitExternalShare address _ _ _ => some address
  | _ => none

def Known (v : View) (address : String) : Prop :=
  v.session.clientAuthorization.map AuthorizationMessage.address = some address ∨
    v.session.entity.map ClientEntity.address = some address

/-- A call that submits no block and makes its record under an address of the session. -/
structure Sanctioned (v : View) (call : Call) : Prop where
  noBlock : ∀ block blockHex, call ≠ .submitBlock block blockHex
  address : ∀ a, recordAddress call = some a → Known v a

def isUnpaid : Task → Bool
  | .share _ (.submitBlock _ _) _ | .share _ (.saveBlock _) _ | .share _ (.notifySubscribers _) _
  | .share _ (.resetBest _) _ | .share _ .reportBlock _ | .share _ .clientEntity _ => true
  | _ => false

/-- What is added on behalf of an accepted share that has at most `pending` credits to come. -/
structure Follows (v : View) (share : Share) (pending : ℕ) (entries : List Entry)
    (added : List Task) : Prop where
  records : ∀ entry ∈ entries, entry = .credited share ∨
    ∃ call, entry = .call v.self (some share) call ∧ Sanctioned v call
  tokens : ∀ task ∈ added, (∃ wait rest, task = .share share wait rest) ∨
    ∃ partialClient, task = .insertClient partialClient ∧ Known v partialClient.address
  once : entries.count (.credited share) + (added.filter isUnpaid).length ≤ pending

def Continues (v v' : View) (share : Share) (pending : ℕ) : Prop :=
  ∃ entries added, Adds v v' entries added ∧ Follows v share pending entries added

theorem Known.after {address : String} (h : Known w address) (hadds : Adds v w entries added) :
    Known v address := by
  rwa [Known, hadds.clientAuthorization, hadds.address] at h

theorem Sanctioned.after {call : Call} (h : Sanctioned w call) (hadds : Adds v w entries added) :
    Sanctioned v call :=
  ⟨h.noBlock, fun a ha ↦ (h.address a ha).after hadds⟩

theorem Follows.after {entries' : List Entry} {added' : List Task}
    (h : Follows w share pending entries added) (hadds : Adds v w entries' added') :
    Follows v share pending entries added where
  records entry hentry := by
    refine (h.records entry hentry).imp_right fun ⟨call, hcall, hsanctioned⟩ ↦ ?_
    exact ⟨call, hadds.self ▸ hcall, hsanctioned.after hadds⟩
  tokens task htask := by
    refine (h.tokens task htask).imp_right fun ⟨partialClient, htask, hknown⟩ ↦ ?_
    exact ⟨partialClient, htask, hknown.after hadds⟩
  once := h.once

namespace Continues

theorem of_calm (h : Calm v v') : Continues v v' share pending :=
  ⟨[], [], h, by simp, by simp, by simp⟩

theorem after (h : Continues w v' share pending) (hcalm : Calm v w) :
    Continues v v' share pending := by
  obtain ⟨entries, added, hadds, hfollows⟩ := h
  exact ⟨entries, added, hadds.after hcalm, hfollows.after hcalm⟩

theorem mono {n : ℕ} (h : Continues v v' share pending) (hle : pending ≤ n) :
    Continues v v' share n := by
  obtain ⟨entries, added, hadds, hfollows⟩ := h
  exact ⟨entries, added, hadds, hfollows.records, hfollows.tokens, hfollows.once.trans hle⟩

theorem afterCall {call : Call} (hsanctioned : Sanctioned v call)
    (h : Continues (v.call (some share) call) v' share pending) : Continues v v' share pending := by
  obtain ⟨entries, added, hadds, hfollows⟩ := h
  have hcall : Adds v (v.call (some share) call) [.call v.self (some share) call] [] := .record rfl
  have hfollows := hfollows.after hcall
  refine ⟨entries ++ [.call v.self (some share) call], added, by simpa using hcall.trans hadds,
    fun entry hentry ↦ ?_, hfollows.tokens, ?_⟩
  · rcases List.mem_append.mp hentry with hentry | hentry
    · exact hfollows.records entry hentry
    · exact .inr ⟨call, List.mem_singleton.mp hentry, hsanctioned⟩
  · rw [List.count_append]
    simpa using hfollows.once

theorem afterCredit (h : Continues (v.log (.credited share)) v' share 0) :
    Continues v v' share 1 := by
  obtain ⟨entries, added, hadds, hfollows⟩ := h
  have hcredit : Adds v (v.log (.credited share)) [.credited share] [] := .record rfl
  have hfollows := hfollows.after hcredit
  refine ⟨entries ++ [.credited share], added, by simpa using hcredit.trans hadds,
    fun entry hentry ↦ ?_, hfollows.tokens, ?_⟩
  · rcases List.mem_append.mp hentry with hentry | hentry
    · exact hfollows.records entry hentry
    · exact .inl (List.mem_singleton.mp hentry)
  · have honce := hfollows.once
    rw [List.count_append, List.count_singleton_self]
    omega

theorem suspend {wait : ShareWait} {rest : List Line}
    (h : ([.share share wait rest].filter isUnpaid).length ≤ pending) :
    Continues v (v.suspend (.share share wait rest)) share pending :=
  ⟨[], [.share share wait rest], .token rfl, by simp,
    fun _ htask ↦ .inl ⟨wait, rest, List.mem_singleton.mp htask⟩, by simpa using h⟩

theorem authorized {message : AuthorizationMessage}
    (h : v.session.clientAuthorization = some message) : Known v message.address :=
  .inl (by rw [h]; rfl)

theorem owned {entity : ClientEntity} (h : v.session.entity = some entity) :
    Known v entity.address := .inr (by rw [h]; rfl)

theorem sanctioned {call : Call} {address : String} (hknown : Known v address)
    (haddress : recordAddress call = some address)
    (hcall : ∀ block blockHex, call ≠ .submitBlock block blockHex) : Sanctioned v call :=
  ⟨hcall, fun _ ha ↦ Option.some.inj (haddress.symm.trans ha) ▸ hknown⟩

theorem unrecorded {call : Call} (haddress : recordAddress call = none)
    (hcall : ∀ block blockHex, call ≠ .submitBlock block blockHex) : Sanctioned v call :=
  ⟨hcall, fun a ha ↦ by simp [haddress] at ha⟩

section Handlers

variable (cfg : Config) (share : Share) (rest : List Line)

theorem submitExternalShare : Continues v (v.submitExternalShare cfg share rest) share 0 := by
  simp only [View.submitExternalShare]
  split
  case h_1 authorization _ _ hauthorization _ =>
    exact afterCall (sanctioned (authorized hauthorization) rfl (by simp))
      (of_calm (.finishMessage cfg rest))
  · exact of_calm (.finishMessage cfg rest)

theorem updateBestDifficulty : Continues v (v.updateBestDifficulty cfg share rest) share 0 := by
  simp only [View.updateBestDifficulty]
  split
  · split
    · exact afterCall (unrecorded rfl (by simp)) (suspend le_rfl)
    · exact submitExternalShare cfg share rest
  · exact submitExternalShare cfg share rest

theorem heartbeat : Continues v (v.heartbeat cfg share rest) share 0 := by
  simp only [View.heartbeat]
  split
  case h_1 entity hentity =>
    split
    · exact afterCall (sanctioned (owned hentity) rfl (by simp)) (suspend le_rfl)
    · exact updateBestDifficulty cfg share rest
  · exact updateBestDifficulty cfg share rest

theorem afterAddShares {r : StratumV1ClientStatistics × Option (StatisticsCall × AddShares)}
    (h : ∀ call wait, r.2 = some (call, wait) →
      ∃ address, recordAddress (.statistics call) = some address ∧ Known v address) :
    Continues v (v.afterAddShares cfg share rest r) share 0 := by
  obtain ⟨statistics, _ | ⟨call, wait⟩⟩ := r
  · exact (heartbeat cfg share rest).after (.update rfl rfl rfl rfl)
  · obtain ⟨address, haddress, hknown⟩ := h call wait rfl
    have hcalm : Calm v (v.update fun s ↦ { s with statistics := some statistics }) :=
      .update rfl rfl rfl rfl
    refine after ?_ hcalm
    exact afterCall (sanctioned hknown haddress (by simp)) (suspend le_rfl)

theorem address_of_addShares {statistics : StratumV1ClientStatistics} {entity : ClientEntity}
    {date : ℕ} {d : Difficulty} {call : StatisticsCall} {wait : AddShares}
    (h : (statistics.addShares entity date d).2 = some (call, wait)) :
    recordAddress (.statistics call) = some entity.address := by
  simp only [StratumV1ClientStatistics.addShares] at h
  split at h
  · cases h
    rfl
  · split_ifs at h
    all_goals cases h; rfl

theorem address_of_resumeAddShares {statistics : StratumV1ClientStatistics} {entity : ClientEntity}
    {date : ℕ} {wait wait' : AddShares} {call : StatisticsCall}
    (h : (statistics.resumeAddShares entity date wait).2 = some (call, wait')) :
    recordAddress (.statistics call) = some entity.address := by
  cases wait <;> cases h
  rfl

theorem addShares {entity : ClientEntity} (hentity : v.session.entity = some entity) :
    Continues v (v.addShares cfg share rest entity) share 1 := by
  simp only [View.addShares]
  split
  · refine afterCredit (afterAddShares cfg share rest fun call wait h ↦ ?_)
    exact ⟨entity.address, address_of_addShares h, owned hentity⟩
  · exact (updateBestDifficulty cfg share rest).mono zero_le_one

theorem insertClient {share : Share} {rest : List Line} {partialClient : ClientEntity}
    (hknown : Known v partialClient.address) :
    Continues v (((v.call (some share) (.insertClient partialClient)).suspend
      (.insertClient partialClient)).suspend (.share share .clientEntity rest)) share 1 := by
  have hinsert : Continues (v.call (some share) (.insertClient partialClient))
      (((v.call (some share) (.insertClient partialClient)).suspend
        (.insertClient partialClient)).suspend (.share share .clientEntity rest)) share 1 := by
    refine ⟨[], _, (Adds.token rfl).trans (Adds.token rfl), by simp, fun task htask ↦ ?_, le_rfl⟩
    rcases List.mem_append.mp htask with htask | htask
    · exact .inr ⟨partialClient, List.mem_singleton.mp htask, hknown⟩
    · exact .inl ⟨_, _, List.mem_singleton.mp htask⟩
  exact afterCall (sanctioned hknown rfl (by simp)) hinsert

theorem ensureClientEntity : Continues v (v.ensureClientEntity cfg share rest) share 1 := by
  simp only [View.ensureClientEntity]
  split
  case h_1 entity hentity => exact addShares cfg share rest hentity
  · split
    case h_1 authorization subscription _ hauthorization _ =>
      have hcalm : Calm v (v.update fun s ↦ { s with creatingEntity := some .pending }) :=
        .update rfl rfl rfl rfl
      exact (insertClient (authorized hauthorization)).after hcalm
    · exact suspend le_rfl

theorem throw : Continues v (v.throw rest) share pending := of_calm (.throw rest)

theorem afterSubmitBlock (block : Block Number) (blockHex : Bytes) (response : String) :
    Continues v (v.afterSubmitBlock cfg share rest block blockHex response) share 1 := by
  simp only [View.afterSubmitBlock]
  split
  · split
    case h_1 authorization hauthorization =>
      exact afterCall (sanctioned (authorized hauthorization) rfl (by simp)) (suspend le_rfl)
    · exact throw share rest
  · exact ensureClientEntity cfg share rest

theorem afterSaveBlock (block : Block Number) :
    Continues v (v.afterSaveBlock share rest block) share 1 := by
  simp only [View.afterSaveBlock]
  split
  case h_1 authorization hauthorization =>
    exact afterCall (sanctioned (authorized hauthorization) rfl (by simp)) (suspend le_rfl)
  · exact throw share rest

theorem resumeAddShares (wait : AddShares) :
    Continues v (v.resumeAddShares cfg share rest wait) share 0 := by
  simp only [View.resumeAddShares]
  split
  case h_1 statistics entity _ hentity =>
    exact afterAddShares cfg share rest fun call wait h ↦
      ⟨entity.address, address_of_resumeAddShares h, owned hentity⟩
  · exact updateBestDifficulty cfg share rest

theorem afterClientBest : Continues v (v.afterClientBest cfg share rest) share 0 := by
  have hcalm : Calm v (v.update fun s ↦ { s with entity := s.entity.map fun entity ↦
      { entity with bestDifficulty := share.submissionDifficulty cfg.js } }) :=
    .update rfl (by cases v.session.entity <;> rfl) rfl rfl
  simp only [View.afterClientBest]
  refine after ?_ hcalm
  generalize (v.update _) = w at hcalm
  split
  case h_1 authorization entity hauthorization _ =>
    exact afterCall (sanctioned (authorized hauthorization) rfl (by simp)) (suspend le_rfl)
  · exact submitExternalShare cfg share rest

theorem afterHeartbeat (now : ℕ) : Continues v (v.afterHeartbeat cfg share rest now) share 0 :=
  (updateBestDifficulty cfg share rest).after
    (.update rfl (by cases v.session.entity <;> rfl) rfl rfl)

/-- A share that goes on after a wait is credited once at most, and not again
when its wait comes after the credit. -/
theorem resumeShare {wait : ShareWait} {outcome : Outcome}
    (h : v.resumeShare cfg share rest wait outcome = some v') :
    Continues v v' share ([.share share wait rest].filter isUnpaid).length := by
  rw [View.resumeShare.eq_def] at h
  split at h
  all_goals try simp only [Option.some.injEq] at h
  all_goals try subst h
  · exact afterSubmitBlock cfg share rest _ _ _
  · exact afterSaveBlock share rest _
  · exact afterCall (unrecorded rfl (by simp)) (suspend le_rfl)
  · exact afterCall (unrecorded rfl (by simp)) (suspend le_rfl)
  · exact ensureClientEntity cfg share rest
  · exact throw share rest
  · exact throw share rest
  · exact throw share rest
  · exact throw share rest
  · obtain ⟨entity, hentity, rfl⟩ := Option.map_eq_some_iff.mp h
    exact addShares cfg share rest hentity
  · obtain ⟨-, h⟩ := Option.ite_none_right_eq_some.mp h
    cases h
    exact throw share rest
  · exact resumeAddShares cfg share rest _
  · exact afterHeartbeat cfg share rest _
  · exact updateBestDifficulty cfg share rest
  · exact updateBestDifficulty cfg share rest
  · exact afterClientBest cfg share rest
  · exact submitExternalShare cfg share rest
  · exact submitExternalShare cfg share rest
  · exact submitExternalShare cfg share rest
  · cases h

end Handlers

end Continues

end ElektronPool.Shares
