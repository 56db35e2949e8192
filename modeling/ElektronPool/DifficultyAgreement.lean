import ElektronPool.Reference
import ElektronPool.Talk.Turn

namespace ElektronPool.DifficultyAgreement

open Lib Lib.Runs Model Model.View Work Shares Talk

variable {cfg : Config} {v v' w : View} {e : SessionEvent} {messages : List Message}
  {lines : List Line} {session : Session}

def announced : Message → Option ℚ
  | .setDifficulty difficulty => some difficulty
  | _ => none

def lastAnnounced (session : Session) : Option ℚ := session.wire.findSome? announced

/-- The miner works at the difficulty its shares are held against. -/
def Agrees (session : Session) : Prop :=
  session.stratumInitialized = true → session.isSocketClosed = false →
    lastAnnounced session = some session.sessionDifficulty

/-- A starting difficulty does not raise that of a session at work, and a session
that starts with a difficulty its miner asked for keeps it. -/
def Announces (cfg : Config) (v : View) (e : SessionEvent) : Prop :=
  v.session.isSocketClosed = true ∨
    (∀ message ∈ authorizes cfg v e, v.session.stratumInitialized = true →
      v.session.clientSuggestedDifficulty = none →
        ∀ startingDiff ∈ message.startingDiff, (startingDiff : ℚ) ≤ v.session.sessionDifficulty) ∧
    ∀ subscription ∈ starts v e, cfg.isBlockedUserAgent subscription.userAgent = false →
      v.session.clientSuggestedDifficulty ≠ none →
        initialDifficulty cfg v.session subscription.userAgent = v.session.sessionDifficulty

instance (v : View) (e : SessionEvent) : Decidable (Announces cfg v e) :=
  inferInstanceAs (Decidable (_ ∨ _))

/-- A session also agrees with its miner on a difficulty that the miner asked for. -/
def Told (session : Session) : Prop :=
  session.stratumInitialized = true ∨ session.clientSuggestedDifficulty ≠ none →
    session.isSocketClosed = false → lastAnnounced session = some session.sessionDifficulty

theorem Told.agrees (h : Told session) : Agrees session := fun hinitialized ↦ h (.inl hinitialized)

theorem lastAnnounced_eq_talk (session : Session) :
    lastAnnounced session = (session.wire.filter isTalk).findSome? announced := by
  rw [lastAnnounced]
  induction session.wire with
  | nil => rfl
  | cons message wire ih =>
    cases message with
    | notify params => exact ih
    | setDifficulty difficulty => rfl
    | _ => exact ih

theorem lastAnnounced_of_talk (h : Says w v' messages lines) :
    lastAnnounced v'.session = (messages.findSome? announced).or (lastAnnounced w.session) := by
  rw [lastAnnounced_eq_talk, h.wire, List.findSome?_append, ← lastAnnounced_eq_talk]

theorem open_of_talk (h : Says w v' messages lines) (hopen : v'.session.isSocketClosed = false) :
    w.session.isSocketClosed = false := by
  cases hclosed : w.session.isSocketClosed with
  | false => rfl
  | true =>
    rw [h.closed hclosed] at hopen
    cases hopen

theorem written_of_open (hopen : v.session.isSocketClosed = false) (message : Message) :
    Says.written v message = [message] := by
  rw [Says.written, hopen, if_neg Bool.false_ne_true]

theorem silent_written {message : Message} (h : announced message = none) (v : View) :
    (Says.written v message).findSome? announced = none := by
  rw [Says.written]
  split
  · rfl
  · simp [h]

theorem Told.quiet (h : Told w.session) (hsaid : Says w v' messages lines)
    (hsilent : messages.findSome? announced = none) : Told v'.session := by
  intro hknown hopen
  rw [hsaid.initialized, hsaid.suggested] at hknown
  rw [lastAnnounced_of_talk hsaid, hsilent, Option.none_or, hsaid.difficulty]
  exact h hknown (open_of_talk hsaid hopen)

theorem told_of_announced (hsaid : Says w v' messages lines)
    (hannounced : w.session.isSocketClosed = false →
      messages.findSome? announced = some w.session.sessionDifficulty) : Told v'.session := by
  intro _ hopen
  rw [lastAnnounced_of_talk hsaid, hannounced (open_of_talk hsaid hopen), Option.some_or,
    hsaid.difficulty]

theorem told_of_closed (h : session.isSocketClosed = true) : Told session := by
  intro _ hopen
  rw [h] at hopen
  cases hopen

theorem authorizes_of_handles {message : AuthorizationMessage} {rest : List Line}
    (he : handles v e = some (.authorize message, rest))
    (hvalid : cfg.isBitcoinAddress message.address = true) :
    authorizes cfg v e = some message := by
  cases e with
  | resume i outcome =>
    cases outcome with
    | done =>
      simp only [handles] at he
      simp only [authorizes]
      split at he
      case h_1 line rest' htask =>
        obtain ⟨hrunning, h⟩ := Option.ite_none_left_eq_some.mp he
        simp only [Option.some.injEq, Prod.mk.injEq] at h
        obtain ⟨rfl, rfl⟩ := h
        rw [htask]
        simp [hrunning, hvalid]
      case h_2 => cases he
    | _ => cases he
  | _ => cases he

theorem Told.pop (h : Told v.session) (e : SessionEvent) : Told (Shares.pop v e).session := by
  cases e <;> exact h

/-- Of the four places that change the difficulty of a session, two do not always announce it. -/
theorem Told.turn (h : Told v.session) (hguard : Announces cfg v e) (hturn : Turn cfg v e v') :
    Told v'.session := by
  have hpop := h.pop e
  cases hturn with
  | calm _ hsaid => exact hpop.quiet hsaid rfl
  | replied line rest message he hreplies hsaid =>
    refine hpop.quiet hsaid (silent_written ?_ _)
    cases hreplies <;> rfl
  | refused _ _ _ _ _ hclosed => exact told_of_closed hclosed
  | judged submission rest message w he hinitialized hjudges hsaid hclosed =>
    have hw : Told w.session := by cases hjudges <;> exact hpop
    refine hw.quiet hsaid ?_
    cases hjudges with
    | threw => rfl
    | _ => exact silent_written rfl _
  | authorized message rest he hvalid hsaid =>
    refine Told.quiet ?_ hsaid (silent_written rfl _)
    intro hknown hopen
    have hopen : v.session.isSocketClosed = false := pop_session_closed v e ▸ hopen
    obtain ⟨hraises, -⟩ := hguard.resolve_left (by simp [hopen])
    have hsuggested := pop_session_suggested v e
    have hinitialized := pop_session_stratumInitialized v e
    have hknown : (Shares.pop v e).session.stratumInitialized = true ∨
        (Shares.pop v e).session.clientSuggestedDifficulty ≠ none := hknown
    have hdifficulty : (Shares.pop v e).session.sessionDifficulty = v.session.sessionDifficulty := by
      cases e <;> rfl
    refine (hpop hknown (pop_session_closed v e ▸ hopen)).trans (congrArg some ?_)
    simp only [View.update, View.authorized]
    split
    case h_1 startingDiff hnone hstarting =>
      have hinitialized : v.session.stratumInitialized = true :=
        hinitialized ▸ hknown.resolve_right (absurd hnone)
      have hle := hraises message (authorizes_of_handles he hvalid) hinitialized
        (hsuggested ▸ hnone) startingDiff hstarting
      rw [hdifficulty, max_eq_left hle]
    case h_2 => rfl
  | suggested id suggestedDifficulty rest he hsaid =>
    apply told_of_announced hsaid
    intro hopen
    rw [written_of_open (show (Shares.pop v e).session.isSocketClosed = false from hopen)]
    rfl
  | blocked _ _ hclosed => exact told_of_closed hclosed
  | initialised subscription hfirst hstarts hallowed hsaid =>
    have hsuggested := pop_session_suggested v e
    have hdifficulty : (Talk.initialised cfg (Shares.pop v e) subscription).session.sessionDifficulty =
        initialDifficulty cfg v.session subscription.userAgent :=
      pop_initialDifficulty cfg v e subscription.userAgent
    by_cases hnone : v.session.clientSuggestedDifficulty = none
    · rw [if_pos hnone] at hsaid
      apply told_of_announced hsaid
      intro hopen
      rw [written_of_open (show (Shares.pop v e).session.isSocketClosed = false from hopen),
        hdifficulty]
      rfl
    · rw [if_neg hnone] at hsaid
      refine Told.quiet ?_ hsaid rfl
      intro _ hopen
      have hopen : v.session.isSocketClosed = false := pop_session_closed v e ▸ hopen
      obtain ⟨-, hkeeps⟩ := hguard.resolve_left (by simp [hopen])
      rw [hdifficulty, hkeeps subscription hstarts hallowed hnone]
      have hlast : lastAnnounced (Talk.initialised cfg (Shares.pop v e) subscription).session =
          lastAnnounced v.session := by cases e <;> rfl
      rw [hlast]
      exact h (.inr hnone) hopen
  | received address purpose blockTemplate jobsService jobTemplate clear he hbuild hclear hsaid =>
    refine Told.quiet ?_ hsaid rfl
    exact hpop
  | retargeted targetDiff he hsaid =>
    apply told_of_announced hsaid
    intro hopen
    have hopen : v.session.isSocketClosed = false := hopen
    simp only [Session.isSocketClosed, Bool.or_eq_false_iff] at hopen
    obtain ⟨⟨⟨-, hdestroyed⟩, hended⟩, hwritable⟩ := hopen
    rw [hdestroyed, hended, hwritable]
    rfl

theorem told_kept :
    Kept cfg (fun v ↦ Ready v.session) (Announces cfg) fun v ↦ Told v.session :=
  .of_session fun _ _ _ hready h hguard hact ↦ h.turn hguard (turn_of_act hready hact)

/-- In every run whose steps meet the guard the last `mining.set_difficulty` a
session has written is its difficulty. -/
theorem agrees_of_announces (cfg : Config) (now : ℕ) (pool : Pool)
    (h : Reach (Pool.step cfg) (onSession (Announces cfg)) (Pool.start now) pool)
    (id : SessionId) : Agrees (pool.sessions id) := by
  refine (told_kept.reach (fun _ hpool ↦ ready_of_reachable hpool) (fun _ ↦ ?_) h id).agrees
  rintro (hinitialized | hsuggested)
  · cases hinitialized
  · exact absurd rfl hsuggested

section Sample

open Reference

theorem agrees_of_announces_run :
    ∃ pool, Reach (Pool.step settings) (onSession (Announces settings)) (Pool.start 1700000000000)
        pool ∧
      (pool.sessions 0).sessionDifficulty ≠ 100000 ∧ Agrees (pool.sessions 0) := by
  obtain ⟨pool, hpool, hp⟩ := Reach.of_any (Pool.step settings) (onSession (Announces settings))
    (Pool.start 1700000000000)
    (opening 0 alice ++ working 0 (answer 101 (hashOf 7)) ++
      [.tick 61000, .session 0 .difficultyTimer])
    (fun pool ↦ (pool.sessions 0).sessionDifficulty ≠ 100000) (by decide +kernel)
    (by decide +kernel)
  exact ⟨pool, hpool, of_decide_eq_true hp,
    agrees_of_announces settings 1700000000000 pool hpool 0⟩

/-- A second authorization raises the difficulty of a session at work. -/
theorem not_agrees_of_reauthorize :
    ¬ ∀ (cfg : Config) (now : ℕ) (pool : Pool), Reachable (Pool.step cfg) (Pool.start now) pool →
      ∀ id, (pool.sessions id).tasks = [] → Agrees (pool.sessions id) := by
  intro h
  obtain ⟨pool, hpool, hp⟩ := Reachable.of_any (Pool.step settings) (Pool.start 1700000000000)
    (opening 0 alice ++ .session 0 (.data [.authorize ⟨"3", alice, "worker", some 200000⟩]) ::
      resumes 0 2)
    (fun pool ↦ decide ((pool.sessions 0).tasks = []) && (pool.sessions 0).stratumInitialized &&
      !(pool.sessions 0).isSocketClosed &&
      decide (lastAnnounced (pool.sessions 0) ≠ some (pool.sessions 0).sessionDifficulty))
    (by decide +kernel)
  simp only [Bool.and_eq_true, decide_eq_true_eq, Bool.not_eq_true'] at hp
  obtain ⟨⟨⟨htasks, hinitialized⟩, hopen⟩, hne⟩ := hp
  exact hne (h settings _ pool hpool 0 htasks hinitialized hopen)

end Sample

end ElektronPool.DifficultyAgreement
