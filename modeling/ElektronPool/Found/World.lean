import ElektronPool.Model.Notification
import ElektronPool.Shares.Ledger
import ElektronPool.Shares.Passage

namespace ElektronPool.Found

open Lib Lib.Runs Lib.JavaScript Model Model.View Work Shares Talk

variable {cfg : Config} {config : NotificationConfig} {v v' : View} {e : SessionEvent}
  {share : Share} {wait : ShareWait} {rest : List Line} {outcome : Outcome} {pool pool' : Pool}
  {event : Event}

def resumed (pool : Pool) : Event → Option (Share × ShareWait × Outcome)
  | .session id (.resume i outcome) =>
    match (pool.sessions id).tasks[i]? with
    | some (.share share wait _) => some (share, wait, outcome)
    | _ => none
  | _ => none

def isNotification : ShareWait → Bool
  | .notifySubscribers _ => true
  | _ => false

/-- The call succeeded; `SUBMIT_BLOCK` only when the node accepts the block. -/
def succeeds : ShareWait → Outcome → Bool
  | .submitBlock _ _, .submitted response => decide (response = "SUCCESS!")
  | .submitBlock _ _, _ => false
  | _, .done => true
  | _, _ => false

def succeeded (pool : Pool) (event : Event) : Option (Share × ShareWait) :=
  (resumed pool event).bind fun (share, wait, outcome) ↦
    if succeeds wait outcome then some (share, wait) else none

/-- `reportBlockFound` is called once the reset is done, and records the block at once. -/
def recorded (js : BitcoinJs) (recentlyFoundBlocks : FoundBlocks) (now : ℕ) :
    Option (Share × ShareWait) → FoundBlocks
  | some (_, .resetBest block) =>
    match js.getId block with
    | some blockHash => recentlyFoundBlocks.recordFoundBlock String.toLower blockHash now
    | none => recentlyFoundBlocks
  | _ => recentlyFoundBlocks

def notificationArgs : Call → Option (String × ℕ)
  | .notifySubscribersBlockFound address height => some (address, height)
  | _ => none

def notification (config : NotificationConfig) (pool : Pool) (id : SessionId) (i : ℕ)
    (answers : NotificationAnswers) : Option (Share × Notification) :=
  match (pool.sessions id).tasks[i]? with
  | some (.share share (.notifySubscribers _) _) =>
    (lastCall pool.history share notificationArgs).map fun (address, height) ↦
      (share, NotificationService.notifySubscribersBlockFound config answers address height
        "SUCCESS!")
  | _ => none

/-- The pool with its table of found blocks and its messages to Discord that are under way;
`ended` notes the calls for shares that succeeded, and when. -/
structure World where
  pool : Pool
  recentlyFoundBlocks : FoundBlocks
  sending : List String
  down : Bool
  ended : List (Share × ShareWait × ℕ)

inductive Occurrence
  | pool (event : Event)
  | notified (id : SessionId) (i : ℕ) (answers : NotificationAnswers)
  | sent (i : ℕ) (resolves : Bool)
  | confirm (blockHash : String)

namespace World

variable (cfg : Config) (config : NotificationConfig) (world : World)

def start (now : ℕ) : World := ⟨Pool.start now, MapData.empty, [], false, []⟩

def crashed : Bool := world.down || world.pool.crashed

def after (event : Event) (pool : Pool) (sends : List String) : World :=
  let end? := succeeded world.pool event
  { world with
    pool
    recentlyFoundBlocks := recorded cfg.js world.recentlyFoundBlocks world.pool.now end?
    sending := world.sending ++ sends
    ended := (end?.map fun (share, wait) ↦ (share, wait, world.pool.now)).toList ++ world.ended }

/-- A notification ends as its services answer. A message that Discord refuses is a
rejection that nobody handles, which ends the process. -/
def step (occurrence : Occurrence) : Option World :=
  if world.crashed then none
  else
    match occurrence with
    | .pool event =>
      if (resumed world.pool event).any fun (_, wait, _) ↦ isNotification wait then none
      else (world.pool.step cfg event).map fun pool ↦ world.after cfg event pool []
    | .notified id i answers =>
      (notification config world.pool id i answers).bind fun (_, n) ↦
        let event := .session id (.resume i (if n.resolves then .done else .failed))
        (world.pool.step cfg event).map fun pool ↦ world.after cfg event pool n.sends
    | .sent i resolves =>
      world.sending[i]?.map fun _ ↦
        { world with sending := world.sending.eraseIdx i, down := !resolves }
    | .confirm blockHash =>
      some
        { world with
          recentlyFoundBlocks := (world.recentlyFoundBlocks.confirmed String.toLower world.pool.now
            (some blockHash)).1 }

end World

def isRecording : ShareWait → Bool
  | .saveBlock _ | .notifySubscribers _ | .resetBest _ => true
  | _ => false

/-- A call by which the block of this share is recorded fails. -/
def fails (share : Share) (pool : Pool) (event : Event) : Bool :=
  (resumed pool event).any fun (s, wait, outcome) ↦
    decide (s = share) && isRecording wait && decide (outcome = .failed)

/-- Of the calls that record the block of this share, only its notification may fail,
and nothing but a notification ends the process. -/
def OnlyNotificationsFail (cfg : Config) (share : Share) (world : World) : Occurrence → Prop
  | .pool event =>
    fails share world.pool event = false ∧
      (world.pool.step cfg event).all (fun pool ↦ !pool.crashed) = true
  | _ => True

def NotificationsResolve (config : NotificationConfig) (share : Share) (world : World) :
    Occurrence → Prop
  | .notified id i answers =>
    (notification config world.pool id i answers).all (fun (s, n) ↦
      !decide (s = share) || n.resolves) = true
  | .sent _ resolves => resolves = true
  | _ => True

/-- In the steps of a run only the notification of this share may fail, and it does not. -/
def Delivered (cfg : Config) (config : NotificationConfig) (share : Share) (world : World)
    (occurrence : Occurrence) : Prop :=
  OnlyNotificationsFail cfg share world occurrence ∧ NotificationsResolve config share world occurrence

instance (share : Share) (world : World) (occurrence : Occurrence) :
    Decidable (OnlyNotificationsFail cfg share world occurrence) :=
  match occurrence with
  | .pool _ => inferInstanceAs (Decidable (_ ∧ _))
  | .notified _ _ _ | .sent _ _ | .confirm _ => .isTrue trivial

instance (share : Share) (world : World) (occurrence : Occurrence) :
    Decidable (NotificationsResolve config share world occurrence) :=
  match occurrence with
  | .notified _ _ _ | .sent _ _ => inferInstanceAs (Decidable (_ = _))
  | .pool _ | .confirm _ => .isTrue trivial

instance (share : Share) (world : World) (occurrence : Occurrence) :
    Decidable (Delivered cfg config share world occurrence) :=
  inferInstanceAs (Decidable (_ ∧ _))

def Waits (pool : Pool) (share : Share) (wait : ShareWait) : Prop :=
  ∃ rest, Task.share share wait rest ∈ (pool.sessions share.session).tasks

section Pool

theorem resumed_eq_some :
    resumed pool event = some (share, wait, outcome) ↔
      ∃ id i rest, event = .session id (.resume i outcome) ∧
        (pool.sessions id).tasks[i]? = some (.share share wait rest) := by
  constructor
  · intro h
    rw [resumed.eq_def] at h
    split at h
    case h_1 id i outcome' =>
      split at h
      case h_1 rest htask =>
        cases h
        exact ⟨id, i, rest, rfl, htask⟩
      case h_2 => cases h
    case h_2 => cases h
  · rintro ⟨id, i, rest, rfl, htask⟩
    simp only [resumed, htask]

theorem resumed_of_task {id : SessionId} {i : ℕ}
    (htask : (pool.sessions id).tasks[i]? = some (.share share wait rest)) (outcome : Outcome) :
    resumed pool (.session id (.resume i outcome)) = some (share, wait, outcome) :=
  resumed_eq_some.mpr ⟨id, i, rest, rfl, htask⟩

theorem waits_of_step (h : pool.step cfg event = some pool') (hwaits : Waits pool share wait) :
    Waits pool' share wait ∨ ∃ i outcome rest, event = .session share.session (.resume i outcome) ∧
      (pool.sessions share.session).tasks[i]? = some (.share share wait rest) := by
  obtain ⟨rest, hmem⟩ := hwaits
  obtain ⟨milliseconds, rfl, rfl⟩ | ⟨id, e, v', rfl, hact, rfl⟩ := step_cases h
  · exact .inl ⟨rest, hmem⟩
  · by_cases hid : share.session = id
    · subst hid
      rcases mem_pop_or_popped (v := pool.view share.session) hmem e with hmem | hpopped
      · refine .inl ⟨rest, ?_⟩
        rw [Pool.sessions_put_self]
        exact (deal_of_act hact).entered.mem_tasks rfl hmem
      · cases e with
        | resume i outcome => exact .inr ⟨i, outcome, rest, rfl, hpopped⟩
        | _ => cases hpopped
    · refine .inl ⟨rest, ?_⟩
      rw [Pool.sessions_put_of_ne hid]
      exact hmem

theorem resumeShare_of_step {id : SessionId} {i : ℕ}
    (h : pool.step cfg (.session id (.resume i outcome)) = some pool')
    (htask : (pool.sessions id).tasks[i]? = some (.share share wait rest)) :
    ∃ v', (pop (pool.view id) (.resume i outcome)).resumeShare cfg share rest wait outcome =
      some v' ∧ pool' = pool.put id v' := by
  obtain ⟨_, heq, -⟩ | ⟨id', e, v', heq, hact, rfl⟩ := step_cases h
  · cases heq
  · cases heq
    have htask : (pool.view id).session.tasks[i]? = some (.share share wait rest) := htask
    rw [act, htask] at hact
    exact ⟨v', hact, rfl⟩

theorem authorized_of_waits {now : ℕ} (hpool : Reachable (Pool.step cfg) (Pool.start now) pool)
    {id : SessionId} (hmem : Task.share share wait rest ∈ (pool.sessions id).tasks) :
    ∃ authorization, (pool.sessions id).clientAuthorization = some authorization := by
  have hinitialized := ready_of_reachable hpool id _ hmem rfl
  obtain ⟨authorization, -, hauthorization, -⟩ :=
    (enrolled_of_reachable hpool id).parties hinitialized
  exact ⟨authorization, hauthorization⟩

end Pool

end ElektronPool.Found
