import ElektronPool.BlockSubmission
import ElektronPool.Found.Stage
import ElektronPool.Shares.Submitted

namespace ElektronPool.BlockRecords

open Lib Lib.Runs Lib.Bytes Lib.JavaScript Model Model.View Model.FoundBlocks Work Shares Found

variable {cfg : Config} {config : NotificationConfig} {v v' : View} {share : Share}
  {rest : List Line} {outcome : Outcome} {block : Block Number} {blockHex : Bytes}
  {pool pool' : Pool} {event : Event}

theorem getId_of_copies {now : ℕ} (hjs : cfg.js.Serialises)
    (hpool : Reachable (Pool.step cfg) (Pool.start now) pool)
    (hacknowledged : Entry.acknowledged share ∈ pool.history) (hcopies : Copies cfg.js share block) :
    cfg.js.getId block =
      some (String.ofList (toHex (cfg.js.hash256 share.header).toList.reverse)) := by
  have hevaluated :=
    (ledger_of_reachable hpool share.session).evaluated_of_acknowledged rfl hacknowledged
  have hgrounds := grounds_of_reachable hpool hevaluated
  obtain ⟨_, _, _, _, _, hnew⟩ :=
    BlockSubmission.new_of_grounds (sound_of_reachable hpool share.session) hgrounds
  rw [BitcoinJs.getId, SubmittedBlock.blockToBuffer_header hjs hnew hcopies hgrounds.header,
    Option.map_some]

section Registry

variable {recentlyFoundBlocks : FoundBlocks} {blockHash : String} {hash : String} {foundAt now : ℕ}

/-- The table still has a block that was found at a time of the window, or later. -/
def Finds (recentlyFoundBlocks : FoundBlocks) (hash : String) (foundAt now : ℕ) : Prop :=
  now ≤ foundAt + recentBlockTtlMs → ∃ t, recentlyFoundBlocks.Holds hash t ∧ foundAt ≤ t

theorem Finds.prune (h : Finds recentlyFoundBlocks hash foundAt now) :
    Finds (recentlyFoundBlocks.pruneOldEntries now) hash foundAt now := by
  intro hnow
  obtain ⟨t, ht, hle⟩ := h hnow
  exact ⟨t, holds_pruneOldEntries.mpr ⟨ht, by omega⟩, hle⟩

theorem holds_recorded (recentlyFoundBlocks : FoundBlocks) (blockHash : String) (now : ℕ) :
    (recentlyFoundBlocks.recordFoundBlock String.toLower blockHash now).Holds blockHash.toLower now :=
  holds_recordFoundBlock.mpr (.inl ⟨rfl, rfl⟩)

theorem Finds.record (h : Finds recentlyFoundBlocks hash foundAt now) (hfound : foundAt ≤ now)
    (blockHash : String) :
    Finds (recentlyFoundBlocks.recordFoundBlock String.toLower blockHash now) hash foundAt now := by
  by_cases heq : hash = blockHash.toLower
  · subst heq
    exact fun _ ↦ ⟨now, holds_recorded _ _ _, hfound⟩
  · intro hnow
    obtain ⟨t, ht, hle⟩ := h hnow
    exact ⟨t, holds_recordFoundBlock.mpr (.inr ⟨heq, ht, by omega⟩), hle⟩

theorem Finds.confirms (h : Finds recentlyFoundBlocks blockHash.toLower foundAt now)
    (hnow : now ≤ foundAt + recentBlockTtlMs) (hlength : 0 < blockHash.length) :
    (recentlyFoundBlocks.confirmed String.toLower now (some blockHash)).2 = true := by
  obtain ⟨t, ht, -⟩ := h.prune hnow
  rw [confirmed, if_pos hlength, wasRecentlyFound]
  exact MapData.has_iff.mpr ⟨t, ht⟩

def Remembers (js : BitcoinJs) (world : World) : Prop :=
  ∀ share block foundAt, (share, .resetBest block, foundAt) ∈ world.ended →
    foundAt ≤ world.pool.now ∧ ∀ blockHash, js.getId block = some blockHash →
      Finds world.recentlyFoundBlocks blockHash.toLower foundAt world.pool.now

theorem now_le_of_step (h : pool.step cfg event = some pool') : pool.now ≤ pool'.now := by
  obtain ⟨milliseconds, -, rfl⟩ | ⟨id, e, v', -, hact, rfl⟩ := step_cases h
  · exact Nat.le_add_right _ _
  · exact le_rfl

theorem Remembers.after {world : World} {sends : List String}
    (h : Remembers cfg.js world) (hstep : world.pool.step cfg event = some pool') :
    Remembers cfg.js (world.after cfg event pool' sends) := by
  have hnow : world.pool.now ≤ pool'.now := now_le_of_step hstep
  intro share block foundAt hmem
  have hlater {recentlyFoundBlocks : FoundBlocks} {hash : String}
      (hfinds : Finds recentlyFoundBlocks hash foundAt world.pool.now) :
      Finds recentlyFoundBlocks hash foundAt pool'.now := fun hle ↦ hfinds (hnow.trans hle)
  rcases List.mem_append.mp hmem with hmem | hmem
  · -- the block is reported by this event
    obtain ⟨⟨s, wait⟩, hsucceeded, heq⟩ := Option.map_eq_some_iff.mp (Option.mem_toList.mp hmem)
    cases heq
    refine ⟨hnow, fun blockHash hid ↦ hlater fun _ ↦ ⟨world.pool.now, ?_, le_rfl⟩⟩
    simp only [World.after, hsucceeded, recorded, hid]
    exact holds_recorded _ _ _
  · obtain ⟨hfound, hfinds⟩ := h share block foundAt hmem
    refine ⟨hfound.trans hnow, fun blockHash hid ↦ hlater ?_⟩
    have hfinds := hfinds blockHash hid
    simp only [World.after]
    rw [recorded.eq_def]
    split
    · split
      · exact hfinds.record hfound _
      · exact hfinds
    · exact hfinds

theorem Remembers.confirm {js : BitcoinJs} {world : World} (h : Remembers js world)
    (blockHash : String) :
    Remembers js { world with
      recentlyFoundBlocks := (world.recentlyFoundBlocks.confirmed String.toLower world.pool.now
        (some blockHash)).1 } := by
  intro share block foundAt hmem
  obtain ⟨hfound, hfinds⟩ := h share block foundAt hmem
  refine ⟨hfound, ?_⟩
  intro hash hid
  change Finds (FoundBlocks.confirmed _ _ _ (some blockHash)).1 _ _ _
  rw [confirmed]
  split
  · exact (hfinds hash hid).prune
  · exact hfinds hash hid

end Registry

section Runs

variable {world world' : World} {occurrence : Occurrence} {now : ℕ}

theorem World.step_cases (h : world.step cfg config occurrence = some world') :
    world.crashed = false ∧
      ((∃ event pool' sends, world.pool.step cfg event = some pool' ∧
        world' = world.after cfg event pool' sends ∧
        (occurrence = .pool event ∨
          ∃ id i answers s n, occurrence = .notified id i answers ∧
            notification config world.pool id i answers = some (s, n) ∧
            event = .session id (.resume i (if n.resolves then .done else .failed)))) ∨
      (∃ i resolves, occurrence = .sent i resolves ∧
        world' = { world with sending := world.sending.eraseIdx i, down := !resolves }) ∨
      ∃ blockHash, occurrence = .confirm blockHash ∧
        world' = { world with
          recentlyFoundBlocks := (world.recentlyFoundBlocks.confirmed String.toLower
            world.pool.now (some blockHash)).1 }) := by
  obtain ⟨hcrashed, h⟩ := Option.ite_none_left_eq_some.mp h
  refine ⟨Bool.eq_false_of_not_eq_true hcrashed, ?_⟩
  cases occurrence with
  | pool event =>
    obtain ⟨-, h⟩ := Option.ite_none_left_eq_some.mp h
    obtain ⟨pool', hpool, rfl⟩ := Option.map_eq_some_iff.mp h
    exact .inl ⟨event, pool', [], hpool, rfl, .inl rfl⟩
  | notified id i answers =>
    obtain ⟨⟨s, n⟩, hnotification, h⟩ := Option.bind_eq_some_iff.mp h
    obtain ⟨pool', hpool, rfl⟩ := Option.map_eq_some_iff.mp h
    exact .inl ⟨_, pool', n.sends, hpool, rfl, .inr ⟨id, i, answers, s, n, rfl, hnotification, rfl⟩⟩
  | sent i resolves =>
    obtain ⟨text, -, rfl⟩ := Option.map_eq_some_iff.mp h
    exact .inr (.inl ⟨i, resolves, rfl, rfl⟩)
  | confirm blockHash => exact .inr (.inr ⟨blockHash, rfl, (Option.some.inj h).symm⟩)

theorem notification_eq_some {id : SessionId} {i : ℕ} {answers : NotificationAnswers}
    {n : Notification} (h : notification config pool id i answers = some (share, n)) :
    ∃ block rest, (pool.sessions id).tasks[i]? =
      some (.share share (.notifySubscribers block) rest) := by
  rw [notification] at h
  split at h
  case h_1 s block rest htask =>
    obtain ⟨args, -, heq⟩ := Option.map_eq_some_iff.mp h
    cases heq
    exact ⟨block, rest, htask⟩
  case h_2 => cases h

theorem fails_eq_false (honly : OnlyNotificationsFail cfg share world occurrence)
    (hdelivers : NotificationsResolve config share world occurrence)
    (hevent : occurrence = .pool event ∨ ∃ id i answers s n, occurrence = .notified id i answers ∧
      notification config world.pool id i answers = some (s, n) ∧
      event = .session id (.resume i (if n.resolves then .done else .failed))) :
    fails share world.pool event = false := by
  obtain rfl | ⟨id, i, answers, s, n, rfl, hnotification, rfl⟩ := hevent
  · exact honly.1
  · obtain ⟨block, rest, htask⟩ := notification_eq_some hnotification
    simp only [NotificationsResolve, hnotification, Option.all_some, Bool.or_eq_true, Bool.not_eq_true',
      decide_eq_false_iff_not] at hdelivers
    rw [fails, resumed_of_task htask, Option.any_some]
    rcases hdelivers with hne | hresolves
    · simp [hne]
    · simp [hresolves]

theorem crashed_throw : (v.throw rest).crashed = v.crashed := by
  rw [View.throw, View.nextLines]
  split <;> rfl

theorem crashed_of_notified {id : SessionId} {i : ℕ}
    (hstep : pool.step cfg (.session id (.resume i outcome)) = some pool')
    (htask : (pool.sessions id).tasks[i]? = some (.share share (.notifySubscribers block) rest)) :
    pool'.crashed = pool.crashed := by
  obtain ⟨v', hresume, rfl⟩ := resumeShare_of_step hstep htask
  cases outcome with
  | done =>
    cases hresume
    rfl
  | failed =>
    cases hresume
    exact crashed_throw
  | answered | submitted | inserted => cases hresume

/-- What is known of a share along a run in which its records are delivered. -/
structure Tracked (cfg : Config) (now : ℕ) (share : Share) (world : World) : Prop where
  reach : Reachable (Pool.step cfg) (Pool.start now) world.pool
  up : world.crashed = false
  remembers : Remembers cfg.js world
  stages : ∀ block blockHex acceptedAt, (share, .submitBlock block blockHex, acceptedAt) ∈
    world.ended → Copies cfg.js share block ∧ ∃ n, Stage world share block blockHex n

theorem succeeded_submitBlock
    (h : succeeded pool event = some (share, .submitBlock block blockHex)) :
    ∃ id i rest, event = .session id (.resume i (.submitted "SUCCESS!")) ∧
      (pool.sessions id).tasks[i]? = some (.share share (.submitBlock block blockHex) rest) := by
  obtain ⟨⟨s, wait, outcome⟩, hresumed, h⟩ := Option.bind_eq_some_iff.mp h
  obtain ⟨hsucceeds, heq⟩ := Option.ite_none_right_eq_some.mp h
  cases heq
  obtain ⟨id, i, rest, rfl, htask⟩ := resumed_eq_some.mp hresumed
  cases outcome with
  | submitted response =>
    obtain rfl := of_decide_eq_true hsucceeds
    exact ⟨id, i, rest, rfl, htask⟩
  | done | answered | failed | inserted => cases hsucceeds

theorem Tracked.step (h : Tracked cfg now share world)
    (honly : OnlyNotificationsFail cfg share world occurrence)
    (hdelivers : NotificationsResolve config share world occurrence)
    (hstep : world.step cfg config occurrence = some world') : Tracked cfg now share world' := by
  obtain ⟨hdown, hcrashed⟩ := Bool.or_eq_false_iff.mp h.up
  obtain ⟨-, ⟨event, pool', sends, hpool, rfl, hevent⟩ | ⟨i, resolves, rfl, rfl⟩ |
    ⟨blockHash, rfl, rfl⟩⟩ := World.step_cases hstep
  · have hfails := fails_eq_false honly hdelivers hevent
    constructor
    case reach => exact h.reach.tail trivial hpool
    case remembers => exact h.remembers.after hpool
    case up =>
      refine Bool.or_eq_false_iff.mpr ⟨hdown, ?_⟩
      obtain rfl | ⟨id, i, answers, s, n, rfl, hnotification, rfl⟩ := hevent
      · have hup := honly.2
        rw [hpool, Option.all_some, Bool.not_eq_true'] at hup
        exact hup
      · obtain ⟨block, rest, htask⟩ := notification_eq_some hnotification
        exact (crashed_of_notified hpool htask).trans hcrashed
    case stages =>
      intro block blockHex acceptedAt hmem
      rcases List.mem_append.mp hmem with hmem | hmem
      · -- the node accepts the block in this event
        obtain ⟨⟨s, wait⟩, hsucceeded, heq⟩ := Option.map_eq_some_iff.mp (Option.mem_toList.mp hmem)
        cases heq
        obtain ⟨id, i, rest, rfl, htask⟩ := succeeded_submitBlock hsucceeded
        refine ⟨?_, 0, saving_of_accepted ⟨now, h.reach⟩ hpool htask rfl⟩
        exact copied_of_reachable h.reach id share block blockHex rest
          (List.mem_filter.mpr ⟨List.mem_of_getElem? htask, rfl⟩)
      · obtain ⟨hcopies, n, hstage⟩ := h.stages block blockHex acceptedAt hmem
        rcases hstage.after ⟨now, h.reach⟩ hpool hfails sends with hstage | hstage
        · exact ⟨hcopies, n, hstage⟩
        · exact ⟨hcopies, n + 1, hstage⟩
  · refine ⟨h.reach, ?_, h.remembers, fun block blockHex acceptedAt hmem ↦ ?_⟩
    · obtain rfl : resolves = true := hdelivers
      exact hcrashed
    · obtain ⟨hcopies, n, hstage⟩ := h.stages block blockHex acceptedAt hmem
      exact ⟨hcopies, n, hstage.congr rfl rfl⟩
  · refine ⟨h.reach, h.up, h.remembers.confirm blockHash, ?_⟩
    intro block blockHex acceptedAt hmem
    obtain ⟨hcopies, n, hstage⟩ := h.stages block blockHex acceptedAt hmem
    exact ⟨hcopies, n, hstage.congr rfl rfl⟩

theorem Tracked.start (cfg : Config) (now : ℕ) (share : Share) :
    Tracked cfg now share (World.start now) where
  reach := .refl
  up := rfl
  remembers _ _ _ hmem := by cases hmem
  stages _ _ _ hmem := by cases hmem

/-- A block that the node has accepted is saved, the best difficulties are reset, it is
reported under its id, and a request for that id within the window is confirmed. -/
structure Recorded (js : BitcoinJs) (world : World) (share : Share) (block : Block Number)
    (blockHex : Bytes) : Prop where
  saved : Saved world share block blockHex
  resets : Calls world.pool share .resetBestDifficultyAndShares
  reports : Calls world.pool share (.reportBlockFound block)
  confirms : ∃ blockHash foundAt, js.getId block = some blockHash ∧
    (share, .resetBest block, foundAt) ∈ world.ended ∧
    (world.pool.now ≤ foundAt + recentBlockTtlMs →
      (world.recentlyFoundBlocks.confirmed String.toLower world.pool.now (some blockHash)).2 = true)

theorem Tracked.recorded (h : Tracked cfg now share world) (hjs : cfg.js.Serialises)
    {acceptedAt : ℕ} (haccepted : (share, .submitBlock block blockHex, acceptedAt) ∈ world.ended)
    (hstage : Stage world share block blockHex 3) : Recorded cfg.js world share block blockHex := by
  obtain ⟨hcopies, -⟩ := h.stages block blockHex acceptedAt haccepted
  cases hstage with
  | reported hsaved hresets hreports foundAt hended =>
    obtain ⟨-, hacknowledged⟩ :=
      (ledger_of_reachable h.reach share.session).called _ share _ hresets
    have hid := getId_of_copies hjs h.reach hacknowledged hcopies
    refine ⟨hsaved, hresets, hreports, _, foundAt, hid, hended, ?_⟩
    intro hnow
    obtain ⟨-, hfinds⟩ := h.remembers share block foundAt hended
    refine (hfinds _ hid).confirms hnow ?_
    rw [String.length_ofList, length_toHex, List.length_reverse,
      (cfg.js.hash256 share.header).toList_length]
    decide

section Completion

variable (cfg) in
theorem exists_step {id : SessionId} {i n : ℕ} (hup : pool.crashed = false)
    (htask : (pool.sessions id).tasks[i]? = some (.share share (waitAt block n) rest)) :
    ∃ pool', pool.step cfg (.session id (.resume i .done)) = some pool' ∧
      pool'.crashed = false := by
  let w := pop (pool.view id) (.resume i .done)
  have hw : ∃ v', w.resumeShare cfg share rest (waitAt block n) .done = some v' ∧
      v'.crashed = w.crashed := by
    match n with
    | 0 =>
      refine ⟨_, rfl, ?_⟩
      rw [View.afterSaveBlock]
      split
      · rfl
      · exact crashed_throw
    | 1 => exact ⟨_, rfl, rfl⟩
    | n + 2 => exact ⟨_, rfl, rfl⟩
  obtain ⟨v', hresume, hcrashed⟩ := hw
  refine ⟨pool.put id v', ?_, hcrashed.trans hup⟩
  have htask : (pool.view id).session.tasks[i]? = some (.share share (waitAt block n) rest) := htask
  have hact : (pool.view id).act cfg (.resume i .done) = some v' := by
    rw [act, htask]
    exact hresume
  rw [Pool.step, hup, hact]
  rfl

def allAnswer : NotificationAnswers where
  fetchGuild _ := true
  fetchChannel _ := true
  getSubscriptions _ := some []
  sendMessage _ _ := true

theorem resolves_allAnswer (config : NotificationConfig) (address : String) (height : ℕ)
    (message : String) : (NotificationService.notifySubscribersBlockFound config allAnswer address
      height message).resolves = true := by
  have hdiscord : (DiscordService.notifySubscribersBlockFound config allAnswer height
      message).resolves = true := by
    rw [DiscordService.notifySubscribersBlockFound]
    split
    · rfl
    · rfl
  have htelegram : TelegramService.notifySubscribersBlockFound config allAnswer address height
      message = true := by
    rw [TelegramService.notifySubscribersBlockFound]
    split
    · rfl
    · rfl
  exact Bool.and_eq_true_iff.mpr ⟨hdiscord, htelegram⟩

variable (config) in
theorem exists_next {n : ℕ} (h : Tracked cfg now share world)
    (hstage : Stage world share block blockHex n) (hn : n < 3) :
    ∃ occurrence world', OnlyNotificationsFail cfg share world occurrence ∧
      NotificationsResolve config share world occurrence ∧
      world.step cfg config occurrence = some world' ∧
      Stage world' share block blockHex (n + 1) := by
  obtain ⟨-, hup⟩ := Bool.or_eq_false_iff.mp h.up
  have hnext {i : ℕ} {rest : List Line} {pool' : Pool} (sends : List String)
      (htask : (world.pool.sessions share.session).tasks[i]? =
        some (.share share (waitAt block n) rest))
      (hpool : world.pool.step cfg (.session share.session (.resume i .done)) = some pool') :
      Stage (world.after cfg (.session share.session (.resume i .done)) pool' sends) share block
        blockHex (n + 1) :=
    hstage.advance hn htask (authorized_of_waits h.reach (List.mem_of_getElem? htask)) hpool
  have hcall (hother : isNotification (waitAt block n) = false)
      (hwaits : Waits world.pool share (waitAt block n)) :
      ∃ occurrence world', OnlyNotificationsFail cfg share world occurrence ∧
        NotificationsResolve config share world occurrence ∧
      world.step cfg config occurrence = some world' ∧
        Stage world' share block blockHex (n + 1) := by
    obtain ⟨rest, hmem⟩ := hwaits
    obtain ⟨i, htask⟩ := List.mem_iff_getElem?.mp hmem
    obtain ⟨pool', hpool, hcrashed⟩ := exists_step cfg hup htask
    refine ⟨.pool (.session share.session (.resume i .done)), _, ⟨?_, ?_⟩, trivial, ?_,
      hnext [] htask hpool⟩
    · simp [fails, resumed_of_task htask]
    · simp [hpool, hcrashed]
    · simp [World.step, h.up, resumed_of_task htask, hother, hpool]
  cases hstage with
  | saving _ hwaits => exact hcall rfl hwaits
  | notifying hsaved address height hnotifies hwaits =>
    obtain ⟨rest, hmem⟩ := hwaits
    obtain ⟨i, htask⟩ := List.mem_iff_getElem?.mp hmem
    obtain ⟨pool', hpool, -⟩ := exists_step cfg (n := 1) hup htask
    obtain ⟨⟨address, height⟩, hlast⟩ := exists_lastCall notificationArgs hnotifies rfl
    obtain ⟨answered, hnotification, hresolves⟩ : ∃ answered,
        notification config world.pool share.session i allAnswer = some (share, answered) ∧
          answered.resolves = true := by
      refine ⟨_, ?_, resolves_allAnswer config address height "SUCCESS!"⟩
      simp only [notification, htask, hlast, Option.map_some]
    refine ⟨.notified share.session i allAnswer, _, trivial, ?_, ?_,
      hnext answered.sends htask hpool⟩
    · simp [NotificationsResolve, hnotification, hresolves]
    · simp [World.step, h.up, hnotification, hresolves, hpool]
  | resetting _ _ hwaits => exact hcall rfl hwaits
  | reported => exact absurd hn (lt_irrefl 3)

theorem ended_of_step (h : world.step cfg config occurrence = some world') :
    world.ended ⊆ world'.ended := by
  obtain ⟨-, ⟨event, pool', sends, -, rfl, -⟩ | ⟨i, resolves, -, rfl⟩ | ⟨blockHash, -, rfl⟩⟩ :=
    World.step_cases h
  · exact ended_subset event pool' sends
  · exact List.Subset.refl _
  · exact List.Subset.refl _

variable (config) in
theorem exists_recorded {n : ℕ} (h : Tracked cfg now share world) (hjs : cfg.js.Serialises)
    {acceptedAt : ℕ} (haccepted : (share, .submitBlock block blockHex, acceptedAt) ∈ world.ended)
    (hstage : Stage world share block blockHex n) :
    ∃ world', Reach (World.step cfg config) (Delivered cfg config share) world world' ∧
      Recorded cfg.js world' share block blockHex := by
  have hn : n ≤ 3 := by cases hstage <;> decide
  induction hk : 3 - n generalizing n world with
  | zero =>
    obtain rfl : n = 3 := by omega
    exact ⟨world, .refl, h.recorded hjs haccepted hstage⟩
  | succ k ih =>
    obtain ⟨occurrence, world₁, honly, hdelivers, hstep, hnext⟩ :=
      exists_next config h hstage (by omega)
    obtain ⟨world', hreach, hrecorded⟩ := ih (h.step honly hdelivers hstep)
      (ended_of_step hstep haccepted) hnext (by omega) (by omega)
    exact ⟨world', (Reach.single ⟨honly, hdelivers⟩ hstep).trans hreach, hrecorded⟩

end Completion

/-- The block is recorded, or a call for its records is under way and they can be completed. -/
def Accounted (cfg : Config) (config : NotificationConfig) (world : World) (share : Share)
    (block : Block Number) (blockHex : Bytes) : Prop :=
  Recorded cfg.js world share block blockHex ∨
    (∃ wait, isRecording wait = true ∧ Waits world.pool share wait) ∧
      ∃ world', Reach (World.step cfg config) (Delivered cfg config share) world world' ∧
        Recorded cfg.js world' share block blockHex

/-- In every run in which the notification of a share resolves and Discord takes the
messages it is sent, the block of the share is recorded once the node has accepted it. -/
theorem accounted_of_delivered (cfg : Config) (hjs : cfg.js.Serialises)
    (config : NotificationConfig) (now : ℕ) (share : Share) (world : World)
    (h : Reach (World.step cfg config) (Delivered cfg config share) (World.start now) world)
    (block : Block Number) (blockHex : Bytes) (acceptedAt : ℕ)
    (haccepted : (share, .submitBlock block blockHex, acceptedAt) ∈ world.ended) :
    Accounted cfg config world share block blockHex := by
  have hfollows : Tracked cfg now share world :=
    h.invariant (Tracked.start cfg now share) fun _ _ _ hfollows hguard hstep ↦
      hfollows.step hguard.1 hguard.2 hstep
  obtain ⟨-, n, hstage⟩ := hfollows.stages block blockHex acceptedAt haccepted
  have hcompletes := exists_recorded config hfollows hjs haccepted hstage
  cases hstage with
  | saving _ hwaits => exact .inr ⟨⟨.saveBlock block, rfl, hwaits⟩, hcompletes⟩
  | notifying _ _ _ _ hwaits => exact .inr ⟨⟨.notifySubscribers block, rfl, hwaits⟩, hcompletes⟩
  | resetting _ _ hwaits => exact .inr ⟨⟨.resetBest block, rfl, hwaits⟩, hcompletes⟩
  | reported hsaved hresets hreports foundAt hended =>
    exact .inl (hfollows.recorded hjs haccepted (.reported hsaved hresets hreports foundAt hended))

end Runs

section Sample

open Reference BlockSubmission

def telegram : NotificationConfig where
  nodeAppInstance := none
  discordBotToken := none
  discordBotClientId := none
  discordBotGuildId := none
  discordBotChannelId := none
  telegramBotToken := some "123:abc"

def oneSubscriber (sends : Bool) : NotificationAnswers where
  fetchGuild _ := true
  fetchChannel _ := true
  getSubscriptions _ := some [42]
  sendMessage _ _ := sends

def accepted : List Event :=
  solving (easyOpening 0 alice) ++
    [handling, handling, .session 0 (.resume 0 (.submitted "SUCCESS!")), handling]

def notifying (sends : Bool) (rest : List Event) : List Occurrence :=
  accepted.map .pool ++ .notified 0 0 (oneSubscriber sends) :: rest.map .pool

def foundShare (world : World) : Option (Share × Block Number × Bytes × ℕ) :=
  world.ended.findSome? fun
    | (share, .submitBlock block blockHex, acceptedAt) => some (share, block, blockHex, acceptedAt)
    | _ => none

theorem mem_of_foundShare {world : World} {acceptedAt : ℕ}
    (h : foundShare world = some (share, block, blockHex, acceptedAt)) :
    (share, .submitBlock block blockHex, acceptedAt) ∈ world.ended := by
  obtain ⟨⟨s, wait, t⟩, hmem, h⟩ := List.exists_of_findSome?_eq_some h
  cases wait <;> cases h
  exact hmem

def isReset : Entry → Bool
  | .call _ _ .resetBestDifficultyAndShares => true
  | _ => false

def runOf (occurrences : List Occurrence) : Option World :=
  run (World.step settings telegram) (World.start 1700000000000) occurrences

theorem accounted_of_delivered_run :
    ∃ world share block blockHex acceptedAt,
      Reach (World.step settings telegram) (Delivered settings telegram share)
        (World.start 1700000000000) world ∧
      (share, .submitBlock block blockHex, acceptedAt) ∈ world.ended ∧
      Accounted settings telegram world share block blockHex := by
  have hp : ((runOf (notifying true [handling])).any fun world ↦
      (foundShare world).any fun (share, _) ↦
        meets (World.step settings telegram) (Delivered settings telegram share)
          (World.start 1700000000000) (notifying true [handling])) = true := by
    decide +kernel
  obtain ⟨world, hworld, hp⟩ := (Option.any_eq_true _ _).mp hp
  obtain ⟨⟨share, block, blockHex, acceptedAt⟩, hfound, hmeets⟩ := (Option.any_eq_true _ _).mp hp
  have hreach := Reach.of_run hmeets hworld
  have hmem := mem_of_foundShare hfound
  exact ⟨world, share, block, blockHex, acceptedAt, hreach, hmem,
    accounted_of_delivered settings serialises telegram 1700000000000 share world hreach block
      blockHex acceptedAt hmem⟩

/-- When Telegram refuses the message, nothing is reset, and no call is under way that would. -/
theorem not_accounted_of_refused_message :
    ¬ ∀ (cfg : Config), cfg.js.Serialises → ∀ (config : NotificationConfig) (now : ℕ)
      (share : Share) (world : World),
      Reach (World.step cfg config) (OnlyNotificationsFail cfg share) (World.start now) world →
      ∀ (block : Block Number) (blockHex : Bytes) (acceptedAt : ℕ),
        (share, .submitBlock block blockHex, acceptedAt) ∈ world.ended →
        Accounted cfg config world share block blockHex := by
  intro h
  have hp : ((runOf (notifying false [])).any fun world ↦
      (foundShare world).any fun (share, _) ↦
        meets (World.step settings telegram) (OnlyNotificationsFail settings share)
          (World.start 1700000000000) (notifying false []) &&
        (world.pool.sessions share.session).tasks.isEmpty &&
        !world.pool.history.any isReset) = true := by
    decide +kernel
  obtain ⟨world, hworld, hp⟩ := (Option.any_eq_true _ _).mp hp
  obtain ⟨⟨share, block, blockHex, acceptedAt⟩, hfound, hp⟩ := (Option.any_eq_true _ _).mp hp
  simp only [Bool.and_eq_true, Bool.not_eq_true', List.isEmpty_iff] at hp
  obtain ⟨⟨hmeets, htasks⟩, hcalls⟩ := hp
  rcases h settings serialises telegram 1700000000000 share world (Reach.of_run hmeets hworld) block
    blockHex acceptedAt (mem_of_foundShare hfound) with hrecorded | ⟨⟨wait, -, rest, hmem⟩, -⟩
  · exact List.any_eq_false.mp hcalls _ hrecorded.resets rfl
  · rw [htasks] at hmem
    cases hmem

end Sample

end ElektronPool.BlockRecords
