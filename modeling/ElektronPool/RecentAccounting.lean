import ElektronPool.Lib.Grouping
import ElektronPool.ShareAccounting

namespace ElektronPool.RecentAccounting

open Lib Lib.Runs Model Model.StratumV1ClientStatistics Model.ClientStatisticsService ShareAccounting

structure Key where
  address : String
  clientName : String
  sessionId : String
deriving DecidableEq

def Key.client (key : Key) : ClientEntity where
  sessionId := key.sessionId
  address := key.address
  clientName := key.clientName
  userAgent := ""
  bestDifficulty := 0
  updatedAt := none

def Key.of (row : ClientStatisticsEntity) : Key := ⟨row.address, row.clientName, row.sessionId⟩

structure Accepted where
  key : Key
  time : ℕ
  difficulty : Difficulty
deriving DecidableEq

def Accepted.call (share : Accepted) : ShareAccounting.Call :=
  ⟨timeSlotOf share.time, share.difficulty⟩

/-- The counters of one session and its calls that wait for the table. -/
structure Counters where
  statistics : StratumV1ClientStatistics
  inFlight : List AddShares := []

/-- The accounting of all sessions, which share the table. -/
structure World where
  now : ℕ
  counters : Key → Counters
  rows : List ClientStatisticsEntity := []
  accepted : List Accepted := []

namespace World

def init (now : ℕ) (submissionCacheStart : Key → ℕ) : World where
  now
  counters key := { statistics := { submissionCacheStart := submissionCacheStart key } }

def settle (w : World) (key : Key) :
    StratumV1ClientStatistics × Option (StatisticsCall × AddShares) → World
  | (statistics, none) =>
    { w with
      counters := Function.update w.counters key { w.counters key with statistics } }
  | (statistics, some (call, wait)) =>
    { w with
      rows := ClientStatisticsService.execute w.rows call
      counters := Function.update w.counters key
        { statistics, inFlight := (w.counters key).inFlight ++ [wait] } }

def step (w : World) : Key × ShareAccounting.Event → Option World
  | (key, .start date submissionDifficulty) =>
    if w.now ≤ date then
      some (({ w with
          now := date
          accepted := w.accepted ++ [⟨key, date, submissionDifficulty⟩] } : World).settle key
        ((w.counters key).statistics.addShares key.client date submissionDifficulty))
    else none
  | (key, .resume i now) =>
    if w.now ≤ now then
      (w.counters key).inFlight[i]?.map fun wait ↦
        ({ w with
          now
          counters := Function.update w.counters key
            { w.counters key with
              inFlight := (w.counters key).inFlight.eraseIdx i } } : World).settle key
          ((w.counters key).statistics.resumeAddShares key.client now wait)
    else none

def of (w : World) (key : Key) : State where
  now := w.now
  statistics := (w.counters key).statistics
  rows := w.rows.filter fun row ↦ Key.of row = key
  inFlight := (w.counters key).inFlight
  started := (w.accepted.filter fun share ↦ share.key = key).map Accepted.call

end World

def NoOverlap (w : World) (e : Key × ShareAccounting.Event) : Prop :=
  ShareAccounting.NoOverlap (w.of e.1) e.2

instance (w : World) (e : Key × ShareAccounting.Event) : Decidable (NoOverlap w e) :=
  inferInstanceAs (Decidable (ShareAccounting.NoOverlap _ _))

def Persisted (w : World) : Prop :=
  ∀ share ∈ w.accepted, (w.counters share.key).inFlight = [] ∧
    ∀ row ∈ w.rows, Key.of row = share.key →
      (w.counters share.key).statistics.currentTimeSlot = some row.time →
      row.shares = (w.counters share.key).statistics.shares ∧
        row.acceptedCount = (w.counters share.key).statistics.acceptedCount

instance (w : World) : Decidable (Persisted w) := inferInstanceAs (Decidable (∀ _ ∈ _, _))

def selectsShare (whereClause : WhereClause) (share : Accepted) : Bool :=
  whereClause.selects share.key.address share.key.clientName share.key.sessionId

def tenMinutes : ℕ := 10 * 60 * 1000

/-- The accounting is that of some of these shares: all that were accepted in the
last ten minutes and none from before. -/
def Covers (shares : List Accepted) (now : ℕ) (accounting : Accounting) : Prop :=
  ∃ covered left, shares.Perm (covered ++ left) ∧
    accounting.acceptedSharesLast10Minutes = covered.length ∧
    accounting.hashRateLast10Minutes =
      divide ((covered.map Accepted.difficulty).sum * (4294967296 : ℚ)) (10 * 60) ∧
    (∀ share ∈ left, ¬ (now < share.time + tenMinutes ∧ share.time ≤ now)) ∧
    ∀ share ∈ covered, now ≤ share.time + tenMinutes

/-- Every share of the last ten minutes is in a slot that starts in them. -/
def SlotsStartWithin (shares : List Accepted) (now : ℕ) : Prop :=
  ∀ share ∈ shares, now < share.time + tenMinutes → now ≤ timeSlotOf share.time + tenMinutes

instance (shares : List Accepted) (now : ℕ) : Decidable (SlotsStartWithin shares now) :=
  inferInstanceAs (Decidable (∀ _ ∈ _, _))

section Rows

variable {client : ClientEntity} {s s' : State} {e : ShareAccounting.Event} {slot : ℕ}

/-- No slot has a row before a call started in it. -/
def Begun (client : ClientEntity) (s : State) : Prop :=
  ∀ slot, rowsFor client slot s.rows ≠ [] → callsIn s.started slot ≠ []

theorem Begun.rows {rows : List ClientStatisticsEntity} {calls : List ShareAccounting.Call}
    (h : Begun client s) (hrows : s'.rows = rows) (hstarted : s'.started = s.started ++ calls)
    (hslots : ∀ slot, rowsFor client slot rows ≠ [] →
      rowsFor client slot s.rows ≠ [] ∨ callsIn s'.started slot ≠ []) : Begun client s' := by
  intro slot hslot
  rw [hrows] at hslot
  rcases hslots slot hslot with hold | hnew
  · rw [hstarted, callsIn, List.filter_append]
    exact List.append_ne_nil_of_left_ne_nil (h slot hold) _
  · exact hnew

theorem rowsFor_update_ne_nil {rows : List ClientStatisticsEntity} {row : ClientStatisticsEntity}
    (h : rowsFor client slot (ClientStatisticsService.update rows row) ≠ []) :
    rowsFor client slot rows ≠ [] := by
  intro hnil
  rw [rowsFor_update, hnil] at h
  exact h rfl

theorem rowsFor_insert_ne_nil {rows : List ClientStatisticsEntity}
    {statistics : StratumV1ClientStatistics} {time : ℕ}
    (h : rowsFor client slot
      (ClientStatisticsService.insert rows (statistics.row client time)) ≠ []) :
    rowsFor client slot rows ≠ [] ∨ slot = time := by
  rw [rowsFor_insert] at h
  split at h
  case isTrue heq => exact .inr heq.symm
  case isFalse => exact .inl (by simpa using h)

theorem callsIn_self_ne_nil (calls : List ShareAccounting.Call) (call : ShareAccounting.Call) :
    callsIn (calls ++ [call]) call.slot ≠ [] := by
  rw [callsIn_append, if_pos rfl]
  exact List.append_ne_nil_of_right_ne_nil _ (by simp)

theorem Begun.start {date : ℕ} {d : Difficulty} (h : Begun client s)
    (hstep : ShareAccounting.step client s (.start date d) = some s') : Begun client s' := by
  simp only [ShareAccounting.step, Option.ite_none_right_eq_some, Option.some.injEq] at hstep
  obtain ⟨-, rfl⟩ := hstep
  cases hslot : s.statistics.currentTimeSlot with
  | none =>
    obtain ⟨statistics, hadd, -⟩ := addShares_first client date d hslot
    rw [hadd]
    apply h.rows rfl rfl
    intro slot hrows
    refine (rowsFor_insert_ne_nil hrows).imp_right ?_
    rintro rfl
    exact callsIn_self_ne_nil s.started ⟨timeSlotOf date, d⟩
  | some slot =>
    by_cases hsame : slot = timeSlotOf date
    · subst hsame
      obtain ⟨statistics, hadd, -⟩ := addShares_same client d hslot
      rcases hadd with hadd | hadd
      · rw [hadd]
        exact h.rows rfl rfl fun _ hrows ↦ .inl hrows
      · rw [hadd]
        exact h.rows rfl rfl fun _ hrows ↦ .inl (rowsFor_update_ne_nil hrows)
    · obtain ⟨statistics, hadd, -⟩ := addShares_transition client d hslot hsame
      rw [hadd]
      exact h.rows rfl rfl fun _ hrows ↦ .inl (rowsFor_update_ne_nil hrows)

theorem Begun.resume {i now : ℕ} (h : Begun client s) (hinv : Inv client s)
    (hstep : ShareAccounting.step client s (.resume i now) = some s') : Begun client s' := by
  simp only [ShareAccounting.step, Option.ite_none_right_eq_some, Option.map_eq_some_iff] at hstep
  obtain ⟨-, wait, hwait, rfl⟩ := hstep
  cases wait with
  | updatedOld slot d =>
    have hmem : AddShares.updatedOld slot d ∈ s.inFlight.filter isTransition :=
      List.mem_filter.mpr ⟨List.mem_of_getElem? hwait, rfl⟩
    refine h.rows rfl (List.append_nil _).symm fun slot' hrows ↦ ?_
    refine (rowsFor_insert_ne_nil hrows).imp_right ?_
    rintro rfl
    cases hinv with
    | fresh _ _ _ _ _ hflight => simp [hflight] at hmem
    | steady _ _ _ hflight => simp [hflight] at hmem
    | moving _ calls call _ _ hcalls _ _ hflight =>
      rw [hflight, List.mem_singleton, AddShares.updatedOld.injEq] at hmem
      rw [hmem.1]
      change callsIn s.started call.slot ≠ []
      rw [hcalls]
      exact callsIn_self_ne_nil calls call
  | insertedFirst | insertedNew | updated =>
    exact h.rows rfl (List.append_nil _).symm fun _ hrows ↦ .inl hrows

theorem later {now : ℕ} (hinv : Inv client s) (hle : s.now ≤ now) :
    Inv client { s with now := now } := by
  cases hinv with
  | fresh hslot hshares hcount hrows hcalls hflight =>
    exact .fresh hslot hshares hcount hrows hcalls hflight
  | steady slot hsettled hslot hflight =>
    exact .steady slot
      ⟨hsettled.currentTimeSlot, hsettled.shares, hsettled.acceptedCount, hsettled.owned,
        hsettled.past, hsettled.current, hsettled.future, hsettled.le⟩
      (hslot.trans (timeSlotOf_mono hle)) hflight
  | moving slot calls call hsettled haccounted hcalls hlt hslot hflight =>
    exact .moving slot calls call
      ⟨hsettled.currentTimeSlot, hsettled.shares, hsettled.acceptedCount, hsettled.owned,
        hsettled.past, hsettled.current, hsettled.future, hsettled.le⟩
      haccounted hcalls hlt (hslot.trans (timeSlotOf_mono hle)) hflight

end Rows

section Simulation

variable {w w' : World} {key key' : Key}

def rowOf : StatisticsCall → ClientStatisticsEntity
  | .insert row => row
  | .update row => row

def Writes (key : Key) (r : StratumV1ClientStatistics × Option (StatisticsCall × AddShares)) :
    Prop :=
  ∀ call wait, r.2 = some (call, wait) → Key.of (rowOf call) = key

theorem writes_addShares (statistics : StratumV1ClientStatistics) (key : Key) (date : ℕ)
    (d : Difficulty) : Writes key (statistics.addShares key.client date d) := by
  intro call wait h
  simp only [addShares] at h
  split at h
  · cases h
    rfl
  · split_ifs at h
    · cases h
      rfl
    · cases h
      rfl

theorem writes_resumeAddShares (statistics : StratumV1ClientStatistics) (key : Key) (now : ℕ)
    (wait : AddShares) : Writes key (statistics.resumeAddShares key.client now wait) := by
  intro call wait' h
  cases wait <;> cases h
  rfl

theorem execute_of_same {rows : List ClientStatisticsEntity} {call : StatisticsCall}
    (h : Key.of (rowOf call) = key) :
    (ClientStatisticsService.execute rows call).filter (fun row ↦ Key.of row = key) =
      ClientStatisticsService.execute (rows.filter fun row ↦ Key.of row = key) call := by
  cases call with
  | insert row =>
    simp only [rowOf] at h
    simp only [ClientStatisticsService.execute, ClientStatisticsService.insert, List.filter_append,
      List.filter_cons, h, decide_true, if_true, List.filter_nil]
  | update row =>
    simp only [ClientStatisticsService.execute, ClientStatisticsService.update, List.filter_map]
    congr 1
    apply List.filter_congr
    intro r _
    simp only [Function.comp]
    split <;> rfl

theorem execute_of_other {rows : List ClientStatisticsEntity} {call : StatisticsCall}
    (h : Key.of (rowOf call) ≠ key) :
    (ClientStatisticsService.execute rows call).filter (fun row ↦ Key.of row = key) =
      rows.filter fun row ↦ Key.of row = key := by
  cases call with
  | insert row =>
    simp only [rowOf] at h
    simp only [ClientStatisticsService.execute, ClientStatisticsService.insert, List.filter_append,
      List.filter_cons, h, decide_false, Bool.false_eq_true, if_false, List.filter_nil,
      List.append_nil]
  | update row =>
    simp only [rowOf] at h
    simp only [ClientStatisticsService.execute, ClientStatisticsService.update, List.filter_map]
    have hkeys : (rows.filter ((fun r ↦ decide (Key.of r = key)) ∘ fun r ↦
        if ClientStatisticsService.sameKey r row then
          { r with shares := row.shares, acceptedCount := row.acceptedCount } else r)) =
        rows.filter fun r ↦ Key.of r = key := by
      apply List.filter_congr
      intro r _
      simp only [Function.comp]
      split <;> rfl
    rw [hkeys]
    refine (List.map_congr_left fun r hr ↦ ?_).trans (List.map_id _)
    have hr := of_decide_eq_true (List.mem_filter.mp hr).2
    rw [if_neg]
    · rfl
    · simp only [ClientStatisticsService.sameKey, Bool.and_eq_true, decide_eq_true_eq]
      rintro ⟨⟨⟨haddress, hname⟩, hsession⟩, -⟩
      refine h ?_
      rw [← hr, Key.of, Key.of, haddress, hname, hsession]

theorem of_settle_self {r : StratumV1ClientStatistics × Option (StatisticsCall × AddShares)}
    (h : Writes key r) : (w.settle key r).of key = ShareAccounting.settle (w.of key) r := by
  obtain ⟨statistics, _ | ⟨call, wait⟩⟩ := r
  · simp only [World.settle, World.of, ShareAccounting.settle, Function.update_self]
  · simp only [World.settle, World.of, ShareAccounting.settle, Function.update_self,
      execute_of_same (h call wait rfl)]

theorem of_settle_of_ne {r : StratumV1ClientStatistics × Option (StatisticsCall × AddShares)}
    (h : Writes key r) (hne : key' ≠ key) : (w.settle key r).of key' = w.of key' := by
  obtain ⟨statistics, _ | ⟨call, wait⟩⟩ := r
  · simp only [World.settle, World.of, Function.update_of_ne hne]
  · have hother : Key.of (rowOf call) ≠ key' := (h call wait rfl).trans_ne hne.symm
    simp only [World.settle, World.of, Function.update_of_ne hne, execute_of_other hother]

theorem now_settle (w : World) (key : Key)
    (r : StratumV1ClientStatistics × Option (StatisticsCall × AddShares)) :
    (w.settle key r).now = w.now ∧ (w.settle key r).accepted = w.accepted := by
  obtain ⟨statistics, _ | ⟨call, wait⟩⟩ := r <;> exact ⟨rfl, rfl⟩

/-- A step of the world is one of the session it is about, and none of the others. -/
structure Simulates (w : World) (key : Key) (e : ShareAccounting.Event) (w' : World) : Prop where
  session : ShareAccounting.step key.client (w.of key) e = some (w'.of key)
  others : ∀ key' ≠ key, w'.of key' = { w.of key' with now := w'.now }
  now : w.now ≤ w'.now
  accepted : ∀ share ∈ w'.accepted, share ∈ w.accepted ∨ share.time ≤ w'.now

theorem simulates_of_step {e : ShareAccounting.Event} (h : w.step (key, e) = some w') :
    Simulates w key e w' := by
  cases e with
  | start date d =>
    simp only [World.step, Option.ite_none_right_eq_some, Option.some.injEq] at h
    obtain ⟨hdate, rfl⟩ := h
    have hwrites := writes_addShares (w.counters key).statistics key date d
    have hsame := now_settle { w with now := date, accepted := w.accepted ++ [⟨key, date, d⟩] } key
      ((w.counters key).statistics.addShares key.client date d)
    refine ⟨?_, fun key' hne ↦ ?_, ?_, fun share hshare ↦ ?_⟩
    · rw [of_settle_self hwrites, ShareAccounting.step, if_pos (by exact hdate)]
      congr 2
      simp only [World.of, List.filter_append, List.filter_cons, decide_true, if_true,
        List.filter_nil, List.map_append, List.map_cons, List.map_nil]
      rfl
    · rw [of_settle_of_ne hwrites hne, hsame.1]
      simp only [World.of, List.filter_append, List.filter_cons, hne.symm, decide_false,
        Bool.false_eq_true, if_false, List.filter_nil, List.append_nil]
    · rw [hsame.1]
      exact hdate
    · rw [hsame.2] at hshare
      refine (List.mem_append.mp hshare).imp_right fun hnew ↦ ?_
      rw [List.mem_singleton.mp hnew, hsame.1]
  | resume i now =>
    simp only [World.step, Option.ite_none_right_eq_some, Option.map_eq_some_iff] at h
    obtain ⟨hnow, wait, hwait, rfl⟩ := h
    have hwrites := writes_resumeAddShares (w.counters key).statistics key now wait
    have hsame := now_settle
      { w with
        now
        counters := Function.update w.counters key
          { w.counters key with inFlight := (w.counters key).inFlight.eraseIdx i } }
      key ((w.counters key).statistics.resumeAddShares key.client now wait)
    refine ⟨?_, fun key' hne ↦ ?_, ?_, fun share hshare ↦ ?_⟩
    · rw [of_settle_self hwrites, ShareAccounting.step, if_pos (by exact hnow),
        show (w.of key).inFlight[i]? = some wait from hwait, Option.map_some]
      congr 2
      simp only [World.of, Function.update_self]
    · rw [of_settle_of_ne hwrites hne, hsame.1]
      simp only [World.of, Function.update_of_ne hne]
    · rw [hsame.1]
      exact hnow
    · rw [hsame.2] at hshare
      exact .inl hshare

structure Books (w : World) : Prop where
  inv : ∀ key : Key, Inv key.client (w.of key)
  begun : ∀ key : Key, Begun key.client (w.of key)
  past : ∀ share ∈ w.accepted, share.time ≤ w.now

theorem Books.step {e : Key × ShareAccounting.Event} (h : Books w) (hguard : NoOverlap w e)
    (hstep : w.step e = some w') : Books w' := by
  obtain ⟨key, e⟩ := e
  have hsim := simulates_of_step hstep
  refine ⟨fun key' ↦ ?_, fun key' ↦ ?_, fun share hshare ↦ ?_⟩
  · by_cases hkey : key' = key
    · subst hkey
      cases e with
      | start date d => exact (h.inv key').start hguard hsim.session
      | resume i now => exact (h.inv key').resume hsim.session
    · rw [hsim.others key' hkey]
      exact later (h.inv key') hsim.now
  · by_cases hkey : key' = key
    · subst hkey
      cases e with
      | start date d => exact (h.begun key').start hsim.session
      | resume i now => exact (h.begun key').resume (h.inv key') hsim.session
    · rw [hsim.others key' hkey]
      exact h.begun key'
  · rcases hsim.accepted share hshare with hold | hnew
    · exact (h.past share hold).trans hsim.now
    · exact hnew

theorem books_of_reach {now : ℕ} {submissionCacheStart : Key → ℕ}
    (h : Reach World.step NoOverlap (World.init now submissionCacheStart) w) : Books w := by
  refine h.invariant ⟨fun key ↦ ?_, fun key slot hrows ↦ ?_, fun share hshare ↦ ?_⟩
    fun w e w' hbooks hguard hstep ↦ hbooks.step hguard hstep
  · exact .fresh rfl rfl rfl rfl rfl rfl
  · exact absurd rfl hrows
  · cases hshare

end Simulation

section Totals

variable {w : World} {key : Key} {slot now : ℕ} {row : ClientStatisticsEntity} {share : Accepted}
  {M : Type*} [AddCommMonoid M]

def slotOfRow (row : ClientStatisticsEntity) : Key × ℕ := (Key.of row, row.time)

def slotOf (share : Accepted) : Key × ℕ := (share.key, timeSlotOf share.time)

def sharesIn (w : World) (k : Key × ℕ) : List Accepted := w.accepted.filter fun a ↦ slotOf a = k

theorem callsIn_of (w : World) (key : Key) (slot : ℕ) :
    callsIn (w.of key).started slot = (sharesIn w (key, slot)).map Accepted.call := by
  have hshares : ((w.accepted.filter fun a ↦ a.key = key).filter fun a ↦ a.call.slot = slot) =
      sharesIn w (key, slot) := by
    rw [List.filter_filter, sharesIn]
    refine List.filter_congr fun a _ ↦ Bool.eq_iff_iff.mpr ?_
    rw [Bool.and_eq_true, decide_eq_true_eq, decide_eq_true_eq, decide_eq_true_eq]
    exact ⟨fun h ↦ Prod.ext h.2 h.1, fun h ↦ ⟨congrArg Prod.snd h, congrArg Prod.fst h⟩⟩
  rw [callsIn, World.of, List.filter_map, ← hshares]
  rfl

theorem rowsFor_of (w : World) (key : Key) (slot : ℕ) :
    rowsFor key.client slot (w.of key).rows =
      w.rows.filter fun row ↦ slotOfRow row = (key, slot) := by
  simp only [rowsFor, World.of, List.filter_filter]
  apply List.filter_congr
  intro row _
  by_cases hkey : Key.of row = key
  · subst hkey
    simp [Key.of, Key.client, slotOfRow]
  · simp [hkey, slotOfRow]

def AccountsFor (w : World) (row : ClientStatisticsEntity) : Prop :=
  row.shares = ((sharesIn w (slotOfRow row)).map Accepted.difficulty).sum ∧
    row.acceptedCount = (sharesIn w (slotOfRow row)).length

theorem Books.accounted (h : Books w) (hpersisted : Persisted w)
    (hne : sharesIn w (key, slot) ≠ []) :
    ∃ row, (w.rows.filter fun row ↦ slotOfRow row = (key, slot)) = [row] ∧ AccountsFor w row := by
  obtain ⟨share, hshare⟩ := List.exists_mem_of_ne_nil _ hne
  obtain ⟨hmem, hslot⟩ := List.mem_filter.mp hshare
  have hkey : share.key = key := congrArg Prod.fst (of_decide_eq_true hslot)
  obtain ⟨hflight, hcurrent⟩ := hpersisted share hmem
  rw [hkey] at hflight hcurrent
  have hcalls : callsIn (w.of key).started slot ≠ [] := by
    rw [callsIn_of]
    simpa using hne
  have haccounted : Accounted key.client (w.of key).started (w.of key).rows slot := by
    cases h.inv key with
    | fresh _ _ _ _ hstarted =>
      rw [hstarted] at hcalls
      exact absurd rfl hcalls
    | moving _ _ _ _ _ _ _ _ hmoving =>
      rw [show (w.of key).inFlight = [] from hflight] at hmoving
      cases hmoving
    | steady current hsettled _ _ =>
      rcases lt_trichotomy slot current with hlt | rfl | hlt
      · exact hsettled.past slot hlt hcalls
      · obtain ⟨row, hrow⟩ := hsettled.current
        have hrowMem : row ∈ w.rows.filter fun row ↦ slotOfRow row = (key, slot) := by
          rw [← rowsFor_of, hrow]
          exact List.mem_singleton_self row
        obtain ⟨hrowMem, hrowSlot⟩ := List.mem_filter.mp hrowMem
        obtain ⟨hrowKey, hrowTime⟩ := Prod.mk.injEq .. ▸ of_decide_eq_true hrowSlot
        obtain ⟨hshares, hcount⟩ := hcurrent row hrowMem hrowKey
          (hrowTime ▸ hsettled.currentTimeSlot)
        exact ⟨row, hrow, hshares.trans hsettled.shares, hcount.trans hsettled.acceptedCount⟩
      · exact absurd (callsIn_eq_nil fun call hcall ↦ (hsettled.le call hcall).trans_lt hlt) hcalls
  obtain ⟨row, hrow, hshares, hcount⟩ := haccounted
  rw [rowsFor_of] at hrow
  have hrowSlot : slotOfRow row = (key, slot) := by
    have hrowMem := List.mem_filter.mp (hrow ▸ List.mem_singleton_self row)
    exact of_decide_eq_true hrowMem.2
  refine ⟨row, hrow, ?_, ?_⟩
  · rw [hshares, total, callsIn_of, List.map_map, hrowSlot]
    rfl
  · rw [hcount, callsIn_of, List.length_map, hrowSlot]

theorem Books.begun_of_mem (h : Books w) (hrow : row ∈ w.rows) : sharesIn w (slotOfRow row) ≠ [] := by
  have hrows : rowsFor (Key.of row).client row.time (w.of (Key.of row)).rows ≠ [] := by
    rw [rowsFor_of]
    exact List.ne_nil_of_mem (List.mem_filter.mpr ⟨hrow, decide_eq_true rfl⟩)
  have hcalls := h.begun (Key.of row) row.time hrows
  rw [callsIn_of] at hcalls
  change sharesIn w (Key.of row, row.time) ≠ []
  simpa using hcalls

theorem Books.accountsFor (h : Books w) (hpersisted : Persisted w) (hrow : row ∈ w.rows) :
    AccountsFor w row := by
  obtain ⟨row', hrows, haccounts⟩ :=
    @Books.accounted w (Key.of row) row.time h hpersisted (h.begun_of_mem hrow)
  have hmem : row ∈ [row'] := hrows ▸ List.mem_filter.mpr ⟨hrow, decide_eq_true rfl⟩
  rw [List.mem_singleton.mp hmem]
  exact haccounts

theorem Books.nodup (h : Books w) (hpersisted : Persisted w) :
    (w.rows.map slotOfRow).Nodup := by
  apply List.nodup_iff_count_le_one.mpr
  intro k
  rw [List.count, List.countP_map, List.countP_eq_length_filter]
  have hrows : (w.rows.filter ((fun k' ↦ k' == k) ∘ slotOfRow)) =
      w.rows.filter fun row ↦ slotOfRow row = (k.1, k.2) :=
    List.filter_congr fun row _ ↦ by simp [Function.comp, beq_eq_decide]
  rw [hrows]
  by_cases hne : sharesIn w (k.1, k.2) = []
  · have hnil : (w.rows.filter fun row ↦ slotOfRow row = (k.1, k.2)) = [] := by
      apply List.filter_eq_nil_iff.mpr
      intro row hrow hslot
      have hsome := h.begun_of_mem hrow
      rw [of_decide_eq_true hslot] at hsome
      exact hsome hne
    rw [hnil]
    exact Nat.zero_le 1
  · obtain ⟨row, hrow, -⟩ := h.accounted hpersisted hne
    rw [hrow]
    exact le_rfl

theorem Books.sum_rows (h : Books w) (hpersisted : Persisted w) (p : Key × ℕ → Bool)
    (f : Accepted → M) (g : ClientStatisticsEntity → M)
    (hg : ∀ row ∈ w.rows, g row = ((sharesIn w (slotOfRow row)).map f).sum) :
    ((w.rows.filter fun row ↦ p (slotOfRow row)).map g).sum =
      ((w.accepted.filter fun a ↦ p (slotOf a)).map f).sum := by
  have hnodup : ((w.rows.filter fun row ↦ p (slotOfRow row)).map slotOfRow).Nodup :=
    (h.nodup hpersisted).sublist (List.filter_sublist.map slotOfRow)
  have hkeys (a : Accepted) (ha : a ∈ w.accepted) :
      p (slotOf a) = true ↔
        slotOf a ∈ (w.rows.filter fun row ↦ p (slotOfRow row)).map slotOfRow := by
    rw [List.mem_map]
    constructor
    · intro hp
      have hne : sharesIn w (slotOf a) ≠ [] :=
        List.ne_nil_of_mem (List.mem_filter.mpr ⟨ha, decide_eq_true rfl⟩)
      obtain ⟨row, hrow, -⟩ := h.accounted hpersisted hne
      have hrowMem := List.mem_filter.mp (hrow ▸ List.mem_singleton_self row)
      have hslot : slotOfRow row = slotOf a := of_decide_eq_true hrowMem.2
      exact ⟨row, List.mem_filter.mpr ⟨hrowMem.1, hslot ▸ hp⟩, hslot⟩
    · rintro ⟨row, hrow, hslot⟩
      exact hslot ▸ (List.mem_filter.mp hrow).2
  rw [Grouping.sum_filter_eq_sum_keys slotOf f hnodup w.accepted hkeys, List.map_map]
  congr 1
  exact List.map_congr_left fun row hrow ↦ hg row (List.mem_of_mem_filter hrow)

def startingWithin (shares : List Accepted) (now : ℕ) : List Accepted :=
  shares.filter fun share ↦ now ≤ timeSlotOf share.time + tenMinutes

theorem since_selected (whereClause : WhereClause) (rows : List ClientStatisticsEntity) (now : ℕ) :
    since ((now : ℤ) - 10 * 60 * 1000) (selected whereClause rows) =
      rows.filter fun row ↦ decide (now ≤ (slotOfRow row).2 + tenMinutes) &&
        whereClause.selects (slotOfRow row).1.address (slotOfRow row).1.clientName
          (slotOfRow row).1.sessionId := by
  simp only [since, selected, List.filter_filter]
  refine List.filter_congr fun row _ ↦ congrArg (· && _) (decide_eq_decide.mpr ?_)
  change (now : ℤ) - 10 * 60 * 1000 ≤ row.time ↔ now ≤ row.time + 10 * 60 * 1000
  omega

/-- The accounting of the last ten minutes is that of the shares whose slots start in them. -/
theorem Books.recent (h : Books w) (hpersisted : Persisted w) (whereClause : WhereClause) (now : ℕ) :
    (getAccounting whereClause w.rows now).acceptedSharesLast10Minutes =
        (startingWithin (w.accepted.filter (selectsShare whereClause)) now).length ∧
      (getAccounting whereClause w.rows now).hashRateLast10Minutes =
        divide (((startingWithin (w.accepted.filter (selectsShare whereClause)) now).map
          Accepted.difficulty).sum * 4294967296) (10 * 60) := by
  have hshares : startingWithin (w.accepted.filter (selectsShare whereClause)) now =
      w.accepted.filter fun a ↦ decide (now ≤ (slotOf a).2 + tenMinutes) &&
        whereClause.selects (slotOf a).1.address (slotOf a).1.clientName (slotOf a).1.sessionId := by
    simp only [startingWithin, List.filter_filter]
    rfl
  have hsum {M : Type} [AddCommMonoid M] (f : Accepted → M) := h.sum_rows hpersisted
    (fun k ↦ decide (now ≤ k.2 + tenMinutes) &&
      whereClause.selects k.1.address k.1.clientName k.1.sessionId) f
  constructor
  · simp only [getAccounting, acceptedShares, since_selected, hshares]
    rw [hsum (fun _ ↦ 1) _ fun row hrow ↦ by
      rw [(h.accountsFor hpersisted hrow).2, List.map_const', List.sum_replicate, smul_eq_mul,
        mul_one]]
    rw [List.map_const', List.sum_replicate, smul_eq_mul, mul_one]
  · simp only [getAccounting, creditedDifficulty, since_selected, hshares]
    rw [hsum Accepted.difficulty _ fun row hrow ↦ (h.accountsFor hpersisted hrow).1]

end Totals

section Window

variable {shares : List Accepted} {now : ℕ} {share : Accepted} {accounting : Accounting}

theorem timeSlotOf_le (time : ℕ) : timeSlotOf time ≤ time := Nat.div_mul_le_self _ _

theorem mem_startingWithin :
    share ∈ startingWithin shares now ↔
      share ∈ shares ∧ now ≤ timeSlotOf share.time + tenMinutes := by
  rw [startingWithin, List.mem_filter, decide_eq_true_eq]

theorem covers_of_slotsStartWithin (h : SlotsStartWithin shares now)
    (hcount : accounting.acceptedSharesLast10Minutes = (startingWithin shares now).length)
    (hrate : accounting.hashRateLast10Minutes =
      divide (((startingWithin shares now).map Accepted.difficulty).sum * 4294967296) (10 * 60)) :
    Covers shares now accounting := by
  have hperm : shares.Perm (startingWithin shares now ++
      shares.filter fun share ↦ !decide (now ≤ timeSlotOf share.time + tenMinutes)) :=
    (List.filter_append_perm _ shares).symm
  refine ⟨_, _, hperm, hcount, hrate, fun share hleft ↦ ?_, fun share hcovered ↦ ?_⟩
  · obtain ⟨hmem, hnot⟩ := List.mem_filter.mp hleft
    rintro ⟨hlate, -⟩
    rw [decide_eq_true (h share hmem hlate)] at hnot
    cases hnot
  · have hslot := (mem_startingWithin.mp hcovered).2
    have hle := timeSlotOf_le share.time
    omega

theorem late_of_mem_startingWithin {early : Accepted} (hlate : now < share.time + tenMinutes)
    (hslot : ¬ now ≤ timeSlotOf share.time + tenMinutes)
    (hearly : early ∈ startingWithin shares now) : now < early.time + tenMinutes := by
  have hstart := (mem_startingWithin.mp hearly).2
  simp only [timeSlotOf, tenMinutes] at hlate hslot hstart ⊢
  omega

theorem slotsStartWithin_of_covers (hpast : ∀ share ∈ shares, share.time ≤ now)
    (hcount : accounting.acceptedSharesLast10Minutes = (startingWithin shares now).length)
    (h : Covers shares now accounting) : SlotsStartWithin shares now := by
  obtain ⟨covered, left, hperm, hcovered, -, hleft, -⟩ := h
  intro share hshare hlate
  by_contra hslot
  have hrecent : (shares.filter fun a ↦ now < a.time + tenMinutes).length ≤ covered.length := by
    rw [(hperm.filter _).length_eq, List.filter_append]
    have hnil : (left.filter fun a ↦ now < a.time + tenMinutes) = [] := by
      refine List.filter_eq_nil_iff.mpr fun a ha hrecent ↦ hleft a ha ⟨of_decide_eq_true hrecent, ?_⟩
      exact hpast a (hperm.symm.subset (List.mem_append_right _ ha))
    rw [hnil, List.append_nil]
    exact List.length_filter_le _ _
  have hfewer : (startingWithin shares now).length <
      (shares.filter fun a ↦ now < a.time + tenMinutes).length := by
    have hsame : startingWithin shares now = (shares.filter fun a ↦ now < a.time + tenMinutes).filter
        fun a ↦ now ≤ timeSlotOf a.time + tenMinutes := by
      rw [List.filter_filter]
      refine List.filter_congr fun a ha ↦ Bool.eq_iff_iff.mpr ?_
      rw [Bool.and_eq_true, decide_eq_true_eq, decide_eq_true_eq]
      refine ⟨fun hstart ↦ ⟨hstart, ?_⟩, fun hstart ↦ hstart.1⟩
      exact late_of_mem_startingWithin hlate hslot (mem_startingWithin.mpr ⟨ha, hstart⟩)
    rw [hsame]
    refine List.length_filter_lt_length_iff_exists.mpr ⟨share, ?_, by simpa using hslot⟩
    exact List.mem_filter.mpr ⟨hshare, decide_eq_true hlate⟩
  omega

end Window

/-- In every run without overlaps, once the rows are up to date, an accounting
covers the last ten minutes exactly when every share of them is in a slot that
starts in them. -/
theorem covers_iff_slotsStartWithin (start now : ℕ) (submissionCacheStart : Key → ℕ) (w : World)
    (h : Reach World.step NoOverlap (World.init start submissionCacheStart) w)
    (hpersisted : Persisted w) (hnow : w.now ≤ now) (whereClause : WhereClause) :
    Covers (w.accepted.filter (selectsShare whereClause)) now
        (getAccounting whereClause w.rows now) ↔
      SlotsStartWithin (w.accepted.filter (selectsShare whereClause)) now := by
  have hbooks := books_of_reach h
  obtain ⟨hcount, hrate⟩ := hbooks.recent hpersisted whereClause now
  constructor
  · refine slotsStartWithin_of_covers (fun share hshare ↦ ?_) hcount
    exact (hbooks.past share (List.mem_of_mem_filter hshare)).trans hnow
  · intro hslots
    exact covers_of_slotsStartWithin hslots hcount hrate

section Sample

def bitaxe : Key := ⟨"be1qminer", "bitaxe3", "57a6f098"⟩
def nerdminer : Key := ⟨"be1qminer", "nerd", "0c33e1b2"⟩

theorem covers_iff_slotsStartWithin_run :
    ∃ w, Reach World.step NoOverlap (World.init 0 fun _ ↦ 0) w ∧ w.accepted.length = 2 ∧
      Covers (w.accepted.filter (selectsShare .pool)) 900000 (getAccounting .pool w.rows 900000) := by
  obtain ⟨w, hw, hp⟩ := Reach.of_any World.step NoOverlap (World.init 0 fun _ ↦ 0)
    [(bitaxe, .start 600000 64), (nerdminer, .start 600001 2), (bitaxe, .resume 0 600005),
      (nerdminer, .resume 0 600006)]
    (fun w ↦ Persisted w ∧ w.now ≤ 900000 ∧ w.accepted.length = 2 ∧
      SlotsStartWithin (w.accepted.filter (selectsShare .pool)) 900000)
    (by decide +kernel) (by decide +kernel)
  obtain ⟨hpersisted, hnow, hlength, hslots⟩ := of_decide_eq_true hp
  exact ⟨w, hw, hlength,
    (covers_iff_slotsStartWithin 0 900000 _ w hw hpersisted hnow .pool).mpr hslots⟩

/-- A share at the end of a slot is not counted five minutes later. -/
theorem not_covers_of_slot_start :
    ¬ ∀ (start now : ℕ) (submissionCacheStart : Key → ℕ) (w : World),
      Reach World.step NoOverlap (World.init start submissionCacheStart) w → Persisted w →
      w.now ≤ now → ∀ whereClause, Covers (w.accepted.filter (selectsShare whereClause)) now
        (getAccounting whereClause w.rows now) := by
  intro h
  obtain ⟨w, hw, hp⟩ := Reach.of_any World.step NoOverlap (World.init 0 fun _ ↦ 0)
    [(bitaxe, .start 599000 64), (bitaxe, .resume 0 599005)]
    (fun w ↦ Persisted w ∧ w.now ≤ 900000 ∧
      w.accepted.filter (selectsShare .pool) = [⟨bitaxe, 599000, 64⟩] ∧
      (getAccounting .pool w.rows 900000).acceptedSharesLast10Minutes = 0)
    (by decide +kernel) (by decide +kernel)
  obtain ⟨hpersisted, hnow, haccepted, hcount⟩ := of_decide_eq_true hp
  obtain ⟨covered, left, hperm, hcovered, -, hleft, -⟩ := h 0 900000 _ w hw hpersisted hnow .pool
  rw [hcount, eq_comm, List.length_eq_zero_iff] at hcovered
  rw [hcovered, List.nil_append, haccepted] at hperm
  exact hleft ⟨bitaxe, 599000, 64⟩ (hperm.subset (List.mem_singleton_self _)) ⟨by decide, by decide⟩

end Sample

end ElektronPool.RecentAccounting
