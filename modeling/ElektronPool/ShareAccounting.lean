import ElektronPool.Lib.Runs
import ElektronPool.Model.ClientStatistics

namespace ElektronPool.ShareAccounting

open Lib.Runs Model Model.StratumV1ClientStatistics

/-- A call of `addShares`, as its caller sees it. -/
structure Call where
  slot : ℕ
  difficulty : Difficulty
deriving DecidableEq

/-- The accounting of one session: its in-memory counters, the table, the calls
waiting for the table, and the calls started so far. -/
structure State where
  now : ℕ
  statistics : StratumV1ClientStatistics
  rows : List ClientStatisticsEntity := []
  inFlight : List AddShares := []
  started : List Call := []
deriving DecidableEq

inductive Event
  | start (date : ℕ) (submissionDifficulty : Difficulty)
  | resume (i : ℕ) (now : ℕ)

def init (date : ℕ) : State where
  now := date
  statistics := { submissionCacheStart := date }

variable (client : ClientEntity)

def settle (s : State) :
    StratumV1ClientStatistics × Option (StatisticsCall × AddShares) → State
  | (statistics, none) => { s with statistics }
  | (statistics, some (call, wait)) =>
    { s with
      statistics
      rows := ClientStatisticsService.execute s.rows call
      inFlight := s.inFlight ++ [wait] }

def step (s : State) : Event → Option State
  | .start date submissionDifficulty =>
    if s.now ≤ date then
      some (settle
        { s with now := date, started := s.started ++ [⟨timeSlotOf date, submissionDifficulty⟩] }
        (s.statistics.addShares client date submissionDifficulty))
    else none
  | .resume i now =>
    if s.now ≤ now then
      s.inFlight[i]?.map fun wait ↦
        settle { s with now, inFlight := s.inFlight.eraseIdx i }
          (s.statistics.resumeAddShares client now wait)
    else none

def callsIn (calls : List Call) (slot : ℕ) : List Call := calls.filter fun call ↦ call.slot = slot

def total (calls : List Call) (slot : ℕ) : Difficulty :=
  ((callsIn calls slot).map Call.difficulty).sum

def rowsFor (slot : ℕ) (rows : List ClientStatisticsEntity) : List ClientStatisticsEntity :=
  rows.filter fun row ↦ row.sessionId = client.sessionId && row.time = slot

def Accounted (calls : List Call) (rows : List ClientStatisticsEntity) (slot : ℕ) : Prop :=
  ∃ row, rowsFor client slot rows = [row] ∧ row.shares = total calls slot ∧
    row.acceptedCount = (callsIn calls slot).length

def Conserved (s : State) : Prop :=
  s.inFlight = [] → ∀ slot currentTimeSlot, s.statistics.currentTimeSlot = some currentTimeSlot →
    slot < currentTimeSlot → callsIn s.started slot ≠ [] → Accounted client s.started s.rows slot

def isTransition : AddShares → Bool
  | .updatedOld _ _ => true
  | _ => false

/-- No call starts while another waits in the update of its slot transition. -/
def NoOverlap (s : State) : Event → Prop
  | .start _ _ => s.inFlight.filter isTransition = []
  | .resume _ _ => True

section Rows

variable {client} {rows : List ClientStatisticsEntity} {row : ClientStatisticsEntity} {slot : ℕ}

def Owned (client : ClientEntity) (rows : List ClientStatisticsEntity) : Prop :=
  ∀ row ∈ rows, row.address = client.address ∧ row.clientName = client.clientName ∧
    row.sessionId = client.sessionId

theorem Owned.insert (h : Owned client rows) (s : StratumV1ClientStatistics) (time : ℕ) :
    Owned client (ClientStatisticsService.insert rows (s.row client time)) := by
  intro r hr
  rcases List.mem_append.mp hr with hr | hr
  · exact h r hr
  · obtain rfl := List.mem_singleton.mp hr
    exact ⟨rfl, rfl, rfl⟩

theorem Owned.update (h : Owned client rows) (row : ClientStatisticsEntity) :
    Owned client (ClientStatisticsService.update rows row) := by
  intro r hr
  obtain ⟨r₀, hr₀, rfl⟩ := List.mem_map.mp hr
  split
  · exact h r₀ hr₀
  · exact h r₀ hr₀

theorem rowsFor_insert (s : StratumV1ClientStatistics) (time : ℕ) :
    rowsFor client slot (ClientStatisticsService.insert rows (s.row client time)) =
      rowsFor client slot rows ++ if time = slot then [s.row client time] else [] := by
  simp only [rowsFor, ClientStatisticsService.insert, List.filter_append]
  split <;> simp [StratumV1ClientStatistics.row, *]

theorem rowsFor_update (new : ClientStatisticsEntity) :
    rowsFor client slot (ClientStatisticsService.update rows new) =
      ClientStatisticsService.update (rowsFor client slot rows) new := by
  simp only [rowsFor, ClientStatisticsService.update, List.filter_map]
  congr 1
  apply List.filter_congr
  intro r _
  simp only [Function.comp]
  split <;> rfl

theorem rowsFor_update_ne (s : StratumV1ClientStatistics) {time : ℕ} (h : slot ≠ time) :
    rowsFor client slot (ClientStatisticsService.update rows (s.row client time)) =
      rowsFor client slot rows := by
  rw [rowsFor_update, ClientStatisticsService.update]
  refine (List.map_congr_left fun r hr ↦ ?_).trans (List.map_id _)
  have htime : r.time = slot := by
    have := (List.mem_filter.mp hr).2
    simp only [Bool.and_eq_true, decide_eq_true_eq] at this
    exact this.2
  have hkey : ClientStatisticsService.sameKey r (s.row client time) = false := by
    simp [ClientStatisticsService.sameKey, StratumV1ClientStatistics.row, htime, h]
  simp [hkey]

theorem rowsFor_update_self (howned : Owned client rows) (s : StratumV1ClientStatistics)
    (h : rowsFor client slot rows = [row]) :
    ∃ row', rowsFor client slot (ClientStatisticsService.update rows (s.row client slot)) = [row'] ∧
      row'.shares = s.shares ∧ row'.acceptedCount = s.acceptedCount := by
  have hmem : row ∈ rowsFor client slot rows := h ▸ List.mem_singleton.mpr rfl
  obtain ⟨hrow, hfor⟩ := List.mem_filter.mp hmem
  obtain ⟨haddress, hname, hsession⟩ := howned row hrow
  have htime : row.time = slot := by
    simp only [Bool.and_eq_true, decide_eq_true_eq] at hfor
    exact hfor.2
  have hkey : ClientStatisticsService.sameKey row (s.row client slot) = true := by
    simp [ClientStatisticsService.sameKey, StratumV1ClientStatistics.row, *]
  refine ⟨{ row with shares := s.shares, acceptedCount := s.acceptedCount }, ?_, rfl, rfl⟩
  rw [rowsFor_update, h]
  simp only [ClientStatisticsService.update, List.map_cons, List.map_nil, hkey, if_true]
  rfl

end Rows

section Calls

variable {calls : List Call} {slot : ℕ}

theorem callsIn_append (call : Call) :
    callsIn (calls ++ [call]) slot =
      callsIn calls slot ++ if call.slot = slot then [call] else [] := by
  simp only [callsIn, List.filter_append]
  split <;> simp [*]

theorem callsIn_append_ne {call : Call} (h : call.slot ≠ slot) :
    callsIn (calls ++ [call]) slot = callsIn calls slot := by
  rw [callsIn_append, if_neg h, List.append_nil]

theorem callsIn_eq_nil (h : ∀ call ∈ calls, call.slot < slot) : callsIn calls slot = [] := by
  apply List.filter_eq_nil_iff.mpr
  intro call hcall
  simpa using (h call hcall).ne

theorem total_append_self (d : Difficulty) :
    total (calls ++ [⟨slot, d⟩]) slot = total calls slot + d := by
  simp [total, callsIn_append]

theorem Accounted.congr {calls' : List Call} {rows rows' : List ClientStatisticsEntity}
    (h : Accounted client calls rows slot) (hcalls : callsIn calls' slot = callsIn calls slot)
    (hrows : rowsFor client slot rows' = rowsFor client slot rows) :
    Accounted client calls' rows' slot := by
  obtain ⟨row, hrow, hshares, hcount⟩ := h
  exact ⟨row, hrows.trans hrow, by rw [hshares, total, total, hcalls], by rw [hcount, hcalls]⟩

end Calls

/-- The counters are those of the slot `slot` for the calls `calls`, every
earlier slot is accounted for, and no later slot has a row yet. -/
structure Settled (slot : ℕ) (calls : List Call) (s : State) : Prop where
  currentTimeSlot : s.statistics.currentTimeSlot = some slot
  shares : s.statistics.shares = total calls slot
  acceptedCount : s.statistics.acceptedCount = (callsIn calls slot).length
  owned : Owned client s.rows
  past : ∀ t < slot, callsIn calls t ≠ [] → Accounted client calls s.rows t
  current : ∃ row, rowsFor client slot s.rows = [row]
  future : ∀ t, slot < t → rowsFor client t s.rows = []
  le : ∀ call ∈ calls, call.slot ≤ slot

/-- Between calls the counters match the calls started; while a slot transition
waits, they match all of them but the one that is making it. -/
inductive Inv (s : State) : Prop
  | fresh (hslot : s.statistics.currentTimeSlot = none) (hshares : s.statistics.shares = 0)
      (hcount : s.statistics.acceptedCount = 0) (hrows : s.rows = []) (hcalls : s.started = [])
      (hflight : s.inFlight = [])
  | steady (slot : ℕ) (hsettled : Settled client slot s.started s) (hle : slot ≤ timeSlotOf s.now)
      (hflight : s.inFlight.filter isTransition = [])
  | moving (slot : ℕ) (calls : List Call) (call : Call)
      (hsettled : Settled client slot calls s) (haccounted : Accounted client calls s.rows slot)
      (hcalls : s.started = calls ++ [call]) (hlt : slot < call.slot)
      (hle : call.slot ≤ timeSlotOf s.now)
      (hflight : s.inFlight.filter isTransition = [.updatedOld call.slot call.difficulty])

theorem timeSlotOf_mono {a b : ℕ} (h : a ≤ b) : timeSlotOf a ≤ timeSlotOf b :=
  Nat.mul_le_mul_right _ (Nat.div_le_div_right h)

section Steps

variable {client} {s : State} {statistics : StratumV1ClientStatistics} {date slot : ℕ}
  {d : Difficulty}

theorem addShares_first (client : ClientEntity) (date : ℕ) (d : Difficulty)
    (h : statistics.currentTimeSlot = none) :
    ∃ statistics', statistics.addShares client date d =
        (statistics', some (.insert (statistics'.row client (timeSlotOf date)), .insertedFirst)) ∧
      statistics'.currentTimeSlot = some (timeSlotOf date) ∧
      statistics'.shares = statistics.shares + d ∧
      statistics'.acceptedCount = statistics.acceptedCount + 1 := by
  simp only [addShares, cache, accumulate, h]
  exact ⟨_, rfl, rfl, rfl, rfl⟩

theorem addShares_transition (client : ClientEntity) (d : Difficulty)
    (h : statistics.currentTimeSlot = some slot)
    (hne : slot ≠ timeSlotOf date) :
    ∃ statistics', statistics.addShares client date d =
        (statistics', some (.update (statistics'.row client slot),
          .updatedOld (timeSlotOf date) d)) ∧
      statistics'.currentTimeSlot = some slot ∧ statistics'.shares = statistics.shares ∧
      statistics'.acceptedCount = statistics.acceptedCount := by
  simp only [addShares, cache, h, if_pos hne]
  exact ⟨_, rfl, rfl, rfl, rfl⟩

theorem addShares_same (client : ClientEntity) (d : Difficulty)
    (h : statistics.currentTimeSlot = some (timeSlotOf date)) :
    ∃ statistics', (statistics.addShares client date d = (statistics', none) ∨
        statistics.addShares client date d =
          (statistics', some (.update (statistics'.row client (timeSlotOf date)), .updated))) ∧
      statistics'.currentTimeSlot = some (timeSlotOf date) ∧
      statistics'.shares = statistics.shares + d ∧
      statistics'.acceptedCount = statistics.acceptedCount + 1 := by
  simp only [addShares, cache, accumulate, h, ne_eq, not_true_eq_false, if_false]
  split
  · exact ⟨_, .inr rfl, rfl, rfl, rfl⟩
  · exact ⟨_, .inl rfl, rfl, rfl, rfl⟩

theorem transitions_eraseIdx {inFlight : List AddShares} {wait : AddShares} {i : ℕ}
    (h : inFlight[i]? = some wait) :
    (inFlight.filter isTransition).Perm
      ((if isTransition wait then [wait] else []) ++ (inFlight.eraseIdx i).filter isTransition) := by
  obtain ⟨hi, rfl⟩ := List.getElem?_eq_some_iff.mp h
  have hperm := (List.getElem_cons_eraseIdx_perm hi).symm.filter isTransition
  rw [List.filter_cons] at hperm
  split at hperm <;> simp [*]

theorem Settled.opened (calls : List Call) (rows : List ClientStatisticsEntity)
    (howned : Owned client rows) (hlt : ∀ call ∈ calls, call.slot < slot)
    (hpast : ∀ t < slot, callsIn calls t ≠ [] → Accounted client calls rows t)
    (hfuture : ∀ t, slot ≤ t → rowsFor client t rows = [])
    (hslot : s.statistics.currentTimeSlot = some slot) (hshares : s.statistics.shares = d)
    (hcount : s.statistics.acceptedCount = 1)
    (hrows : s.rows = ClientStatisticsService.insert rows (s.statistics.row client slot)) :
    Settled client slot (calls ++ [⟨slot, d⟩]) s where
  currentTimeSlot := hslot
  shares := by rw [total_append_self, total, callsIn_eq_nil hlt, hshares]; simp
  acceptedCount := by rw [callsIn_append, callsIn_eq_nil hlt, hcount]; simp
  owned := hrows ▸ howned.insert _ _
  past t ht hcalls := by
    rw [callsIn_append_ne (by exact ht.ne')] at hcalls
    refine (hpast t ht hcalls).congr client (callsIn_append_ne (by exact ht.ne')) ?_
    rw [hrows, rowsFor_insert, if_neg ht.ne', List.append_nil]
  current := ⟨s.statistics.row client slot, by
    rw [hrows, rowsFor_insert, hfuture slot le_rfl, if_pos rfl, List.nil_append]⟩
  future t ht := by rw [hrows, rowsFor_insert, hfuture t ht.le, if_neg ht.ne, List.append_nil]
  le call hcall := by
    rcases List.mem_append.mp hcall with hcall | hcall
    · exact (hlt call hcall).le
    · rw [List.mem_singleton.mp hcall]

theorem Settled.updated {s' : State} {calls calls' : List Call} (h : Settled client slot calls s)
    (hslot : s'.statistics.currentTimeSlot = some slot)
    (hshares : s'.statistics.shares = total calls' slot)
    (hcount : s'.statistics.acceptedCount = (callsIn calls' slot).length)
    (hcalls : ∀ t < slot, callsIn calls' t = callsIn calls t)
    (hle : ∀ call ∈ calls', call.slot ≤ slot)
    (hrows : s'.rows = s.rows ∨
      s'.rows = ClientStatisticsService.update s.rows (s'.statistics.row client slot)) :
    Settled client slot calls' s' where
  currentTimeSlot := hslot
  shares := hshares
  acceptedCount := hcount
  owned := by
    rcases hrows with hrows | hrows
    · exact hrows ▸ h.owned
    · exact hrows ▸ h.owned.update _
  past t ht hne := by
    refine (h.past t ht (hcalls t ht ▸ hne)).congr client (hcalls t ht) ?_
    rcases hrows with hrows | hrows
    · rw [hrows]
    · rw [hrows, rowsFor_update_ne _ ht.ne]
  current := by
    obtain ⟨row, hrow⟩ := h.current
    rcases hrows with hrows | hrows
    · exact ⟨row, hrows ▸ hrow⟩
    · obtain ⟨row', hrow', -⟩ := rowsFor_update_self h.owned s'.statistics hrow
      exact ⟨row', hrows ▸ hrow'⟩
  future t ht := by
    rcases hrows with hrows | hrows
    · rw [hrows, h.future t ht]
    · rw [hrows, rowsFor_update_ne _ ht.ne', h.future t ht]
  le := hle

theorem Inv.start {s' : State} (hinv : Inv client s) (hguard : s.inFlight.filter isTransition = [])
    (hstep : step client s (.start date d) = some s') : Inv client s' := by
  simp only [step, Option.ite_none_right_eq_some, Option.some.injEq] at hstep
  obtain ⟨hdate, rfl⟩ := hstep
  cases hinv with
  | fresh hslot hshares hcount hrows hcalls hflight =>
    obtain ⟨statistics, hadd, hslot', hshares', hcount'⟩ :=
      addShares_first client date d hslot
    simp only [hadd, settle, hrows, hcalls, hflight, List.nil_append]
    refine .steady (timeSlotOf date) ?_ le_rfl rfl
    refine Settled.opened [] [] ?_ ?_ ?_ ?_ hslot' ?_ ?_ rfl
    · exact fun r hr ↦ absurd hr List.not_mem_nil
    · exact fun c hc ↦ absurd hc List.not_mem_nil
    · exact fun t _ ht ↦ absurd rfl ht
    · exact fun t _ ↦ rfl
    · rw [hshares', hshares, zero_add]
    · rw [hcount', hcount]
  | steady slot hsettled hle hflight =>
    have hslotle : slot ≤ timeSlotOf date := hle.trans (timeSlotOf_mono hdate)
    by_cases hsame : slot = timeSlotOf date
    · subst hsame
      obtain ⟨statistics, hadd, hslot', hshares', hcount'⟩ :=
        addShares_same client d hsettled.currentTimeSlot
      have hsettled' (s' : State) (hstat : s'.statistics = statistics)
          (hrows : s'.rows = s.rows ∨ s'.rows =
            ClientStatisticsService.update s.rows (s'.statistics.row client (timeSlotOf date))) :
          Settled client (timeSlotOf date) (s.started ++ [⟨timeSlotOf date, d⟩]) s' := by
        refine hsettled.updated (by rw [hstat, hslot']) ?_ ?_ ?_ ?_ hrows
        · rw [hstat, hshares', hsettled.shares, total_append_self]
        · rw [hstat, hcount', hsettled.acceptedCount, callsIn_append, if_pos rfl,
            List.length_append, List.length_singleton]
        · exact fun t ht ↦ callsIn_append_ne (by exact ht.ne')
        · intro call hcall
          rcases List.mem_append.mp hcall with hcall | hcall
          · exact hsettled.le call hcall
          · rw [List.mem_singleton.mp hcall]
      rcases hadd with hadd | hadd
      · rw [hadd]
        exact .steady _ (hsettled' _ rfl (.inl rfl)) le_rfl hflight
      · rw [hadd]
        refine .steady _ (hsettled' _ rfl (.inr rfl)) le_rfl ?_
        simp only [settle, List.filter_append, hflight]
        rfl
    · obtain ⟨statistics, hadd, hslot', hshares', hcount'⟩ :=
        addShares_transition client d hsettled.currentTimeSlot hsame
      rw [hadd]
      refine .moving slot s.started ⟨timeSlotOf date, d⟩ ?_ ?_ rfl (by simp only; omega) le_rfl ?_
      · exact hsettled.updated hslot' (by rw [← hsettled.shares]; exact hshares')
          (by rw [← hsettled.acceptedCount]; exact hcount') (fun _ _ ↦ rfl) hsettled.le (.inr rfl)
      · obtain ⟨row, hrow⟩ := hsettled.current
        obtain ⟨row', hrow', hs, hc⟩ := rowsFor_update_self hsettled.owned statistics hrow
        exact ⟨row', hrow', by rw [hs, hshares', hsettled.shares],
          by rw [hc, hcount', hsettled.acceptedCount]⟩
      · simp only [settle, List.filter_append, hflight]
        rfl
  | moving _ _ _ _ _ _ _ _ hflight => exact absurd (hguard.symm.trans hflight) (by simp)

theorem Settled.resumed {s' : State} {calls : List Call} (h : Settled client slot calls s)
    (hstat : s'.statistics = { s.statistics with lastSave := s'.statistics.lastSave })
    (hrows : s'.rows = s.rows) : Settled client slot calls s' := by
  refine h.updated ?_ ?_ ?_ (fun _ _ ↦ rfl) h.le (.inl hrows)
  · rw [hstat, h.currentTimeSlot]
  · rw [hstat, h.shares]
  · rw [hstat, h.acceptedCount]

theorem Inv.resume {s' : State} {i now : ℕ} (hinv : Inv client s)
    (hstep : step client s (.resume i now) = some s') : Inv client s' := by
  simp only [step, Option.ite_none_right_eq_some, Option.map_eq_some_iff] at hstep
  obtain ⟨hnow, wait, hwait, rfl⟩ := hstep
  have hperm := transitions_eraseIdx hwait
  cases hinv with
  | fresh _ _ _ _ _ hflight => simp [hflight] at hwait
  | steady slot hsettled hle hflight =>
    rw [hflight, List.nil_perm, List.append_eq_nil_iff] at hperm
    obtain ⟨hnot, hflight'⟩ := hperm
    have hsettled' : Settled client slot s.started
        { s with now, inFlight := s.inFlight.eraseIdx i,
                 statistics := { s.statistics with lastSave := some now } } :=
      hsettled.resumed rfl rfl
    have hle' := hle.trans (timeSlotOf_mono hnow)
    cases wait with
    | updatedOld => simp [isTransition] at hnot
    | insertedFirst => exact .steady slot hsettled' hle' hflight'
    | insertedNew => exact .steady slot hsettled' hle' hflight'
    | updated => exact .steady slot hsettled' hle' hflight'
  | moving slot calls call hsettled haccounted hcalls hlt hle hflight =>
    have hle' := hle.trans (timeSlotOf_mono hnow)
    rw [hflight, List.singleton_perm] at hperm
    cases wait with
    | updatedOld slot' d =>
      simp only [isTransition, if_true, List.singleton_append, List.cons.injEq,
        AddShares.updatedOld.injEq] at hperm
      obtain ⟨⟨rfl, rfl⟩, hflight'⟩ := hperm
      refine .steady call.slot ?_ hle' ?_
      · simp only [settle, resumeAddShares, hcalls]
        refine Settled.opened _ s.rows hsettled.owned ?_ ?_ ?_ rfl rfl rfl rfl
        · exact fun c hc ↦ (hsettled.le c hc).trans_lt hlt
        · intro t ht hne
          rcases lt_trichotomy t slot with h | rfl | h
          · exact hsettled.past t h hne
          · exact haccounted
          · exact absurd (callsIn_eq_nil fun c hc ↦ (hsettled.le c hc).trans_lt h) hne
        · exact fun t ht ↦ hsettled.future t (hlt.trans_le ht)
      · simp only [settle, resumeAddShares, List.filter_append, ← hflight']
        rfl
    | insertedFirst | insertedNew | updated =>
      simp only [isTransition, Bool.false_eq_true, if_false, List.nil_append] at hperm
      exact .moving slot calls call (hsettled.resumed rfl rfl) haccounted hcalls hlt hle' hperm.symm

end Steps

theorem inv_of_reach {date : ℕ} {s : State} (h : Reach (step client) NoOverlap (init date) s) :
    Inv client s := by
  refine h.invariant (.fresh rfl rfl rfl rfl rfl rfl) fun s e s' hinv hguard hstep ↦ ?_
  cases e with
  | start date d => exact hinv.start hguard hstep
  | resume i now => exact hinv.resume hstep

theorem Inv.conserved {s : State} (h : Inv client s) : Conserved client s := by
  intro hquiet t currentTimeSlot hcurrent hlt hne
  cases h with
  | fresh hslot => simp [hslot] at hcurrent
  | steady slot hsettled =>
    obtain rfl : slot = currentTimeSlot := by simpa [hsettled.currentTimeSlot] using hcurrent
    exact hsettled.past t hlt hne
  | moving _ _ _ _ _ _ _ _ hflight => simp [hquiet] at hflight

/-- In every run in which no call starts while another one waits in the update of
its slot transition, the table accounts for every past slot. -/
theorem conserved_of_noOverlap (date : ℕ) (s : State)
    (h : Reach (step client) NoOverlap (init date) s) : Conserved client s :=
  (inv_of_reach client h).conserved

section Runs

def miner : ClientEntity where
  sessionId := "57a6f098"
  address := "be1qminer"
  clientName := "bitaxe3"
  userAgent := "bitaxe"
  bestDifficulty := 0
  updatedAt := none

instance (s : State) : ∀ e, Decidable (NoOverlap s e)
  | .start _ _ => inferInstanceAs (Decidable (_ = _))
  | .resume _ _ => inferInstanceAs (Decidable True)

theorem conserved_of_noOverlap_run :
    ∃ s, Reach (step miner) NoOverlap (init 0) s ∧ s.statistics.currentTimeSlot = some 1200000 ∧
      Conserved miner s := by
  obtain ⟨s, hs, hslot⟩ := Reach.of_any (step miner) NoOverlap (init 0)
    [.start 0 64, .resume 0 5, .start 600000 32, .resume 0 600005, .resume 0 600010,
      .start 1200000 16, .resume 0 1200005, .resume 0 1200010]
    (fun s ↦ s.statistics.currentTimeSlot = some 1200000)
    (by decide +kernel) (by decide +kernel)
  exact ⟨s, hs, by simpa using hslot, conserved_of_noOverlap miner 0 s hs⟩

/-- Two calls in the first moment of a slot both make the transition, and the
slot ends with two rows. -/
theorem not_conserved_of_overlap :
    ¬ ∀ (client : ClientEntity) (date : ℕ) (s : State),
      Reachable (step client) (init date) s → Conserved client s := by
  intro h
  obtain ⟨s, hs, hp⟩ := Reachable.of_any (step miner) (init 0)
    [.start 0 64, .resume 0 5, .start 600000 32, .start 600001 32, .resume 0 600005,
      .resume 0 600006, .resume 0 600010, .resume 0 600011, .start 1200000 16, .resume 0 1200005,
      .resume 0 1200010]
    (fun s ↦ s.inFlight = [] ∧ s.statistics.currentTimeSlot = some 1200000 ∧
      callsIn s.started 600000 ≠ [] ∧ (rowsFor miner 600000 s.rows).length = 2)
    (by decide +kernel)
  obtain ⟨hflight, hslot, hcalls, hrows⟩ := of_decide_eq_true hp
  obtain ⟨row, hrow, -⟩ := h miner 0 s hs hflight 600000 1200000 hslot (by omega) hcalls
  simp [hrow] at hrows

end Runs

end ElektronPool.ShareAccounting
