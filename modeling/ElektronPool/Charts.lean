import ElektronPool.Model.Charts
import ElektronPool.RecentAccounting

namespace ElektronPool.Charts

open Lib Lib.Runs Lib.Query Lib.Calendar Model Model.StratumV1ClientStatistics
  Model.ClientStatisticsService RecentAccounting

section Shares

variable {shares : List Accepted} {now : ℕ}

def day : ℕ := 24 * 60 * 60 * 1000

/-- The slots of the last day that have shares, in their order. -/
def daySlots (shares : List Accepted) (now : ℕ) : List ℕ :=
  orderedKeys (fun share ↦ timeSlotOf share.time)
    (shares.filter fun share ↦ now < timeSlotOf share.time + day)

def workIn (shares : List Accepted) (slot : ℕ) : Difficulty :=
  ((shares.filter fun share ↦ timeSlotOf share.time = slot).map Accepted.difficulty).sum

/-- The chart of the shares themselves: every slot of the last day with shares but the
last one, with the rate at which its shares are found in ten minutes. -/
def chartOf (data : Difficulty → Difficulty) (shares : List Accepted) (now : ℕ) :
    List ChartPoint :=
  (daySlots shares now).dropLast.map fun slot ↦
    ⟨isoText slot, data (divide (workIn shares slot * (4294967296 : ℚ)) 600)⟩

theorem mem_daySlots {slot : ℕ} : slot ∈ daySlots shares now ↔
    ∃ share ∈ shares, timeSlotOf share.time = slot ∧ now < slot + day := by
  rw [daySlots, mem_orderedKeys]
  constructor
  · rintro ⟨share, hshare, rfl⟩
    obtain ⟨hmem, hrecent⟩ := List.mem_filter.mp hshare
    exact ⟨share, hmem, rfl, of_decide_eq_true hrecent⟩
  · rintro ⟨share, hmem, rfl, hrecent⟩
    exact ⟨share, List.mem_filter.mpr ⟨hmem, decide_eq_true hrecent⟩, rfl⟩

theorem pairwise_daySlots (shares : List Accepted) (now : ℕ) :
    (daySlots shares now).Pairwise (· < ·) := pairwise_orderedKeys _ _

theorem daySlots_le (hpast : ∀ share ∈ shares, share.time ≤ now) {slot : ℕ}
    (h : slot ∈ daySlots shares now) : slot ≤ now := by
  obtain ⟨share, hmem, rfl, -⟩ := mem_daySlots.mp h
  exact (timeSlotOf_le share.time).trans (hpast share hmem)

def slotsAgo (now slot : ℕ) : ℕ := now / 600000 - slot / 600000

theorem slotsAgo_lt {slot : ℕ} (h : slot ∈ daySlots shares now) : slotsAgo now slot < 144 := by
  obtain ⟨share, -, rfl, hrecent⟩ := mem_daySlots.mp h
  simp only [slotsAgo, timeSlotOf, day] at hrecent ⊢
  omega

theorem slotsAgo_injOn (hpast : ∀ share ∈ shares, share.time ≤ now) {slot slot' : ℕ}
    (h : slot ∈ daySlots shares now) (h' : slot' ∈ daySlots shares now)
    (heq : slotsAgo now slot = slotsAgo now slot') : slot = slot' := by
  have hle := daySlots_le hpast h
  have hle' := daySlots_le hpast h'
  obtain ⟨share, -, rfl, -⟩ := mem_daySlots.mp h
  obtain ⟨share', -, rfl, -⟩ := mem_daySlots.mp h'
  simp only [slotsAgo, timeSlotOf] at hle hle' heq ⊢
  omega

theorem length_daySlots_le (hpast : ∀ share ∈ shares, share.time ≤ now) :
    (daySlots shares now).length ≤ 144 := by
  have hnodup : ((daySlots shares now).map (slotsAgo now)).Nodup :=
    List.Nodup.map_on (fun _ h _ h' heq ↦ slotsAgo_injOn hpast h h' heq) (nodup_orderedKeys _ _)
  have hsubset : ((daySlots shares now).map (slotsAgo now)).toFinset ⊆ Finset.range 144 := by
    intro number hnumber
    obtain ⟨slot, hslot, rfl⟩ := List.mem_map.mp (List.mem_toFinset.mp hnumber)
    exact Finset.mem_range.mpr (slotsAgo_lt hslot)
  have hcard := Finset.card_le_card hsubset
  rw [List.toFinset_card_of_nodup hnodup, List.length_map, Finset.card_range] at hcard
  exact hcard

/-- The labels of a chart name its slots in their order. -/
theorem pairwise_chartOf (data : Difficulty → Difficulty)
    (hpast : ∀ share ∈ shares, share.time ≤ now) (hnow : now < longYears) :
    (chartOf data shares now).Pairwise fun point point' ↦ point.label < point'.label := by
  apply List.pairwise_map.mpr
  refine ((pairwise_daySlots shares now).sublist (List.dropLast_sublist _)).imp_of_mem ?_
  intro slot slot' _ hslot' hlt
  exact isoText_lt hlt ((daySlots_le hpast (List.mem_of_mem_dropLast hslot')).trans_lt hnow)

end Shares

section Query

variable {w : World} {now : ℕ} {whereClause : WhereClause} {slot : ℕ}

def queried (whereClause : WhereClause) (now : ℕ) (k : Key × ℕ) : Bool :=
  decide (now < k.2 + day) &&
    whereClause.selects k.1.address k.1.clientName k.1.sessionId

theorem afterYesterday_selected (whereClause : WhereClause) (rows : List ClientStatisticsEntity)
    (now : ℕ) : afterYesterday (selected whereClause rows) now =
      rows.filter fun row ↦ queried whereClause now (slotOfRow row) := by
  simp only [afterYesterday, selected, List.filter_filter]
  refine List.filter_congr fun row _ ↦ congrArg (· && _) (decide_eq_decide.mpr ?_)
  change (now : ℤ) - 24 * 60 * 60 * 1000 < row.time ↔ now < row.time + 24 * 60 * 60 * 1000
  omega

theorem queried_slotOf {share : Accepted} : queried whereClause now (slotOf share) = true ↔
    now < timeSlotOf share.time + day ∧ selectsShare whereClause share = true := by
  rw [queried, Bool.and_eq_true, decide_eq_true_eq]
  rfl

theorem orderedKeys_rows (h : Books w) (hpersisted : Persisted w) :
    orderedKeys ClientStatisticsEntity.time
        (w.rows.filter fun row ↦ queried whereClause now (slotOfRow row)) =
      daySlots (w.accepted.filter (selectsShare whereClause)) now := by
  apply orderedKeys_congr
  intro slot
  constructor
  · rintro ⟨row, hrow, rfl⟩
    obtain ⟨hrow, hqueried⟩ := List.mem_filter.mp hrow
    obtain ⟨share, hshare⟩ := List.exists_mem_of_ne_nil _ (h.begun_of_mem hrow)
    obtain ⟨hmem, hslot⟩ := List.mem_filter.mp hshare
    have hslot : slotOf share = slotOfRow row := of_decide_eq_true hslot
    rw [← hslot, queried_slotOf] at hqueried
    refine ⟨share, ?_, congrArg Prod.snd hslot⟩
    exact List.mem_filter.mpr
      ⟨List.mem_filter.mpr ⟨hmem, hqueried.2⟩, decide_eq_true hqueried.1⟩
  · rintro ⟨share, hshare, rfl⟩
    obtain ⟨hshare, hrecent⟩ := List.mem_filter.mp hshare
    obtain ⟨hmem, hselects⟩ := List.mem_filter.mp hshare
    have hne : sharesIn w (share.key, timeSlotOf share.time) ≠ [] :=
      List.ne_nil_of_mem (List.mem_filter.mpr ⟨hmem, decide_eq_true rfl⟩)
    obtain ⟨row, hrow, -⟩ := h.accounted hpersisted hne
    obtain ⟨hrowMem, hslot⟩ := List.mem_filter.mp (hrow ▸ List.mem_singleton_self row)
    have hslot : slotOfRow row = slotOf share := of_decide_eq_true hslot
    refine ⟨row, List.mem_filter.mpr ⟨hrowMem, ?_⟩, congrArg Prod.snd hslot⟩
    rw [hslot, queried_slotOf]
    exact ⟨of_decide_eq_true hrecent, hselects⟩

theorem sum_rows_eq_workIn (h : Books w) (hpersisted : Persisted w)
    (hslot : slot ∈ daySlots (w.accepted.filter (selectsShare whereClause)) now) :
    (((w.rows.filter fun row ↦ queried whereClause now (slotOfRow row)).filter
        fun row ↦ row.time = slot).map ClientStatisticsEntity.shares).sum =
      workIn (w.accepted.filter (selectsShare whereClause)) slot := by
  obtain ⟨-, -, -, hrecent⟩ := mem_daySlots.mp hslot
  have hsum := h.sum_rows hpersisted
    (fun k ↦ decide (k.2 = slot) && queried whereClause now k) Accepted.difficulty
    ClientStatisticsEntity.shares fun row hrow ↦ (h.accountsFor hpersisted hrow).1
  rw [List.filter_filter, workIn, List.filter_filter]
  refine hsum.trans ?_
  congr 2
  apply List.filter_congr
  intro share _
  apply Bool.eq_iff_iff.mpr
  rw [Bool.and_eq_true, Bool.and_eq_true, queried_slotOf, decide_eq_true_eq, decide_eq_true_eq]
  constructor
  · rintro ⟨heq, -, hselects⟩
    exact ⟨heq, hselects⟩
  · rintro ⟨heq, hselects⟩
    have heq : timeSlotOf share.time = slot := heq
    exact ⟨heq, heq ▸ hrecent, hselects⟩

/-- The limit of a query leaves out none of its rows. -/
theorem chartQuery_eq (h : Books w) (hpersisted : Persisted w) (hnow : w.now ≤ now)
    (data : Difficulty → Difficulty) :
    chartQuery whereClause data w.rows now =
      (daySlots (w.accepted.filter (selectsShare whereClause)) now).map fun slot ↦
        (slot, data (divide
          (workIn (w.accepted.filter (selectsShare whereClause)) slot * (4294967296 : ℚ)) 600)) := by
  have hpast : ∀ share ∈ w.accepted.filter (selectsShare whereClause), share.time ≤ now :=
    fun share hshare ↦ (h.past share (List.mem_of_mem_filter hshare)).trans hnow
  rw [chartQuery, groupSums, afterYesterday_selected, List.map_map, orderedKeys_rows h hpersisted,
    List.take_of_length_le]
  · apply List.map_congr_left
    intro slot hslot
    rw [Function.comp_apply, sum_rows_eq_workIn h hpersisted hslot]
  · rw [List.length_map]
    exact length_daySlots_le hpast

theorem mapM_eq_some {α β : Type} {f : α → Option β} {g : α → β} {as : List α}
    (h : ∀ a ∈ as, f a = some (g a)) : as.mapM f = some (as.map g) := by
  induction as with
  | nil => rfl
  | cons a as ih =>
    rw [List.mapM_cons, h a List.mem_cons_self, ih fun b hb ↦ h b (List.mem_cons_of_mem a hb)]
    rfl

theorem chartPoints_eq {slots : List ℕ} (rate : ℕ → Difficulty)
    (h : ∀ slot ∈ slots, slot < longYears) :
    chartPoints (slots.map fun slot ↦ (slot, rate slot)) =
      some (slots.dropLast.map fun slot ↦ ⟨isoText slot, rate slot⟩) := by
  have hpoints : (slots.map fun slot ↦ (slot, rate slot)).mapM (fun res ↦
      (toISOString res.1).map fun label ↦ (⟨label, res.2⟩ : ChartPoint)) =
      some (slots.map fun slot ↦ ⟨isoText slot, rate slot⟩) := by
    rw [List.mapM_map]
    apply mapM_eq_some
    intro slot hslot
    rw [Function.comp_apply, toISOString_eq (h slot hslot), Option.map_some]
  rw [chartPoints, hpoints, Option.map_some, List.map_dropLast]

theorem chart_eq (h : Books w) (hpersisted : Persisted w) (hnow : w.now ≤ now)
    (hyear : now < longYears) (data : Difficulty → Difficulty) :
    chartPoints (chartQuery whereClause data w.rows now) =
      some (chartOf data (w.accepted.filter (selectsShare whereClause)) now) := by
  rw [chartQuery_eq h hpersisted hnow data, chartPoints_eq]
  · rfl
  · intro slot hslot
    refine (daySlots_le (fun share hshare ↦ ?_) hslot).trans_lt hyear
    exact (h.past share (List.mem_of_mem_filter hshare)).trans hnow

end Query

section Sample

end Sample

section Cleaning

inductive Event
  | account (key : Key) (event : ShareAccounting.Event)
  | deleteOldStatistics (now : ℕ)

def Event.accounting : Event → Option (Key × ShareAccounting.Event)
  | .account key event => some (key, event)
  | .deleteOldStatistics _ => none

def step (w : World) : Event → Option World
  | .account key event => w.step (key, event)
  | .deleteOldStatistics now =>
    if w.now ≤ now then
      some { w with now, rows := ClientStatisticsService.deleteOldStatistics w.rows now }
    else none

variable {full full' w w' : World} {key : Key} {now : ℕ}

def recentRows (now : ℕ) (rows : List ClientStatisticsEntity) : List ClientStatisticsEntity :=
  rows.filter fun row ↦ now ≤ row.time + day

/-- The table is the full one but for rows older than a day. -/
structure Cleaned (full w : World) : Prop where
  counters : full.counters = w.counters
  accepted : full.accepted = w.accepted
  now : full.now ≤ w.now
  rows : recentRows w.now full.rows = recentRows w.now w.rows

theorem recentRows_of_le {now' : ℕ} (h : now ≤ now') (rows : List ClientStatisticsEntity) :
    recentRows now' (recentRows now rows) = recentRows now' rows := by
  rw [recentRows, recentRows, recentRows, List.filter_filter]
  apply List.filter_congr
  intro row _
  apply Bool.eq_iff_iff.mpr
  rw [Bool.and_eq_true, decide_eq_true_eq, decide_eq_true_eq]
  omega

theorem recentRows_later {now' : ℕ} {rows rows' : List ClientStatisticsEntity} (h : now ≤ now')
    (hrows : recentRows now rows = recentRows now rows') :
    recentRows now' rows = recentRows now' rows' := by
  rw [← recentRows_of_le h rows, hrows, recentRows_of_le h]

theorem recentRows_execute {rows rows' : List ClientStatisticsEntity}
    (h : recentRows now rows = recentRows now rows') (call : StatisticsCall) :
    recentRows now (ClientStatisticsService.execute rows call) =
      recentRows now (ClientStatisticsService.execute rows' call) := by
  cases call with
  | insert row =>
    simp only [ClientStatisticsService.execute, ClientStatisticsService.insert, recentRows,
      List.filter_append] at h ⊢
    rw [h]
  | update row =>
    have hsame : (fun r : ClientStatisticsEntity ↦ decide (now ≤ r.time + day)) ∘
        (fun r ↦ if ClientStatisticsService.sameKey r row then
          { r with shares := row.shares, acceptedCount := row.acceptedCount } else r) =
        fun r ↦ decide (now ≤ r.time + day) := by
      funext r
      rw [Function.comp_apply]
      split <;> rfl
    simp only [ClientStatisticsService.execute, ClientStatisticsService.update, recentRows,
      List.filter_map, hsame] at h ⊢
    rw [h]

theorem recentRows_deleteOldStatistics (rows : List ClientStatisticsEntity) (now : ℕ) :
    recentRows now (ClientStatisticsService.deleteOldStatistics rows now) = recentRows now rows := by
  rw [ClientStatisticsService.deleteOldStatistics, recentRows, recentRows, List.filter_filter]
  apply List.filter_congr
  intro row _
  apply Bool.eq_iff_iff.mpr
  rw [Bool.and_eq_true, Bool.not_eq_true', decide_eq_false_iff_not, decide_eq_true_eq, day]
  omega

theorem Cleaned.settle (h : Cleaned full w)
    (r : StratumV1ClientStatistics × Option (StatisticsCall × AddShares)) :
    Cleaned (full.settle key r) (w.settle key r) := by
  obtain ⟨statistics, _ | ⟨call, wait⟩⟩ := r
  · refine ⟨?_, h.accepted, h.now, h.rows⟩
    simp only [World.settle, h.counters]
  · refine ⟨?_, h.accepted, h.now, recentRows_execute h.rows call⟩
    simp only [World.settle, h.counters]

/-- Steps of the accounting take the two tables along, and a deletion only the one. -/
theorem Cleaned.of_step {e : Event} (h : Cleaned full w) (hstep : step w e = some w') :
    ∃ full', run World.step full e.accounting.toList = some full' ∧ Cleaned full' w' := by
  cases e with
  | account key event =>
    cases event with
    | start date d =>
      simp only [step, World.step, Option.ite_none_right_eq_some, Option.some.injEq]
        at hstep
      obtain ⟨hdate, rfl⟩ := hstep
      refine ⟨({ full with
          now := date
          accepted := full.accepted ++ [⟨key, date, d⟩] } : World).settle key
        ((full.counters key).statistics.addShares key.client date d), ?_, ?_⟩
      · simp only [Event.accounting, Option.toList_some, run, World.step,
          if_pos (h.now.trans hdate), Option.bind_some]
      · rw [h.counters]
        apply Cleaned.settle
        exact ⟨rfl, by rw [h.accepted], le_rfl, recentRows_later hdate h.rows⟩
    | resume i now =>
      simp only [step, World.step, Option.ite_none_right_eq_some, Option.map_eq_some_iff]
        at hstep
      obtain ⟨hnow, wait, hwait, rfl⟩ := hstep
      refine ⟨({ full with
          now
          counters := Function.update full.counters key
            { full.counters key with
              inFlight := (full.counters key).inFlight.eraseIdx i } } : World).settle key
        ((full.counters key).statistics.resumeAddShares key.client now wait), ?_, ?_⟩
      · simp only [Event.accounting, Option.toList_some, run, World.step,
          if_pos (h.now.trans hnow), h.counters, hwait, Option.map_some, Option.bind_some]
      · rw [h.counters]
        apply Cleaned.settle
        exact ⟨rfl, h.accepted, le_rfl, recentRows_later hnow h.rows⟩
  | deleteOldStatistics now =>
    simp only [step, Option.ite_none_right_eq_some, Option.some.injEq] at hstep
    obtain ⟨hnow, rfl⟩ := hstep
    refine ⟨full, rfl, h.counters, h.accepted, h.now.trans hnow, ?_⟩
    rw [recentRows_deleteOldStatistics]
    exact recentRows_later hnow h.rows

theorem Cleaned.of_run {es : List Event} (h : Cleaned full w) (hrun : run step w es = some w') :
    ∃ full', run World.step full (es.filterMap Event.accounting) = some full' ∧
      Cleaned full' w' := by
  induction es generalizing full w with
  | nil =>
    cases hrun
    exact ⟨full, rfl, h⟩
  | cons e es ih =>
    obtain ⟨mid, hstep, hrest⟩ := Option.bind_eq_some_iff.mp hrun
    obtain ⟨fullMid, hfirst, hmid⟩ := h.of_step hstep
    obtain ⟨full', hthen, hcleaned⟩ := ih hmid hrest
    refine ⟨full', ?_, hcleaned⟩
    rw [show (e :: es).filterMap Event.accounting =
      e.accounting.toList ++ es.filterMap Event.accounting by
        rw [List.filterMap_cons]
        cases e.accounting <;> rfl]
    rw [run_append, hfirst]
    exact hthen

theorem filter_recentRows {rows rows' : List ClientStatisticsEntity} {p : ℕ → Bool}
    (whereClause : WhereClause) (hp : ∀ time, p time = true → now ≤ time + day)
    (h : recentRows now rows = recentRows now rows') :
    (selected whereClause rows).filter (fun row ↦ p row.time) =
      (selected whereClause rows').filter fun row ↦ p row.time := by
  have hrecent (rows : List ClientStatisticsEntity) :
      (selected whereClause rows).filter (fun row ↦ p row.time) =
        (selected whereClause (recentRows now rows)).filter fun row ↦ p row.time := by
    simp only [selected, recentRows, List.filter_filter]
    apply List.filter_congr
    intro row _
    cases htime : p row.time with
    | false => rfl
    | true => rw [decide_eq_true (hp row.time htime), Bool.and_true]
  rw [hrecent rows, h, hrecent rows']

/-- The figures of a table about the last day and the last hour. -/
structure SameFigures (full w : World) (now : ℕ) : Prop where
  charts : ∀ whereClause data,
    chartQuery whereClause data w.rows now = chartQuery whereClause data full.rows now
  lastHour : ∀ whereClause,
    (getAccounting whereClause w.rows now).creditedDifficultyLastHour =
        (getAccounting whereClause full.rows now).creditedDifficultyLastHour ∧
      (getAccounting whereClause w.rows now).hashRateLastHour =
        (getAccounting whereClause full.rows now).hashRateLastHour
  lastTenMinutes : ∀ whereClause,
    (getAccounting whereClause w.rows now).acceptedSharesLast10Minutes =
        (getAccounting whereClause full.rows now).acceptedSharesLast10Minutes ∧
      (getAccounting whereClause w.rows now).hashRateLast10Minutes =
        (getAccounting whereClause full.rows now).hashRateLast10Minutes

theorem Cleaned.sameFigures (h : Cleaned full w) (hnow : w.now ≤ now) :
    SameFigures full w now := by
  have hrows := recentRows_later hnow h.rows
  have hcharts (whereClause : WhereClause) : afterYesterday (selected whereClause w.rows) now =
      afterYesterday (selected whereClause full.rows) now := by
    refine (filter_recentRows (p := fun time ↦ (now : ℤ) - 24 * 60 * 60 * 1000 < time)
      whereClause (fun time htime ↦ ?_) hrows).symm
    rw [decide_eq_true_eq] at htime
    simp only [day]
    omega
  have hsince (ago : ℤ) (hago : ago ≤ 24 * 60 * 60 * 1000) (whereClause : WhereClause) :
      since ((now : ℤ) - ago) (selected whereClause w.rows) =
        since ((now : ℤ) - ago) (selected whereClause full.rows) := by
    refine (filter_recentRows (p := fun time ↦ (now : ℤ) - ago ≤ time) whereClause
      (fun time htime ↦ ?_) hrows).symm
    rw [decide_eq_true_eq] at htime
    simp only [day]
    omega
  have hhour := hsince (60 * 60 * 1000) (by decide)
  have hten := hsince (10 * 60 * 1000) (by decide)
  refine ⟨fun whereClause data ↦ ?_, fun whereClause ↦ ?_, fun whereClause ↦ ?_⟩
  · rw [chartQuery, chartQuery, hcharts]
  · simp only [getAccounting, hhour, and_self]
  · simp only [getAccounting, hten, and_self]

/-- A run with deletions in it is the run without them as far as the charts and the
figures of the last hour tell, then and later. -/
theorem sameFigures_of_run (start : ℕ) (submissionCacheStart : Key → ℕ) (es : List Event)
    (w : World) (h : run step (World.init start submissionCacheStart) es = some w) :
    ∃ full, run World.step (World.init start submissionCacheStart)
        (es.filterMap Event.accounting) = some full ∧
      full.counters = w.counters ∧ full.accepted = w.accepted ∧
      ∀ now, w.now ≤ now → SameFigures full w now := by
  have hinit : Cleaned (World.init start submissionCacheStart)
      (World.init start submissionCacheStart) := ⟨rfl, rfl, le_rfl, rfl⟩
  obtain ⟨full, hfull, hcleaned⟩ := hinit.of_run h
  exact ⟨full, hfull, hcleaned.counters, hcleaned.accepted, fun now hnow ↦
    hcleaned.sameFigures hnow⟩

def deletion : List Event :=
  [.account bitaxe (.start 1000 (64 : ℚ)), .account bitaxe (.resume 0 1000),
    .account nerdminer (.start 86000000 (2 : ℚ)), .deleteOldStatistics 86500000,
    .account nerdminer (.resume 0 86500001)]

theorem sameFigures_of_run_deletion :
    ∃ full w, full.rows.length = 2 ∧ w.rows.length = 1 ∧ SameFigures full w w.now := by
  have hdeleted : (run step (World.init 0 fun _ ↦ 0) deletion).any
      (fun w ↦ decide (w.rows.length = 1)) = true := by decide +kernel
  have hkept : (run World.step (World.init 0 fun _ ↦ 0)
      (deletion.filterMap Event.accounting)).any
      (fun w ↦ decide (w.rows.length = 2)) = true := by decide +kernel
  obtain ⟨w, hw, hlength⟩ := (Option.any_eq_true _ _).mp hdeleted
  obtain ⟨full, hfull, -, -, hsame⟩ := sameFigures_of_run 0 _ deletion w hw
  rw [hfull] at hkept
  exact ⟨full, w, of_decide_eq_true hkept, of_decide_eq_true hlength, hsame w.now le_rfl⟩

end Cleaning

end ElektronPool.Charts
