import ElektronPool.RecentAccounting
import Mathlib.Algebra.BigOperators.Group.Multiset.Basic

namespace ElektronPool.UnsavedShares

open Lib Lib.Runs Model Model.StratumV1ClientStatistics Model.ClientStatisticsService ShareAccounting
  RecentAccounting

variable {client : ClientEntity} {s s' : State} {shares : List Accepted} {share : Accepted}
  {calls : List ShareAccounting.Call} {rows : List ClientStatisticsEntity}
  {statistics : StratumV1ClientStatistics} {slot date now i : ℕ} {d : Difficulty}

/-- The rows of the session are those of these calls, slot by slot. -/
def Exact (client : ClientEntity) (calls : List ShareAccounting.Call)
    (rows : List ClientStatisticsEntity) : Prop :=
  ∀ slot, (rowsFor client slot rows = [] ∧ callsIn calls slot = []) ∨
    Accounted client calls rows slot

def lastSaved (statistics : StratumV1ClientStatistics) : ℕ := statistics.lastSave.getD 0

/-- The session's shares but the last ones are in the table. Those came within a minute of the
last save, or there is one, and its row is being saved. -/
inductive Saves (client : ClientEntity) (shares : List Accepted) (s : State) : Prop
  | resting (saved unsaved : List Accepted) (hshares : shares = saved ++ unsaved)
      (hexact : Exact client (saved.map Accepted.call) s.rows)
      (hrecent : ∀ share ∈ unsaved, share.time ≤ lastSaved s.statistics + 60 * 1000)
      (hflight : s.inFlight.filter isTransition = [])
  | moving (saved : List Accepted) (share : Accepted) (hshares : shares = saved ++ [share])
      (hexact : Exact client (saved.map Accepted.call) s.rows)
      (hflight : s.inFlight.filter isTransition = [.updatedOld share.call.slot share.difficulty])

section Steps

theorem lastSave_addShares (statistics : StratumV1ClientStatistics) (client : ClientEntity)
    (date : ℕ) (d : Difficulty) :
    (statistics.addShares client date d).1.lastSave = statistics.lastSave := by
  simp only [addShares]
  split
  · rfl
  · split_ifs <;> rfl

theorem recent_of_addShares (hslot : statistics.currentTimeSlot = some slot)
    (h : (statistics.addShares client date d).2 = none) :
    date ≤ lastSaved statistics + 60 * 1000 := by
  by_contra hnot
  have hlate : statistics.lastSave.getD 0 + 60 * 1000 < date := Nat.lt_of_not_le hnot
  simp only [addShares, cache, hslot, hlate, if_true] at h
  split at h
  · cases h
  · cases h

theorem Exact.future (h : Exact client calls rows) (hrows : rowsFor client slot rows = []) :
    callsIn calls slot = [] := by
  rcases h slot with ⟨-, hcalls⟩ | ⟨row, hrow, -⟩
  · exact hcalls
  · rw [hrows] at hrow
    cases hrow

theorem exact_update (h : Settled client slot calls s) (hbegun : Begun client s)
    (hstarted : s.started = calls) {calls' : List ShareAccounting.Call}
    (hshares : statistics.shares = total calls' slot)
    (hcount : statistics.acceptedCount = (callsIn calls' slot).length)
    (hcalls : ∀ t, t ≠ slot → callsIn calls' t = callsIn calls t) :
    Exact client calls' (ClientStatisticsService.update s.rows (statistics.row client slot)) := by
  intro t
  rcases lt_trichotomy t slot with hlt | rfl | hgt
  · have hsame : rowsFor client t (ClientStatisticsService.update s.rows
        (statistics.row client slot)) = rowsFor client t s.rows := rowsFor_update_ne _ hlt.ne
    by_cases hnone : callsIn calls t = []
    · refine .inl ⟨?_, by rw [hcalls t hlt.ne, hnone]⟩
      rw [hsame]
      by_contra hrows
      exact hbegun t hrows (by rw [hstarted, hnone])
    · exact .inr ((h.past t hlt hnone).congr client (hcalls t hlt.ne) hsame)
  · obtain ⟨row, hrow⟩ := h.current
    obtain ⟨row', hrow', hshares', hcount'⟩ := rowsFor_update_self h.owned statistics hrow
    exact .inr ⟨row', hrow', by rw [hshares', hshares], by rw [hcount', hcount]⟩
  · refine .inl ⟨?_, ?_⟩
    · rw [rowsFor_update_ne _ hgt.ne', h.future t hgt]
    · rw [hcalls t hgt.ne', callsIn_eq_nil fun call hcall ↦ (h.le call hcall).trans_lt hgt]

theorem Exact.insert (h : Exact client calls rows) (hrows : rowsFor client slot rows = [])
    (hshares : statistics.shares = d) (hcount : statistics.acceptedCount = 1) :
    Exact client (calls ++ [⟨slot, d⟩])
      (ClientStatisticsService.insert rows (statistics.row client slot)) := by
  intro t
  by_cases hsame : slot = t
  · subst hsame
    have hnone := h.future hrows
    refine .inr ⟨statistics.row client slot, ?_, ?_, ?_⟩
    · rw [rowsFor_insert, hrows, if_pos rfl, List.nil_append]
    · rw [total_append_self, total, hnone, List.map_nil, List.sum_nil, zero_add]
      exact hshares
    · rw [callsIn_append, hnone, if_pos rfl]
      exact hcount
  · have hcalls : callsIn (calls ++ [⟨slot, d⟩]) t = callsIn calls t := callsIn_append_ne hsame
    have hsameRows : rowsFor client t
        (ClientStatisticsService.insert rows (statistics.row client slot)) =
          rowsFor client t rows := by
      rw [rowsFor_insert, if_neg hsame, List.append_nil]
    rcases h t with ⟨hnil, hnone⟩ | haccounted
    · exact .inl ⟨by rw [hsameRows, hnil], by rw [hcalls, hnone]⟩
    · exact .inr (haccounted.congr client hcalls hsameRows)

theorem map_call_append (shares : List Accepted) (share : Accepted) :
    (shares ++ [share]).map Accepted.call =
      shares.map Accepted.call ++ [⟨share.call.slot, share.difficulty⟩] := by
  rw [List.map_append, List.map_singleton]
  rfl

theorem Saves.start (h : Saves client shares s) (hinv : Inv client s) (hbegun : Begun client s)
    (hstarted : s.started = shares.map Accepted.call)
    (hguard : s.inFlight.filter isTransition = []) {key : Key}
    (hstep : step client s (.start date d) = some s') :
    Saves client (shares ++ [⟨key, date, d⟩]) s' := by
  simp only [step, Option.ite_none_right_eq_some, Option.some.injEq] at hstep
  obtain ⟨hdate, rfl⟩ := hstep
  cases hinv with
  | fresh hslot hshares hcount hrows hcalls hflight =>
    have hnone : shares = [] := List.map_eq_nil_iff.mp (hstarted.symm.trans hcalls)
    obtain ⟨statistics, hadd, -, hshares', hcount'⟩ := addShares_first client date d hslot
    have hempty : Exact client [] [] := fun _ ↦ .inl ⟨rfl, rfl⟩
    rw [hadd, hnone, List.nil_append]
    refine .resting [⟨key, date, d⟩] [] rfl ?_ (fun _ hmem ↦ absurd hmem List.not_mem_nil) ?_
    · simp only [settle, ClientStatisticsService.execute, hrows]
      exact hempty.insert rfl (by rw [hshares', hshares, zero_add]) (by rw [hcount', hcount])
    · simp only [settle, hflight]
      rfl
  | steady slot hsettled hle hflight =>
    by_cases hsame : slot = timeSlotOf date
    · subst hsame
      obtain ⟨statistics, hadd, hslot', hshares', hcount'⟩ :=
        addShares_same client d hsettled.currentTimeSlot
      rcases hadd with hadd | hadd
      · cases h with
        | resting saved unsaved hsplit hexact hrecent hflight' =>
          have hlast : lastSaved statistics = lastSaved s.statistics := by
            have hsave := lastSave_addShares s.statistics client date d
            rw [hadd] at hsave
            rw [lastSaved, hsave, lastSaved]
          have hnone : (s.statistics.addShares client date d).2 = none := by rw [hadd]
          have hnew := recent_of_addShares hsettled.currentTimeSlot hnone
          rw [hadd]
          refine .resting saved (unsaved ++ [⟨key, date, d⟩]) ?_ hexact (fun share hmem ↦ ?_) hflight
          · rw [hsplit, List.append_assoc]
          · simp only [settle, hlast]
            rcases List.mem_append.mp hmem with hold | hlater
            · exact hrecent share hold
            · rw [List.mem_singleton.mp hlater]
              exact hnew
        | moving _ _ _ _ hmoving =>
          rw [hguard] at hmoving
          cases hmoving
      · rw [hadd]
        refine .resting (shares ++ [⟨key, date, d⟩]) [] (List.append_nil _).symm ?_
          (fun _ hmem ↦ absurd hmem List.not_mem_nil) ?_
        · rw [map_call_append, ← hstarted]
          refine exact_update hsettled hbegun rfl ?_ ?_ fun t hne ↦ ?_
          · rw [hshares', hsettled.shares]
            exact (total_append_self d).symm
          · rw [hcount', hsettled.acceptedCount, callsIn_append, if_pos (by exact rfl),
              List.length_append, List.length_singleton]
          · exact callsIn_append_ne hne.symm
        · simp only [settle, List.filter_append, hflight]
          rfl
    · obtain ⟨statistics, hadd, -, hshares', hcount'⟩ :=
        addShares_transition client d hsettled.currentTimeSlot hsame
      rw [hadd]
      refine .moving shares ⟨key, date, d⟩ rfl ?_ ?_
      · rw [← hstarted]
        exact exact_update hsettled hbegun rfl (by rw [hshares', hsettled.shares])
          (by rw [hcount', hsettled.acceptedCount]) fun _ _ ↦ rfl
      · simp only [settle, List.filter_append, hflight]
        rfl
  | moving _ _ _ _ _ _ _ _ hflight =>
    rw [hguard] at hflight
    cases hflight

theorem Saves.resume (h : Saves client shares s) (hinv : Inv client s)
    (hpast : lastSaved s.statistics ≤ s.now)
    (hstep : step client s (.resume i now) = some s') : Saves client shares s' := by
  simp only [step, Option.ite_none_right_eq_some, Option.map_eq_some_iff] at hstep
  obtain ⟨hnow, wait, hwait, rfl⟩ := hstep
  have hperm := transitions_eraseIdx hwait
  cases h with
  | resting saved unsaved hshares hexact hrecent hflight =>
    rw [hflight, List.nil_perm, List.append_eq_nil_iff] at hperm
    obtain ⟨hnot, hflight'⟩ := hperm
    have hrecent' : ∀ share ∈ unsaved, share.time ≤ now + 60 * 1000 := fun share hmem ↦ by
      have hle := hrecent share hmem
      omega
    cases wait with
    | updatedOld => simp [isTransition] at hnot
    | insertedFirst | insertedNew | updated =>
      exact .resting saved unsaved hshares hexact hrecent' hflight'
  | moving saved share hshares hexact hflight =>
    rw [hflight, List.singleton_perm] at hperm
    cases wait with
    | updatedOld slot d =>
      simp only [isTransition, if_true, List.singleton_append, List.cons.injEq,
        AddShares.updatedOld.injEq] at hperm
      obtain ⟨⟨rfl, rfl⟩, hflight'⟩ := hperm
      have hrows : rowsFor client share.call.slot s.rows = [] := by
        cases hinv with
        | fresh _ _ _ _ _ hnone =>
          rw [hnone] at hflight
          cases hflight
        | steady _ _ _ hnone =>
          rw [hnone] at hflight
          cases hflight
        | moving slot calls call hsettled _ _ hlt _ hmoving =>
          rw [hmoving] at hflight
          simp only [List.cons.injEq, AddShares.updatedOld.injEq, and_true] at hflight
          exact hsettled.future _ (hflight.1 ▸ hlt)
      refine .resting shares [] (List.append_nil _).symm ?_
        (fun _ hmem ↦ absurd hmem List.not_mem_nil) ?_
      · rw [hshares, map_call_append]
        exact hexact.insert hrows rfl rfl
      · simp only [settle, resumeAddShares, List.filter_append, ← hflight']
        rfl
    | insertedFirst | insertedNew | updated =>
      simp only [isTransition, Bool.false_eq_true, if_false, List.nil_append] at hperm
      exact .moving saved share hshares hexact hperm.symm

theorem statistics_settle (s : State)
    (r : StratumV1ClientStatistics × Option (StatisticsCall × AddShares)) :
    (settle s r).statistics = r.1 := by
  obtain ⟨statistics, _ | ⟨call, wait⟩⟩ := r <;> rfl

theorem now_settle (s : State)
    (r : StratumV1ClientStatistics × Option (StatisticsCall × AddShares)) :
    (settle s r).now = s.now := by
  obtain ⟨statistics, _ | ⟨call, wait⟩⟩ := r <;> rfl

theorem lastSaved_step (hpast : lastSaved s.statistics ≤ s.now)
    {e : ShareAccounting.Event} (hstep : step client s e = some s') :
    lastSaved s'.statistics ≤ s'.now := by
  cases e with
  | start date d =>
    simp only [step, Option.ite_none_right_eq_some, Option.some.injEq] at hstep
    obtain ⟨hdate, rfl⟩ := hstep
    rw [statistics_settle, now_settle, lastSaved, lastSave_addShares]
    exact hpast.trans hdate
  | resume i now =>
    simp only [step, Option.ite_none_right_eq_some, Option.map_eq_some_iff] at hstep
    obtain ⟨hnow, wait, -, rfl⟩ := hstep
    cases wait with
    | updatedOld => exact hpast.trans hnow
    | insertedFirst | insertedNew | updated => exact le_rfl

end Steps

section Sessions

variable {w w' : World} {key : Key}

def sharesOf (w : World) (key : Key) : List Accepted := w.accepted.filter fun share ↦ share.key = key

structure SavesAll (w : World) : Prop where
  saves : ∀ key : Key, Saves key.client (sharesOf w key) (w.of key)
  past : ∀ key, lastSaved (w.counters key).statistics ≤ w.now
  sorted : w.accepted.Pairwise fun earlier later ↦ earlier.time ≤ later.time

theorem Saves.later (h : Saves client shares s) (now : ℕ) :
    Saves client shares { s with now := now } := by
  cases h with
  | resting saved unsaved hshares hexact hrecent hflight =>
    exact .resting saved unsaved hshares hexact hrecent hflight
  | moving saved share hshares hexact hflight => exact .moving saved share hshares hexact hflight

def acceptedBy (key : Key) : ShareAccounting.Event → List Accepted
  | .start date d => [⟨key, date, d⟩]
  | .resume _ _ => []

theorem accepted_of_step {e : ShareAccounting.Event} (h : w.step (key, e) = some w') :
    w'.accepted = w.accepted ++ acceptedBy key e ∧
      ∀ share ∈ acceptedBy key e, w.now ≤ share.time := by
  cases e with
  | start date d =>
    simp only [World.step, Option.ite_none_right_eq_some, Option.some.injEq] at h
    obtain ⟨hdate, rfl⟩ := h
    refine ⟨(RecentAccounting.now_settle _ key _).2, fun share hmem ↦ ?_⟩
    rw [List.mem_singleton.mp hmem]
    exact hdate
  | resume i now =>
    simp only [World.step, Option.ite_none_right_eq_some, Option.map_eq_some_iff] at h
    obtain ⟨-, wait, -, rfl⟩ := h
    exact ⟨((RecentAccounting.now_settle _ key _).2).trans (List.append_nil _).symm,
      fun _ hmem ↦ absurd hmem List.not_mem_nil⟩

theorem sharesOf_self {e : ShareAccounting.Event} (h : w.step (key, e) = some w') :
    sharesOf w' key = sharesOf w key ++ acceptedBy key e := by
  rw [sharesOf, (accepted_of_step h).1, List.filter_append, sharesOf]
  congr 1
  refine List.filter_eq_self.mpr fun share hmem ↦ ?_
  cases e with
  | start date d => rw [List.mem_singleton.mp hmem, decide_eq_true rfl]
  | resume i now => cases hmem

theorem sharesOf_of_ne {e : ShareAccounting.Event} (h : w.step (key, e) = some w') {key' : Key}
    (hne : key' ≠ key) : sharesOf w' key' = sharesOf w key' := by
  have hnone : (acceptedBy key e).filter (fun share ↦ share.key = key') = [] := by
    refine List.filter_eq_nil_iff.mpr fun share hmem ↦ ?_
    cases e with
    | start date d =>
      rw [List.mem_singleton.mp hmem, decide_eq_true_eq]
      exact hne.symm
    | resume i now => cases hmem
  rw [sharesOf, (accepted_of_step h).1, List.filter_append, hnone, List.append_nil, sharesOf]

theorem SavesAll.step {e : Key × ShareAccounting.Event} (hbooks : Books w) (h : SavesAll w)
    (hguard : RecentAccounting.NoOverlap w e) (hstep : w.step e = some w') : SavesAll w' := by
  obtain ⟨key, e⟩ := e
  have hsim := simulates_of_step hstep
  obtain ⟨haccepted, hlate⟩ := accepted_of_step hstep
  refine ⟨fun key' ↦ ?_, fun key' ↦ ?_, ?_⟩
  · by_cases hkey : key' = key
    · subst hkey
      rw [sharesOf_self hstep]
      cases e with
      | start date d =>
        exact (h.saves key').start (hbooks.inv key') (hbooks.begun key') rfl hguard hsim.session
      | resume i now =>
        rw [acceptedBy, List.append_nil]
        exact (h.saves key').resume (hbooks.inv key') (h.past key') hsim.session
    · rw [sharesOf_of_ne hstep hkey, hsim.others key' hkey]
      exact (h.saves key').later w'.now
  · by_cases hkey : key' = key
    · subst hkey
      exact lastSaved_step (h.past key') hsim.session
    · have hother := congrArg State.statistics (hsim.others key' hkey)
      have hcounters : (w'.counters key').statistics = (w.counters key').statistics := hother
      rw [hcounters]
      exact (h.past key').trans hsim.now
  · rw [haccepted, List.pairwise_append]
    refine ⟨h.sorted, ?_, fun earlier hearlier later hlater ↦
      (hbooks.past earlier hearlier).trans (hlate later hlater)⟩
    cases e with
    | start date d => exact List.pairwise_singleton _ _
    | resume i now => exact List.Pairwise.nil

theorem savesAll_of_reach {submissionCacheStart : Key → ℕ}
    (h : Reach World.step RecentAccounting.NoOverlap (World.init now submissionCacheStart) w) :
    Books w ∧ SavesAll w := by
  refine h.invariant (I := fun w ↦ Books w ∧ SavesAll w)
    ⟨books_of_reach .refl, fun key ↦ ?_, fun key ↦ Nat.zero_le _, .nil⟩
    fun w e w' hw hguard hstep ↦ ⟨hw.1.step hguard hstep, hw.2.step hw.1 hguard hstep⟩
  exact .resting [] [] rfl (fun _ ↦ .inl ⟨rfl, rfl⟩) (fun _ hmem ↦ absurd hmem List.not_mem_nil) rfl

end Sessions

section Keys

variable {α κ : Type}

theorem sum_singletons (l : List α) : (l.map fun a ↦ ({a} : Multiset α)).sum = l := by
  induction l with
  | nil => rfl
  | cons a l ih =>
    rw [List.map_cons, List.sum_cons, ih, Multiset.singleton_add, Multiset.cons_coe]

theorem sum_coe (keys : List κ) (f : κ → List α) :
    (keys.map fun k ↦ (f k : Multiset α)).sum = (keys.flatMap f : List α) := by
  induction keys with
  | nil => rfl
  | cons k keys ih =>
    rw [List.map_cons, List.sum_cons, ih, List.flatMap_cons, Multiset.coe_add]

theorem perm_flatMap_keys [DecidableEq κ] (key : α → κ) {p : α → Bool} {keys : List κ}
    (h : keys.Nodup) (l : List α) (hp : ∀ a ∈ l, p a = true ↔ key a ∈ keys) :
    (l.filter p).Perm (keys.flatMap fun k ↦ l.filter fun a ↦ key a = k) := by
  apply Multiset.coe_eq_coe.mp
  rw [← sum_singletons, Grouping.sum_filter_eq_sum_keys key _ h l hp, ← sum_coe]
  simp only [sum_singletons]

theorem sum_flatMap {M : Type} [AddCommMonoid M] (keys : List κ) (f : κ → List α) (g : α → M) :
    ((keys.flatMap f).map g).sum = (keys.map fun k ↦ ((f k).map g).sum).sum := by
  induction keys with
  | nil => rfl
  | cons k keys ih =>
    rw [List.flatMap_cons, List.map_append, List.sum_append, ih, List.map_cons, List.sum_cons]

end Keys

section Totals

variable {w : World} {key : Key}

theorem Exact.sum {M : Type} [AddCommMonoid M] (h : Exact client calls rows)
    (howned : ∀ row ∈ rows, row.sessionId = client.sessionId)
    (f : ClientStatisticsEntity → M) (g : ShareAccounting.Call → M)
    (hrow : ∀ row slot, rowsFor client slot rows = [row] → row.shares = total calls slot →
      row.acceptedCount = (callsIn calls slot).length → f row = ((callsIn calls slot).map g).sum) :
    (rows.map f).sum = (calls.map g).sum := by
  let slots := (rows.map ClientStatisticsEntity.time ++ calls.map ShareAccounting.Call.slot).dedup
  have hrows := Grouping.sum_filter_eq_sum_keys ClientStatisticsEntity.time f
    (p := fun _ ↦ true) (List.nodup_dedup _ : slots.Nodup) rows fun row hmem ↦ by
      simp only [true_iff, List.mem_dedup, List.mem_append]
      exact .inl (List.mem_map_of_mem hmem)
  have hcalls := Grouping.sum_filter_eq_sum_keys ShareAccounting.Call.slot g
    (p := fun _ ↦ true) (List.nodup_dedup _ : slots.Nodup) calls fun call hmem ↦ by
      simp only [true_iff, List.mem_dedup, List.mem_append]
      exact .inr (List.mem_map_of_mem hmem)
  rw [List.filter_true] at hrows hcalls
  rw [hrows, hcalls]
  congr 1
  refine List.map_congr_left fun slot _ ↦ ?_
  have hfor : (rows.filter fun row ↦ row.time = slot) = rowsFor client slot rows := by
    refine List.filter_congr fun row hmem ↦ ?_
    rw [howned row hmem, decide_eq_true rfl, Bool.true_and]
  rw [hfor]
  rcases h slot with ⟨hnil, hnone⟩ | ⟨row, hsingle, hshares, hcount⟩
  · rw [hnil, show (calls.filter fun call ↦ call.slot = slot) = [] from hnone]
    rfl
  · rw [hsingle, List.map_singleton, List.sum_singleton]
    exact hrow row slot hsingle hshares hcount

theorem sessionId_of (w : World) (key : Key) :
    ∀ row ∈ (w.of key).rows, row.sessionId = key.client.sessionId := by
  intro row hrow
  obtain ⟨-, hkey⟩ := List.mem_filter.mp hrow
  exact congrArg Key.sessionId (of_decide_eq_true hkey)

/-- The share may still wait for the table: it came at most a minute after the last save of its
session was answered, or the row of its slot is being saved. -/
def Waits (w : World) (share : Accepted) : Prop :=
  share.time ≤ lastSaved (w.counters share.key).statistics + 60 * 1000 ∨
    .updatedOld share.call.slot share.difficulty ∈ (w.counters share.key).inFlight

instance (w : World) (share : Accepted) : Decidable (Waits w share) :=
  inferInstanceAs (Decidable (_ ∨ _))

theorem SavesAll.split (h : SavesAll w) (key : Key) :
    ∃ saved unsaved, sharesOf w key = saved ++ unsaved ∧
      creditedDifficulty (w.of key).rows = (saved.map Accepted.difficulty).sum ∧
      acceptedShares (w.of key).rows = saved.length ∧ (∀ share ∈ unsaved, Waits w share) ∧
      ∀ share ∈ unsaved, ∀ earlier ∈ saved, earlier.time ≤ share.time := by
  have hsorted : (sharesOf w key).Pairwise fun earlier later ↦ earlier.time ≤ later.time :=
    h.sorted.filter _
  have hkey {share : Accepted} (hmem : share ∈ sharesOf w key) : share.key = key :=
    of_decide_eq_true (List.mem_filter.mp hmem).2
  have htotals {saved : List Accepted}
      (hexact : Exact key.client (saved.map Accepted.call) (w.of key).rows) :
      creditedDifficulty (w.of key).rows = (saved.map Accepted.difficulty).sum ∧
        acceptedShares (w.of key).rows = saved.length := by
    constructor
    · rw [creditedDifficulty, hexact.sum (sessionId_of w key) ClientStatisticsEntity.shares
        ShareAccounting.Call.difficulty fun row slot _ hshares _ ↦ hshares, List.map_map]
      rfl
    · rw [acceptedShares, hexact.sum (sessionId_of w key) ClientStatisticsEntity.acceptedCount
        (fun _ ↦ 1) fun row slot _ _ hcount ↦ by
          rw [hcount, List.map_const', List.sum_replicate, smul_eq_mul, mul_one]]
      rw [List.map_const', List.sum_replicate, smul_eq_mul, mul_one, List.length_map]
  cases h.saves key with
  | resting saved unsaved hshares hexact hrecent _ =>
    obtain ⟨hcredited, haccepted⟩ := htotals hexact
    rw [hshares, List.pairwise_append] at hsorted
    refine ⟨saved, unsaved, hshares, hcredited, haccepted, fun share hmem ↦ .inl ?_,
      fun share hmem earlier hearlier ↦ hsorted.2.2 earlier hearlier share hmem⟩
    rw [hkey (hshares ▸ List.mem_append_right _ hmem)]
    exact hrecent share hmem
  | moving saved share hshares hexact hflight =>
    obtain ⟨hcredited, haccepted⟩ := htotals hexact
    rw [hshares, List.pairwise_append] at hsorted
    refine ⟨saved, [share], hshares, hcredited, haccepted, fun share' hmem ↦ .inr ?_,
      fun share hmem earlier hearlier ↦ hsorted.2.2 earlier hearlier share hmem⟩
    obtain rfl := List.mem_singleton.mp hmem
    have hmoving := hflight ▸ List.mem_singleton_self (AddShares.updatedOld share'.call.slot
      share'.difficulty)
    rw [hkey (hshares ▸ List.mem_append_right _ hmem)]
    exact (List.mem_filter.mp hmoving).1

end Totals

section Sample

end Sample

end ElektronPool.UnsavedShares
