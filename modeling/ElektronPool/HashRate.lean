import ElektronPool.ShareAccounting

namespace ElektronPool.HashRate

open Lib.Runs Model Model.StratumV1ClientStatistics

structure Session where
  accounting : ShareAccounting.State
  openings : List ℕ := []
  hashRate : Difficulty := 0
  stored : Difficulty := 0
deriving DecidableEq

inductive Event
  | addShares (e : ShareAccounting.Event)
  | sendNewMiningJob
  | heartbeat

/-- The openings after a step of `addShares`, which opens a slot with the first
share and when a transition has updated the old row. -/
def opened (s : Session) : ShareAccounting.Event → List ℕ
  | .start date _ =>
    if s.accounting.statistics.currentTimeSlot = none then date :: s.openings else s.openings
  | .resume i now =>
    if s.accounting.inFlight[i]?.any ShareAccounting.isTransition then now :: s.openings
    else s.openings

def Session.step (client : ClientEntity) (s : Session) : Event → Option Session
  | .addShares e =>
    (ShareAccounting.step client s.accounting e).map fun accounting ↦
      { s with accounting, openings := opened s e }
  | .sendNewMiningJob => some { s with hashRate := s.accounting.statistics.hashRate }
  | .heartbeat => some { s with stored := s.hashRate }

/-- The start of the interval over which the rate is taken: the last opening but
one, or the only one. -/
def since : List ℕ → ℕ
  | _ :: previous :: _ => previous
  | [first] => first
  | [] => 0

/-- A share in the current slot within a minute of the last save. -/
def Rated (statistics : StratumV1ClientStatistics) (date : ℕ) : Prop :=
  statistics.currentTimeSlot = some (timeSlotOf date) ∧
    date ≤ statistics.lastSave.getD 0 + 60 * 1000

instance (statistics : StratumV1ClientStatistics) (date : ℕ) : Decidable (Rated statistics date) :=
  inferInstanceAs (Decidable (_ ∧ _))

/-- A rated share that comes in the millisecond the interval starts in. -/
def Session.Hasty (s : Session) : Event → Prop
  | .addShares (.start date _) => Rated s.accounting.statistics date ∧ date ≤ since s.openings
  | _ => False

def Session.DividesByZero (s : Session) : Event → Prop
  | .addShares (.start date d) =>
    Rated s.accounting.statistics date ∧ 0 < s.accounting.statistics.shares + d ∧
      (date : ℚ) - s.accounting.statistics.previousTimeSlotTime = 0
  | _ => False

/-- The difficulty of a share, if the event brings one, is positive and finite. -/
def Credits : Event → Prop
  | .addShares (.start _ d) => 0 < d ∧ d ≠ ⊤
  | _ => True

def IsRate (rate : Difficulty) : Prop := 0 ≤ rate ∧ rate ≠ ⊤

/-- What `addShares` does up to its first wait, with one constructor for each branch. -/
inductive Adds (s : StratumV1ClientStatistics) (date : ℕ) (d : Difficulty) :
    StratumV1ClientStatistics → Option AddShares → Prop
  | first (h : s.currentTimeSlot = none) :
    Adds s date d
      { (s.cache date d).accumulate d with
        previousTimeSlotTime := date
        currentTimeSlotTime := date
        currentTimeSlot := some (timeSlotOf date) }
      (some .insertedFirst)
  | transition (slot : ℕ) (h : s.currentTimeSlot = some slot) (hne : slot ≠ timeSlotOf date) :
    Adds s date d (s.cache date d) (some (.updatedOld (timeSlotOf date) d))
  | saves (slot : ℕ) (h : s.currentTimeSlot = some slot)
      (hlate : s.lastSave.getD 0 + 60 * 1000 < date) :
    Adds s date d ((s.cache date d).accumulate d) (some .updated)
  | rates (h : Rated s date) (hshares : 0 < s.shares + d) :
    Adds s date d
      { (s.cache date d).accumulate d with
        hashRate := divide ((s.previousShares + (s.shares + d)) * 4294967296)
          (((date - s.previousTimeSlotTime : ℕ) : ℚ) / 1000) }
      none
  | counts (h : Rated s date) (hshares : ¬ 0 < s.shares + d) :
    Adds s date d ((s.cache date d).accumulate d) none

theorem adds_addShares (client : ClientEntity) (s : StratumV1ClientStatistics) (date : ℕ)
    (d : Difficulty) :
    Adds s date d (s.addShares client date d).1 ((s.addShares client date d).2.map Prod.snd) := by
  rw [addShares]
  split
  case _ hnone => exact .first hnone
  case _ slot hslot =>
    split_ifs with hne hlate
    · exact .transition slot hslot hne
    · exact .saves slot hslot hlate
    · have hrated : Rated s date := ⟨by rw [← not_not.mp hne]; exact hslot, not_lt.mp hlate⟩
      by_cases hshares : 0 < s.shares + d
      · have hrates := Adds.rates (d := d) hrated hshares
        simpa only [accumulate, cache, hshares, if_true, Option.map_none] using hrates
      · have hcounts := Adds.counts (d := d) hrated hshares
        simpa only [accumulate, cache, hshares, if_false, Option.map_none] using hcounts

section Steps

variable {client : ClientEntity} {s s' : Session} {date i now : ℕ} {d : Difficulty}

theorem start_cases (h : s.step client (.addShares (.start date d)) = some s') :
    s.accounting.now ≤ date ∧ ∃ statistics wait, Adds s.accounting.statistics date d statistics wait ∧
      s'.accounting.statistics = statistics ∧ s'.accounting.now = date ∧
      s'.accounting.inFlight = s.accounting.inFlight ++ wait.toList ∧
      s'.openings = opened s (.start date d) ∧ s'.hashRate = s.hashRate ∧ s'.stored = s.stored := by
  simp only [Session.step, ShareAccounting.step, Option.map_eq_some_iff,
    Option.ite_none_right_eq_some, Option.some.injEq] at h
  obtain ⟨_, ⟨hnow, rfl⟩, rfl⟩ := h
  have hadds := adds_addShares client s.accounting.statistics date d
  refine ⟨hnow, _, _, hadds, ?_⟩
  generalize s.accounting.statistics.addShares client date d = added
  cases added with
  | mk statistics call =>
    cases call with
    | none => exact ⟨rfl, rfl, by simp [ShareAccounting.settle], rfl, rfl, rfl⟩
    | some call => exact ⟨rfl, rfl, rfl, rfl, rfl, rfl⟩

theorem resume_cases (h : s.step client (.addShares (.resume i now)) = some s') :
    s.accounting.now ≤ now ∧ ∃ wait, s.accounting.inFlight[i]? = some wait ∧
      s'.accounting.statistics = (s.accounting.statistics.resumeAddShares client now wait).1 ∧
      s'.accounting.now = now ∧
      s'.accounting.inFlight = s.accounting.inFlight.eraseIdx i ++
        ((s.accounting.statistics.resumeAddShares client now wait).2.map Prod.snd).toList ∧
      s'.openings = opened s (.resume i now) ∧ s'.hashRate = s.hashRate ∧ s'.stored = s.stored := by
  simp only [Session.step, ShareAccounting.step, Option.map_eq_some_iff,
    Option.ite_none_right_eq_some] at h
  obtain ⟨_, ⟨hnow, wait, hwait, rfl⟩, rfl⟩ := h
  refine ⟨hnow, wait, hwait, ?_⟩
  generalize s.accounting.statistics.resumeAddShares client now wait = resumed
  cases resumed with
  | mk statistics call =>
    cases call with
    | none => exact ⟨rfl, rfl, by simp [ShareAccounting.settle], rfl, rfl, rfl⟩
    | some call => exact ⟨rfl, rfl, rfl, rfl, rfl, rfl⟩

structure Inv (s : Session) : Prop where
  shares : IsRate s.accounting.statistics.shares
  previousShares : IsRate s.accounting.statistics.previousShares
  waits : ∀ slot d, .updatedOld slot d ∈ s.accounting.inFlight →
    s.openings ≠ [] ∧ 0 < d ∧ d ≠ ⊤
  slot : s.accounting.statistics.currentTimeSlot = none ↔ s.openings = []
  last : ∀ opening ∈ s.openings.head?, s.accounting.statistics.currentTimeSlotTime = opening
  interval : s.openings ≠ [] →
    s.accounting.statistics.previousTimeSlotTime = since s.openings
  past : ∀ opening ∈ s.openings, opening ≤ s.accounting.now

theorem isRate_zero : IsRate 0 := ⟨le_rfl, WithTop.zero_ne_top⟩

theorem IsRate.add {a b : Difficulty} (ha : IsRate a) (hb : IsRate b) : IsRate (a + b) :=
  ⟨add_nonneg ha.1 hb.1, WithTop.add_ne_top.mpr ⟨ha.2, hb.2⟩⟩

theorem Credits.isRate (h : Credits (.addShares (.start date d))) : IsRate d := ⟨h.1.le, h.2⟩

theorem Inv.init (date : ℕ) : Inv { accounting := ShareAccounting.init date } where
  shares := isRate_zero
  previousShares := isRate_zero
  waits _ _ h := absurd h List.not_mem_nil
  slot := iff_of_true rfl rfl
  last _ h := by cases h
  interval h := absurd rfl h
  past _ h := absurd h List.not_mem_nil

theorem Inv.kept (h : Inv s) (hshares : IsRate s'.accounting.statistics.shares)
    (hprevious : s'.accounting.statistics.previousShares =
      s.accounting.statistics.previousShares)
    (hslot : s'.accounting.statistics.currentTimeSlot = s.accounting.statistics.currentTimeSlot)
    (hlast : s'.accounting.statistics.currentTimeSlotTime =
      s.accounting.statistics.currentTimeSlotTime)
    (hfrom : s'.accounting.statistics.previousTimeSlotTime =
      s.accounting.statistics.previousTimeSlotTime)
    (hopen : s'.openings = s.openings) (hnow : s.accounting.now ≤ s'.accounting.now)
    (hwaits : ∀ slot d, .updatedOld slot d ∈ s'.accounting.inFlight →
      .updatedOld slot d ∈ s.accounting.inFlight ∨ s.openings ≠ [] ∧ 0 < d ∧ d ≠ ⊤) : Inv s' where
  shares := hshares
  previousShares := by rw [hprevious]; exact h.previousShares
  waits slot d hmem := by
    rw [hopen]
    exact (hwaits slot d hmem).elim (h.waits slot d) id
  slot := by rw [hslot, hopen]; exact h.slot
  last := by rw [hlast, hopen]; exact h.last
  interval := by rw [hfrom, hopen]; exact h.interval
  past opening ho := (h.past opening (hopen ▸ ho)).trans hnow

theorem Inv.start (h : Inv s) (hd : Credits (.addShares (.start date d)))
    (hstep : s.step client (.addShares (.start date d)) = some s') : Inv s' := by
  obtain ⟨hnow, statistics, wait, hadds, hstatistics, hnow', hflight, hopen, -, -⟩ :=
    start_cases hstep
  have hadd : IsRate (s.accounting.statistics.shares + d) := h.shares.add hd.isRate
  have hlater : s.accounting.now ≤ s'.accounting.now := hnow.trans hnow'.ge
  have hsame (hne : s.accounting.statistics.currentTimeSlot ≠ none) : s'.openings = s.openings := by
    rw [hopen, opened, if_neg hne]
  cases hadds with
  | first hnone =>
    have hempty := h.slot.mp hnone
    simp only [opened, hnone, if_true, hempty] at hopen
    constructor
    all_goals simp only [hstatistics, hopen, hflight, hnow']
    · exact hadd
    · exact h.previousShares
    · intro slot d' hmem
      have hold := (h.waits slot d' (by simpa using hmem)).1
      exact absurd hempty hold
    · simp
    · simp
    · exact fun _ ↦ rfl
    · simp
  | transition slot hslot hne =>
    have hsome : s.accounting.statistics.currentTimeSlot ≠ none := by simp [hslot]
    have hopened : s.openings ≠ [] := fun hnil ↦ hsome (h.slot.mpr hnil)
    refine h.kept (hstatistics ▸ h.shares) (hstatistics ▸ rfl) (hstatistics ▸ rfl)
      (hstatistics ▸ rfl) (hstatistics ▸ rfl) (hsame hsome) hlater ?_
    intro slot' d' hmem
    rw [hflight] at hmem
    rcases List.mem_append.mp hmem with hmem | hmem
    · exact .inl hmem
    · simp only [Option.toList_some, List.mem_singleton, AddShares.updatedOld.injEq] at hmem
      rw [hmem.2]
      exact .inr ⟨hopened, hd⟩
  | saves slot hslot hlate =>
    refine h.kept (hstatistics ▸ hadd) (hstatistics ▸ rfl) (hstatistics ▸ rfl)
      (hstatistics ▸ rfl) (hstatistics ▸ rfl) (hsame (by simp [hslot])) hlater ?_
    intro slot' d' hmem
    exact .inl (by simpa [hflight] using hmem)
  | rates hrated | counts hrated =>
    refine h.kept (hstatistics ▸ hadd) (hstatistics ▸ rfl) (hstatistics ▸ rfl)
      (hstatistics ▸ rfl) (hstatistics ▸ rfl) (hsame (by simp [hrated.1])) hlater ?_
    intro slot' d' hmem
    exact .inl (by simpa [hflight] using hmem)

theorem Inv.resume (h : Inv s) (hstep : s.step client (.addShares (.resume i now)) = some s') :
    Inv s' := by
  obtain ⟨hnow, wait, hwait, hstatistics, hnow', hflight, hopen, -, -⟩ := resume_cases hstep
  have hlater : s.accounting.now ≤ s'.accounting.now := hnow.trans hnow'.ge
  have hkept {slot : ℕ} {d : Difficulty}
      (hmem : .updatedOld slot d ∈ s.accounting.inFlight.eraseIdx i) :
      .updatedOld slot d ∈ s.accounting.inFlight := List.mem_of_mem_eraseIdx hmem
  cases wait with
  | updatedOld slot d =>
    obtain ⟨hopened, hpos, hfinite⟩ := h.waits slot d (List.mem_of_getElem? hwait)
    obtain ⟨opening, openings, hcons⟩ := List.exists_cons_of_ne_nil hopened
    have hlast : s.accounting.statistics.currentTimeSlotTime = opening :=
      h.last opening (by simp [hcons])
    simp only [opened, hwait, Option.any_some, ShareAccounting.isTransition, if_true] at hopen
    constructor
    all_goals simp only [hstatistics, resumeAddShares, hopen, hflight, hnow']
    · exact ⟨hpos.le, hfinite⟩
    · exact h.shares
    · intro slot' d' hmem
      have hold := h.waits slot' d' (hkept (by simpa [resumeAddShares] using hmem))
      exact ⟨by simp, hold.2⟩
    · simp
    · simp
    · rw [hcons]
      exact fun _ ↦ hlast
    · intro o ho
      rcases List.mem_cons.mp ho with rfl | ho
      · exact le_rfl
      · exact (h.past o ho).trans hnow
  | insertedFirst | insertedNew | updated =>
    simp only [opened, hwait, Option.any_some, ShareAccounting.isTransition, Bool.false_eq_true,
      if_false] at hopen
    refine h.kept (hstatistics ▸ h.shares) (hstatistics ▸ rfl) (hstatistics ▸ rfl)
      (hstatistics ▸ rfl) (hstatistics ▸ rfl) hopen hlater fun slot' d' hmem ↦ .inl (hkept ?_)
    simpa [hflight, resumeAddShares] using hmem

theorem Inv.step {e : Event} (h : Inv s) (hcredits : Credits e)
    (hstep : s.step client e = some s') : Inv s' := by
  cases e with
  | addShares e =>
    cases e with
    | start date d => exact h.start hcredits hstep
    | resume i now => exact h.resume hstep
  | sendNewMiningJob | heartbeat =>
    obtain rfl := Option.some.inj hstep
    exact ⟨h.shares, h.previousShares, h.waits, h.slot, h.last, h.interval, h.past⟩

structure Rates (s : Session) : Prop where
  taken : IsRate s.accounting.statistics.hashRate
  copied : IsRate s.hashRate
  stored : IsRate s.stored

theorem isRate_divide {x : Difficulty} {y : ℚ} (hx : IsRate x) (hy : 0 < y) :
    IsRate (divide (x * 4294967296) y) := by
  obtain ⟨q, rfl⟩ := WithTop.ne_top_iff_exists.mp hx.2
  have hq : 0 ≤ q := WithTop.coe_nonneg.mp hx.1
  have hmul : (q : Difficulty) * 4294967296 = ((q * 4294967296 : ℚ) : Difficulty) := by norm_cast
  rw [hmul, divide_coe, quotient, if_neg hy.ne']
  exact ⟨WithTop.coe_nonneg.mpr (by positivity), WithTop.coe_ne_top⟩

theorem since_le {openings : List ℕ} {date : ℕ} (h : ∀ opening ∈ openings, opening ≤ date) :
    since openings ≤ date := by
  cases openings with
  | nil => exact date.zero_le
  | cons opening openings =>
    cases openings with
    | nil => exact h opening (List.mem_cons_self)
    | cons previous openings => exact h previous (List.mem_cons_of_mem _ List.mem_cons_self)

theorem Inv.interval_of_rated (h : Inv s) (hrated : Rated s.accounting.statistics date)
    (hnow : s.accounting.now ≤ date) :
    s.accounting.statistics.previousTimeSlotTime = since s.openings ∧
      since s.openings ≤ date := by
  have hopened : s.openings ≠ [] := by
    intro hnil
    rw [Rated, h.slot.mpr hnil] at hrated
    cases hrated.1
  refine ⟨h.interval hopened, since_le fun opening ho ↦ ?_⟩
  exact (h.past opening ho).trans hnow

theorem Inv.dividesByZero_iff {e : Event} (h : Inv s) (hcredits : Credits e)
    (hstep : s.step client e = some s') : s.DividesByZero e ↔ s.Hasty e := by
  cases e with
  | sendNewMiningJob | heartbeat => exact Iff.rfl
  | addShares e =>
    cases e with
    | resume i now => exact Iff.rfl
    | start date d =>
      obtain ⟨hnow, -⟩ := start_cases hstep
      have hshares : 0 < s.accounting.statistics.shares + d :=
        hcredits.1.trans_le (le_add_of_nonneg_left h.shares.1)
      apply and_congr_right
      intro hrated
      obtain ⟨hinterval, hle⟩ := h.interval_of_rated hrated hnow
      rw [and_iff_right hshares, sub_eq_zero, Nat.cast_inj, hinterval]
      omega

theorem Rates.step {e : Event} (hrates : Rates s) (h : Inv s) (hcredits : Credits e)
    (hzero : ¬ s.DividesByZero e) (hstep : s.step client e = some s') : Rates s' := by
  cases e with
  | sendNewMiningJob =>
    obtain rfl := Option.some.inj hstep
    exact ⟨hrates.taken, hrates.taken, hrates.stored⟩
  | heartbeat =>
    obtain rfl := Option.some.inj hstep
    exact ⟨hrates.taken, hrates.copied, hrates.copied⟩
  | addShares e =>
    cases e with
    | resume i now =>
      obtain ⟨-, wait, -, hstatistics, -, -, -, hcopied, hstored⟩ := resume_cases hstep
      refine ⟨?_, hcopied ▸ hrates.copied, hstored ▸ hrates.stored⟩
      rw [hstatistics]
      cases wait <;> exact hrates.taken
    | start date d =>
      obtain ⟨hnow, statistics, wait, hadds, hstatistics, -, -, -, hcopied, hstored⟩ :=
        start_cases hstep
      refine ⟨?_, hcopied ▸ hrates.copied, hstored ▸ hrates.stored⟩
      rw [hstatistics]
      cases hadds with
      | first | transition | saves | counts => exact hrates.taken
      | rates hrated hshares =>
        obtain ⟨hinterval, hle⟩ := h.interval_of_rated hrated hnow
        rw [← hinterval] at hle
        have hne : (date : ℚ) - s.accounting.statistics.previousTimeSlotTime ≠ 0 :=
          fun hsub ↦ hzero ⟨hrated, hshares, hsub⟩
        have hlt : s.accounting.statistics.previousTimeSlotTime < date := by
          refine hle.lt_of_ne fun heq ↦ hne ?_
          rw [heq, sub_self]
        refine isRate_divide (h.previousShares.add (h.shares.add hcredits.isRate)) ?_
        have hpos : 0 < date - s.accounting.statistics.previousTimeSlotTime := Nat.sub_pos_of_lt hlt
        positivity

end Steps

theorem isRate_sum {ι : Type} {shown : Finset ι} {f : ι → Difficulty} (h : ∀ i, IsRate (f i)) :
    IsRate (∑ i ∈ shown, f i) :=
  ⟨Finset.sum_nonneg fun i _ ↦ (h i).1, WithTop.sum_ne_top.mpr fun i _ ↦ (h i).2⟩

section Pool

variable {ι : Type} [DecidableEq ι] (clients : ι → ClientEntity) (dates : ι → ℕ)

def step (pool : ι → Session) : ι × Event → Option (ι → Session)
  | (i, e) => ((pool i).step (clients i) e).map (Function.update pool i)

def start : ι → Session := fun i ↦ { accounting := ShareAccounting.init (dates i) }

def DividesByZero (pool : ι → Session) (e : ι × Event) : Prop := (pool e.1).DividesByZero e.2

def Hasty (pool : ι → Session) (e : ι × Event) : Prop := (pool e.1).Hasty e.2

/-- No division is by zero, no rate is ever infinite, and no sum of the stored rates is. -/
structure FiniteRates (es : List (ι × Event)) : Prop where
  divisions : ¬ Happens (step clients) DividesByZero (start dates) es
  rates : ∀ before pool, before <+: es → run (step clients) (start dates) before = some pool →
    ∀ i, Rates (pool i)
  sums : ∀ before pool, before <+: es → run (step clients) (start dates) before = some pool →
    ∀ shown : Finset ι, IsRate (∑ i ∈ shown, (pool i).stored)

variable {clients dates} {pool pool' : ι → Session} {e : ι × Event} {es : List (ι × Event)}

theorem step_eq_some (h : step clients pool e = some pool') :
    ∃ s, (pool e.1).step (clients e.1) e.2 = some s ∧ pool' = Function.update pool e.1 s := by
  simp only [step, Option.map_eq_some_iff] at h
  obtain ⟨s, hs, rfl⟩ := h
  exact ⟨s, hs, rfl⟩

theorem forall_update {P : Session → Prop} {s : Session} {i : ι} (h : ∀ j, P (pool j)) (hs : P s) :
    ∀ j, P (Function.update pool i s j) := by
  intro j
  rcases eq_or_ne j i with rfl | hne
  · rwa [Function.update_self]
  · rw [Function.update_of_ne hne]
    exact h j

theorem inv_step (h : ∀ i, Inv (pool i)) (hcredits : Credits e.2)
    (hstep : step clients pool e = some pool') : ∀ i, Inv (pool' i) := by
  obtain ⟨s, hs, rfl⟩ := step_eq_some hstep
  exact forall_update h ((h e.1).step hcredits hs)

theorem rates_step (hrates : ∀ i, Rates (pool i)) (h : ∀ i, Inv (pool i)) (hcredits : Credits e.2)
    (hzero : ¬ DividesByZero pool e) (hstep : step clients pool e = some pool') :
    ∀ i, Rates (pool' i) := by
  obtain ⟨s, hs, rfl⟩ := step_eq_some hstep
  exact forall_update hrates ((hrates e.1).step (h e.1) hcredits hzero hs)

theorem inv_of_run (hcredits : ∀ e ∈ es, Credits e.2)
    (hrun : run (step clients) (start dates) es = some pool) : ∀ i, Inv (pool i) := by
  have hnot : ¬ Happens (step clients) (fun _ _ ↦ False) (start dates) es := by
    rintro ⟨_, _, _, _, _, _, hfalse⟩
    exact hfalse
  have hreach := Reach.of_not_happens (Q := fun e ↦ Credits e.2) hrun hnot hcredits
  refine hreach.invariant (I := fun pool ↦ ∀ i, Inv (pool i)) (fun i ↦ Inv.init (dates i)) ?_
  intro pool e pool' h hguard hstep
  exact inv_step h hguard.2 hstep

theorem rates_of_run (hcredits : ∀ e ∈ es, Credits e.2)
    (hzero : ¬ Happens (step clients) DividesByZero (start dates) es)
    (hrun : run (step clients) (start dates) es = some pool) : ∀ i, Rates (pool i) := by
  have hreach := Reach.of_not_happens (Q := fun e ↦ Credits e.2) hrun hzero hcredits
  have hboth : (∀ i, Inv (pool i)) ∧ ∀ i, Rates (pool i) := by
    refine hreach.invariant (I := fun pool ↦ (∀ i, Inv (pool i)) ∧ ∀ i, Rates (pool i))
      ⟨fun i ↦ Inv.init (dates i), fun _ ↦ ⟨isRate_zero, isRate_zero, isRate_zero⟩⟩ ?_
    rintro pool e pool' ⟨h, hrates⟩ ⟨hzero, hcredits⟩ hstep
    exact ⟨inv_step h hcredits hstep, rates_step hrates h hcredits hzero hstep⟩
  exact hboth.2

theorem happens_dividesByZero_iff (hcredits : ∀ e ∈ es, Credits e.2)
    (hrun : run (step clients) (start dates) es = some pool) :
    Happens (step clients) DividesByZero (start dates) es ↔
      Happens (step clients) Hasty (start dates) es := by
  have hiff {before after : List (ι × Event)} {e : ι × Event} {t : ι → Session}
      (hes : es = before ++ e :: after) (ht : run (step clients) (start dates) before = some t) :
      DividesByZero t e ↔ Hasty t e := by
    subst hes
    rw [run_append, ht, Option.bind_some] at hrun
    obtain ⟨t', ht', -⟩ := Option.bind_eq_some_iff.mp hrun
    obtain ⟨s, hs, -⟩ := step_eq_some ht'
    have hinv := inv_of_run (fun e' he' ↦ hcredits e' (List.mem_append_left _ he')) ht
    exact (hinv e.1).dividesByZero_iff (hcredits e (by simp)) hs
  constructor
  · rintro ⟨before, e, after, t, hes, ht, hzero⟩
    exact ⟨before, e, after, t, hes, ht, (hiff hes ht).mp hzero⟩
  · rintro ⟨before, e, after, t, hes, ht, hhasty⟩
    exact ⟨before, e, after, t, hes, ht, (hiff hes ht).mpr hhasty⟩

/-- The rates of a run stay finite exactly when no rated share comes in the
millisecond its session opened the slot before the current one, or its only one. -/
theorem finiteRates_iff (hcredits : ∀ e ∈ es, Credits e.2)
    (hrun : run (step clients) (start dates) es = some pool) :
    FiniteRates clients dates es ↔ ¬ Happens (step clients) Hasty (start dates) es := by
  constructor
  · intro h
    rw [← happens_dividesByZero_iff hcredits hrun]
    exact h.divisions
  · intro h
    rw [← happens_dividesByZero_iff hcredits hrun] at h
    have hrates {before : List (ι × Event)} {t : ι → Session} (hbefore : before <+: es)
        (ht : run (step clients) (start dates) before = some t) : ∀ i, Rates (t i) :=
      rates_of_run (fun e he ↦ hcredits e (hbefore.subset he)) (fun hb ↦ h (hb.of_prefix hbefore)) ht
    exact ⟨h, fun _ _ hbefore ht ↦ hrates hbefore ht,
      fun _ _ hbefore ht _ ↦ isRate_sum fun i ↦ (hrates hbefore ht i).stored⟩

end Pool

section Runs

open ShareAccounting (miner)

def unhurried : List (Unit × Event) :=
  [((), .addShares (.start 0 96)), ((), .addShares (.resume 0 5)),
    ((), .addShares (.start 60000 32)), ((), .sendNewMiningJob), ((), .heartbeat)]

theorem finiteRates_iff_unhurried :
    ∃ pool, run (step fun _ ↦ miner) (start fun _ ↦ 0) unhurried = some pool ∧
      (FiniteRates (fun _ ↦ miner) (fun _ ↦ 0) unhurried ↔
        ¬ Happens (step fun _ ↦ miner) Hasty (start fun _ ↦ 0) unhurried) := by
  obtain ⟨pool, hrun⟩ := Option.isSome_iff_exists.mp
    (by decide +kernel : (run (step fun _ ↦ miner) (start fun _ ↦ 0) unhurried).isSome)
  refine ⟨pool, hrun, finiteRates_iff ?_ hrun⟩
  simp [unhurried, Credits]

/-- Two shares in one millisecond, the first of them saved by then; the rate that
follows is copied and stored. -/
def hurried : List (Unit × Event) :=
  [((), .addShares (.start 0 96)), ((), .addShares (.resume 0 0)),
    ((), .addShares (.start 0 32)), ((), .sendNewMiningJob), ((), .heartbeat)]

theorem not_finiteRates_hurried :
    (∀ e ∈ hurried, Credits e.2) ∧ ¬ FiniteRates (fun _ ↦ miner) (fun _ ↦ 0) hurried := by
  refine ⟨by simp [hurried, Credits], ?_⟩
  intro h
  have hstored : (run (step fun _ ↦ miner) (start fun _ ↦ 0) hurried).any
      fun pool ↦ (pool ()).stored = ⊤ := by decide +kernel
  obtain ⟨pool, hrun, hstored⟩ := (Option.any_eq_true _ _).mp hstored
  replace hstored := of_decide_eq_true hstored
  exact (h.rates _ pool (List.prefix_refl _) hrun ()).stored.2 hstored

end Runs

end ElektronPool.HashRate
