import Mathlib.Order.Bounds.Basic
import Mathlib.Tactic.Common

namespace ElektronPool.Lib.Hysteresis

variable {α : Type*}

/-- A gate that one sample closes and `needed` samples in a row open again. -/
structure Gate (α : Type*) where
  trips : α → Bool
  recovers : α → Bool
  needed : ℕ
  needed_pos : 0 < needed

/-- A closed gate counts the recovering samples it has just seen in a row. -/
inductive Phase
  | isOpen
  | isClosed (streak : ℕ)
deriving DecidableEq

namespace Gate

variable (gate : Gate α) (samples : ℕ → α)

def next : Phase → α → Phase
  | .isOpen, x => if gate.trips x then .isClosed 0 else .isOpen
  | .isClosed streak, x =>
    if gate.recovers x then
      if streak + 1 < gate.needed then .isClosed (streak + 1) else .isOpen
    else .isClosed 0

def phase : ℕ → Phase
  | 0 => .isOpen
  | i + 1 => gate.next (phase i) (samples i)

def Closes (i : ℕ) : Prop := gate.phase samples i = .isOpen ∧ gate.phase samples (i + 1) ≠ .isOpen

def Opens (i : ℕ) : Prop := gate.phase samples i ≠ .isOpen ∧ gate.phase samples (i + 1) = .isOpen

def EndsRun (p i : ℕ) : Prop :=
  p + gate.needed ≤ i ∧ ∀ j, i < j + gate.needed → j ≤ i → gate.recovers (samples j) = true

def Starts (i : ℕ) : Prop := i = 0 ∨ ∃ j, gate.Opens samples j ∧ i = j + 1

variable {gate samples} {i j p : ℕ}

theorem closes_iff_trips (h : gate.phase samples i = .isOpen) :
    gate.Closes samples i ↔ gate.trips (samples i) = true := by
  rw [Closes, phase, h, next]
  by_cases htrips : gate.trips (samples i) = true <;> simp [htrips]

/-- What a gate closed by `p` has counted before the sample `i`. -/
structure Streak (gate : Gate α) (samples : ℕ → α) (p i streak : ℕ) : Prop where
  lt : streak < gate.needed
  after : p + streak < i
  recovers : ∀ j, i ≤ j + streak → j < i → gate.recovers (samples j) = true
  whole : p + streak + 1 = i ∨ gate.recovers (samples (i - 1 - streak)) = false

theorem Streak.endsRun {streak : ℕ} (h : gate.Streak samples p i streak)
    (hrecovers : gate.recovers (samples i) = true) (hfull : gate.needed ≤ streak + 1) :
    gate.EndsRun samples p i := by
  have hlt := h.lt
  have hafter := h.after
  refine ⟨by omega, ?_⟩
  intro j hlow hle
  rcases Nat.lt_or_eq_of_le hle with hlt | rfl
  · exact h.recovers j (by omega) hlt
  · exact hrecovers

theorem Streak.full {streak : ℕ} (h : gate.Streak samples p i streak)
    (hends : gate.EndsRun samples p i) : gate.needed ≤ streak + 1 := by
  by_contra hshort
  obtain ⟨hp, hall⟩ := hends
  have hafter := h.after
  rcases h.whole with hwhole | hwhole
  · omega
  · rw [hall (i - 1 - streak) (by omega) (by omega)] at hwhole
    cases hwhole

/-- Up to the first run of recoveries a closed gate stays closed and counts them. -/
theorem streak_of_closes (hcloses : gate.Closes samples p) (hlt : p < i)
    (hnone : ∀ j < i, ¬ gate.EndsRun samples p j) :
    ∃ streak, gate.phase samples i = .isClosed streak ∧ gate.Streak samples p i streak := by
  induction i, hlt using Nat.le_induction with
  | base =>
    have htrips := (closes_iff_trips hcloses.1).mp hcloses
    refine ⟨0, ?_, gate.needed_pos, by omega, fun j _ _ ↦ by omega, .inl rfl⟩
    rw [phase, hcloses.1, next, if_pos htrips]
  | succ i hlt ih =>
    obtain ⟨streak, hphase, hstreak⟩ := ih fun j hj ↦ hnone j (by omega)
    have hafter := hstreak.after
    rw [phase, hphase, next]
    by_cases hrecovers : gate.recovers (samples i) = true
    · have hshort : streak + 1 < gate.needed := by
        by_contra hfull
        exact hnone i (by omega) (hstreak.endsRun hrecovers (by omega))
      rw [if_pos hrecovers, if_pos hshort]
      refine ⟨streak + 1, rfl, hshort, by omega, fun j hlow hj ↦ ?_, ?_⟩
      · rcases Nat.lt_or_eq_of_le (Nat.lt_succ_iff.mp hj) with hj | rfl
        · exact hstreak.recovers j (by omega) hj
        · exact hrecovers
      · rcases hstreak.whole with hwhole | hwhole
        · exact .inl (by omega)
        · refine .inr ?_
          rwa [show i + 1 - 1 - (streak + 1) = i - 1 - streak by omega]
    · rw [if_neg hrecovers]
      refine ⟨0, rfl, gate.needed_pos, by omega, fun j _ _ ↦ by omega, .inr ?_⟩
      exact Bool.eq_false_of_not_eq_true hrecovers

theorem opens_of_endsRun (hcloses : gate.Closes samples p)
    (hleast : IsLeast {i | gate.EndsRun samples p i} i) : gate.Opens samples i := by
  obtain ⟨hends, hmin⟩ := hleast
  have hpos := gate.needed_pos
  have hlt : p < i := by have := hends.1; omega
  obtain ⟨streak, hphase, hstreak⟩ :=
    streak_of_closes hcloses hlt fun j hj hends ↦ absurd (hmin hends) (by omega)
  have hfull := hstreak.full hends
  refine ⟨by simp [hphase], ?_⟩
  rw [phase, hphase, next, if_pos (hends.2 i (by omega) le_rfl), if_neg (by omega)]

theorem exists_closes (h : gate.phase samples i ≠ .isOpen) :
    ∃ p < i, gate.Closes samples p ∧ ∀ j, p < j → j ≤ i → gate.phase samples j ≠ .isOpen := by
  induction i with
  | zero => exact absurd rfl h
  | succ i ih =>
    by_cases hopen : gate.phase samples i = .isOpen
    · refine ⟨i, by omega, ⟨hopen, h⟩, ?_⟩
      intro j hlt hle
      rwa [show j = i + 1 by omega]
    · obtain ⟨p, hp, hcloses, hstays⟩ := ih hopen
      refine ⟨p, by omega, hcloses, ?_⟩
      intro j hlt hle
      rcases Nat.lt_or_eq_of_le hle with hj | rfl
      · exact hstays j hlt (by omega)
      · exact h

/-- A closed gate opens with the first sample that ends a run of recoveries. -/
theorem opens_iff : gate.Opens samples i ↔
    ∃ p, gate.Closes samples p ∧ IsLeast {i | gate.EndsRun samples p i} i := by
  constructor
  · intro h
    obtain ⟨p, hp, hcloses, hstays⟩ := exists_closes h.1
    have hnone : ∀ j < i, ¬ gate.EndsRun samples p j := by
      intro j
      induction j using Nat.strong_induction_on with
      | _ j ih =>
        intro hj hends
        have hleast : IsLeast {i | gate.EndsRun samples p i} j :=
          ⟨hends, fun k hk ↦ not_lt.mp fun hlt ↦ ih k hlt (by omega) hk⟩
        have hpos := gate.needed_pos
        exact hstays (j + 1) (by have := hends.1; omega) (by omega)
          (opens_of_endsRun hcloses hleast).2
    obtain ⟨streak, hphase, hstreak⟩ := streak_of_closes hcloses hp hnone
    refine ⟨p, hcloses, ?_, fun j hends ↦ not_lt.mp fun hlt ↦ hnone j hlt hends⟩
    have hopens := h.2
    rw [phase, hphase, next] at hopens
    split at hopens
    case isTrue hrecovers =>
      refine hstreak.endsRun hrecovers ?_
      by_contra hshort
      rw [if_pos (by omega)] at hopens
      cases hopens
    case isFalse => cases hopens
  · rintro ⟨p, hcloses, hleast⟩
    exact opens_of_endsRun hcloses hleast

theorem exists_starts (h : gate.phase samples i = .isOpen) :
    ∃ o ≤ i, gate.Starts samples o ∧ ∀ j, o ≤ j → j ≤ i → gate.phase samples j = .isOpen := by
  induction i with
  | zero => exact ⟨0, le_rfl, .inl rfl, fun j _ hj ↦ by rwa [Nat.le_zero.mp hj]⟩
  | succ i ih =>
    by_cases hopen : gate.phase samples i = .isOpen
    · obtain ⟨o, ho, hstarts, hstays⟩ := ih hopen
      refine ⟨o, by omega, hstarts, ?_⟩
      intro j hlow hle
      rcases Nat.lt_or_eq_of_le hle with hj | rfl
      · exact hstays j hlow (by omega)
      · exact h
    · refine ⟨i + 1, le_rfl, .inr ⟨i, ⟨hopen, h⟩, rfl⟩, ?_⟩
      intro j hlow hle
      rwa [show j = i + 1 by omega]

theorem Starts.isOpen (h : gate.Starts samples i) : gate.phase samples i = .isOpen := by
  obtain rfl | ⟨j, hopens, rfl⟩ := h
  · rfl
  · exact hopens.2

/-- An open gate closes with the first sample that trips it. -/
theorem closes_iff : gate.Closes samples i ↔
    ∃ o, gate.Starts samples o ∧ IsLeast {i | o ≤ i ∧ gate.trips (samples i) = true} i := by
  constructor
  · intro h
    obtain ⟨o, ho, hstarts, hstays⟩ := exists_starts h.1
    refine ⟨o, hstarts, ⟨ho, (closes_iff_trips h.1).mp h⟩, fun j hj ↦ not_lt.mp fun hlt ↦ ?_⟩
    have hlow := hj.1
    have hcloses := (closes_iff_trips (hstays j hlow hlt.le)).mpr hj.2
    exact hcloses.2 (hstays (j + 1) (by omega) hlt)
  · rintro ⟨o, hstarts, ⟨ho, htrips⟩, hmin⟩
    have hopen : ∀ j, o ≤ j → j ≤ i → gate.phase samples j = .isOpen := by
      intro j hlow
      induction j, hlow using Nat.le_induction with
      | base => exact fun _ ↦ hstarts.isOpen
      | succ j hlow ih =>
        intro hle
        have hno : ¬ gate.trips (samples j) = true := fun htrips ↦
          absurd (hmin ⟨hlow, htrips⟩) (by omega)
        rw [phase, ih (by omega), next, if_neg hno]
    exact (closes_iff_trips (hopen i ho le_rfl)).mpr htrips

theorem streak_lt {streak : ℕ} (h : gate.phase samples i = .isClosed streak) :
    streak < gate.needed := by
  have hpos := gate.needed_pos
  cases i with
  | zero => cases h
  | succ i =>
    rw [phase] at h
    cases hphase : gate.phase samples i with
    | isOpen =>
      rw [hphase, next] at h
      split at h
      · cases h
        exact hpos
      · cases h
    | isClosed k =>
      rw [hphase, next] at h
      split at h
      · split at h
        case isTrue hshort =>
          cases h
          exact hshort
        · cases h
      · cases h
        exact hpos

end Gate

end ElektronPool.Lib.Hysteresis
