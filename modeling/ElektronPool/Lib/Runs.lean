import Mathlib.Tactic.Common

namespace ElektronPool.Lib.Runs

variable {σ ε : Type*} {step : σ → ε → Option σ} {G H : σ → ε → Prop} {s₀ s s' : σ} {e : ε}

/-- The state a partial step function ends in after a list of events, when
every one of them is enabled in turn. -/
def run (step : σ → ε → Option σ) : σ → List ε → Option σ
  | s, [] => some s
  | s, e :: es => (step s e).bind fun s' ↦ run step s' es

/-- The states of the runs from `s₀` in which every step meets the guard `G`,
a condition on the state before the step and on its event. -/
inductive Reach (step : σ → ε → Option σ) (G : σ → ε → Prop) (s₀ : σ) : σ → Prop
  | refl : Reach step G s₀ s₀
  | tail {s s' : σ} {e : ε} : Reach step G s₀ s → G s e → step s e = some s' → Reach step G s₀ s'

abbrev Reachable (step : σ → ε → Option σ) (s₀ : σ) : σ → Prop := Reach step (fun _ _ ↦ True) s₀

theorem Reach.mono (hGH : ∀ s e, G s e → H s e) (h : Reach step G s₀ s) : Reach step H s₀ s := by
  induction h with
  | refl => exact .refl
  | tail _ hg hs ih => exact .tail ih (hGH _ _ hg) hs

theorem Reach.reachable (h : Reach step G s₀ s) : Reachable step s₀ s := h.mono fun _ _ _ ↦ trivial

theorem Reach.single (hg : G s e) (hs : step s e = some s') : Reach step G s s' := .tail .refl hg hs

theorem Reach.trans {s₁ s₂ : σ} (h : Reach step G s₀ s₁) (h' : Reach step G s₁ s₂) :
    Reach step G s₀ s₂ := by
  induction h' with
  | refl => exact h
  | tail _ hg hs ih => exact .tail ih hg hs

/-- What holds at the start and is kept by every step that meets the guard
holds in every state of a guarded run. -/
theorem Reach.invariant {I : σ → Prop} (hinit : I s₀)
    (hstep : ∀ s e s', I s → G s e → step s e = some s' → I s') (h : Reach step G s₀ s) : I s := by
  induction h with
  | refl => exact hinit
  | tail _ hg hs ih => exact hstep _ _ _ ih hg hs

/-- A run, seen through a function that makes every step one of another system or no step at all. -/
theorem Reach.project {σ' ε' : Type*} {step' : σ' → ε' → Option σ'} {G' : σ' → ε' → Prop}
    (f : σ → σ') (hstep : ∀ s e s', G s e → step s e = some s' →
      f s' = f s ∨ ∃ e', G' (f s) e' ∧ step' (f s) e' = some (f s'))
    (h : Reach step G s₀ s) : Reach step' G' (f s₀) (f s) := by
  induction h with
  | refl => exact .refl
  | tail _ hg hs ih =>
    rcases hstep _ _ _ hg hs with hsame | ⟨e', hg', hs'⟩
    · exact hsame ▸ ih
    · exact .tail ih hg' hs'

/-- An invariant that needs a second one, already known of every reachable state. -/
theorem Reach.invariant_of {I J : σ → Prop} (hJ : ∀ s, Reachable step s₀ s → J s) (hinit : I s₀)
    (hstep : ∀ s e s', J s → I s → G s e → step s e = some s' → I s')
    (h : Reach step G s₀ s) : I s := by
  induction h with
  | refl => exact hinit
  | tail hr hg hs ih => exact hstep _ _ _ (hJ _ hr.reachable) ih hg hs

/-- A reflexive and transitive relation kept by every step relates the two ends of a run. -/
theorem Reach.relates {R : σ → σ → Prop} (hrefl : ∀ s, R s s)
    (htrans : ∀ s₁ s₂ s₃, R s₁ s₂ → R s₂ s₃ → R s₁ s₃)
    (hstep : ∀ s e s', G s e → step s e = some s' → R s s') (h : Reach step G s₀ s) : R s₀ s := by
  induction h with
  | refl => exact hrefl _
  | tail _ hg hs ih => exact htrans _ _ _ ih (hstep _ _ _ hg hs)

theorem reachable_of_run {es : List ε} (h : run step s es = some s') : Reachable step s s' := by
  induction es generalizing s with
  | nil =>
    simp only [run, Option.some.injEq] at h
    exact h ▸ .refl
  | cons e es ih =>
    simp only [run, Option.bind_eq_some_iff] at h
    obtain ⟨t, ht, hrest⟩ := h
    exact (Reach.single trivial ht).trans (ih hrest)

theorem run_append (es es' : List ε) :
    run step s (es ++ es') = (run step s es).bind fun t ↦ run step t es' := by
  induction es generalizing s with
  | nil => rfl
  | cons e es ih =>
    simp only [List.cons_append, run]
    cases step s e with
    | none => rfl
    | some t => exact ih

def meets (step : σ → ε → Option σ) (G : σ → ε → Prop) [∀ s e, Decidable (G s e)] :
    σ → List ε → Bool
  | _, [] => true
  | s, e :: es => decide (G s e) && (step s e).all fun s' ↦ meets step G s' es

theorem Reach.of_run [∀ s e, Decidable (G s e)] {es : List ε} (hm : meets step G s es = true)
    (h : run step s es = some s') : Reach step G s s' := by
  induction es generalizing s with
  | nil =>
    simp only [run, Option.some.injEq] at h
    exact h ▸ .refl
  | cons e es ih =>
    simp only [run, Option.bind_eq_some_iff] at h
    obtain ⟨t, ht, hrest⟩ := h
    simp only [meets, ht, Option.all_some, Bool.and_eq_true, decide_eq_true_eq] at hm
    exact (Reach.single hm.1 ht).trans (ih hm.2 hrest)

theorem Reach.of_any (step : σ → ε → Option σ) (G : σ → ε → Prop) [∀ s e, Decidable (G s e)]
    (s : σ) (es : List ε) (p : σ → Bool) (hm : meets step G s es = true)
    (h : (run step s es).any p = true) : ∃ s', Reach step G s s' ∧ p s' = true := by
  cases hrun : run step s es with
  | none => simp [hrun] at h
  | some t => exact ⟨t, .of_run hm hrun, by simpa only [hrun, Option.any_some] using h⟩

theorem Reachable.of_any (step : σ → ε → Option σ) (s : σ) (es : List ε) (p : σ → Bool)
    (h : (run step s es).any p = true) : ∃ s', Reachable step s s' ∧ p s' = true := by
  cases hrun : run step s es with
  | none => simp [hrun] at h
  | some t => exact ⟨t, reachable_of_run hrun, by simpa only [hrun, Option.any_some] using h⟩

def Happens (step : σ → ε → Option σ) (P : σ → ε → Prop) (s : σ) (es : List ε) : Prop :=
  ∃ before e after t, es = before ++ e :: after ∧ run step s before = some t ∧ P t e

theorem Happens.cons {P : σ → ε → Prop} {es : List ε} (h : Happens step P s' es)
    (hs : step s e = some s') : Happens step P s (e :: es) := by
  obtain ⟨before, e', after, t, rfl, hrun, hP⟩ := h
  exact ⟨e :: before, e', after, t, rfl, by rw [run, hs, Option.bind_some, hrun], hP⟩

theorem Happens.of_prefix {P : σ → ε → Prop} {before es : List ε} (h : Happens step P s before)
    (hbefore : before <+: es) : Happens step P s es := by
  obtain ⟨rest, rfl⟩ := hbefore
  obtain ⟨first, e, last, t, rfl, hrun, hP⟩ := h
  exact ⟨first, e, last ++ rest, t, by simp, hrun, hP⟩

theorem Reach.of_not_happens {P : σ → ε → Prop} {Q : ε → Prop} {es : List ε}
    (hrun : run step s es = some s') (hnot : ¬ Happens step P s es) (hall : ∀ e ∈ es, Q e) :
    Reach step (fun s e ↦ ¬ P s e ∧ Q e) s s' := by
  induction es generalizing s with
  | nil =>
    obtain rfl := Option.some.inj hrun
    exact .refl
  | cons e es ih =>
    obtain ⟨t, ht, hrest⟩ := Option.bind_eq_some_iff.mp hrun
    have hfirst : ¬ P s e := fun hP ↦ hnot ⟨[], e, es, s, rfl, rfl, hP⟩
    have hlater := ih hrest (fun hP ↦ hnot (hP.cons ht)) fun e' he' ↦
      hall e' (List.mem_cons_of_mem _ he')
    exact (Reach.single ⟨hfirst, hall e List.mem_cons_self⟩ ht).trans hlater

/-- What becomes true along a run becomes so in one of its events. -/
theorem happens_of_change {P : σ → ε → Prop} {Q : σ → Prop} {es : List ε}
    (hstep : ∀ t e t', Reachable step s t → step t e = some t' → ¬ Q t → Q t' → P t e)
    (h : run step s es = some s') (hs : ¬ Q s) (hs' : Q s') : Happens step P s es := by
  induction es generalizing s with
  | nil =>
    obtain rfl := Option.some.inj h
    exact absurd hs' hs
  | cons e es ih =>
    obtain ⟨t, ht, hrest⟩ := Option.bind_eq_some_iff.mp h
    by_cases hQ : Q t
    · exact ⟨[], e, es, s, rfl, rfl, hstep s e t .refl ht hs hQ⟩
    · have hlater : ∀ u e u', Reachable step t u → step u e = some u' → ¬ Q u → Q u' → P u e :=
        fun u e u' hu ↦ hstep u e u' ((Reach.single trivial ht).trans hu)
      exact (ih hlater hrest hQ).cons ht

theorem Happens.establishes {P : σ → ε → Prop} {Q : σ → Prop} {es : List ε}
    (h : Happens step P s es) (hrun : run step s es = some s')
    (hstep : ∀ t e t', Reachable step s t → P t e → step t e = some t' → Q t')
    (hstays : ∀ t e t', Q t → step t e = some t' → Q t') : Q s' := by
  obtain ⟨before, e, after, t, rfl, hbefore, hP⟩ := h
  rw [run_append, hbefore, Option.bind_some] at hrun
  obtain ⟨t', ht', hafter⟩ := Option.bind_eq_some_iff.mp hrun
  exact (reachable_of_run hafter).invariant (hstep t e t' (reachable_of_run hbefore) hP ht')
    fun u e u' hQ _ hu ↦ hstays u e u' hQ hu

section Noted

variable {α : Type*} {note : α → σ → ε → α}

/-- The runs of a system together with what is noted of their steps. -/
def noted (step : σ → ε → Option σ) (note : α → σ → ε → α) : σ × α → ε → Option (σ × α)
  | (s, a), e => (step s e).map fun s' ↦ (s', note a s e)

theorem noted_eq_some {a a' : α} :
    noted step note (s, a) e = some (s', a') ↔ step s e = some s' ∧ a' = note a s e := by
  simp only [noted, Option.map_eq_some_iff, Prod.mk.injEq]
  constructor
  · rintro ⟨t, ht, rfl, rfl⟩
    exact ⟨ht, rfl⟩
  · rintro ⟨hs, rfl⟩
    exact ⟨s', hs, rfl, rfl⟩

theorem Reachable.of_noted {H : σ × α → ε → Prop} {p₀ p : σ × α}
    (h : Reach (noted step note) H p₀ p) : Reachable step p₀.1 p.1 := by
  induction h with
  | refl => exact .refl
  | tail _ _ hs ih => exact .tail ih trivial (noted_eq_some.mp hs).1

/-- What a run and its notes keep, under a guard on both, when a second invariant is
known of the run. -/
theorem Reach.noted_invariant_of {H : σ × α → ε → Prop} {I : σ → α → Prop} {J : σ → Prop} {a₀ a : α}
    (hJ : ∀ s, Reachable step s₀ s → J s) (hinit : I s₀ a₀)
    (hstep : ∀ s a e s', J s → I s a → H (s, a) e → step s e = some s' → I s' (note a s e))
    (h : Reach (noted step note) H (s₀, a₀) (s, a)) : I s a := by
  have hreach : ∀ p, Reach (noted step note) H (s₀, a₀) p → I p.1 p.2 := by
    intro p hp
    induction hp with
    | refl => exact hinit
    | tail hp hg hs ih =>
      obtain ⟨ht, ha⟩ := noted_eq_some.mp hs
      rw [ha]
      exact hstep _ _ _ _ (hJ _ (Reachable.of_noted hp)) ih hg ht
  exact hreach _ h

theorem Reach.noted_invariant {I : σ → α → Prop} {J : σ → Prop} {a₀ a : α}
    (hJ : ∀ s, Reachable step s₀ s → J s) (hinit : I s₀ a₀)
    (hstep : ∀ s a e s', J s → I s a → G s e → step s e = some s' → I s' (note a s e))
    (h : Reach (noted step note) (fun p e ↦ G p.1 e) (s₀, a₀) (s, a)) : I s a :=
  h.noted_invariant_of hJ hinit hstep

end Noted

end ElektronPool.Lib.Runs
