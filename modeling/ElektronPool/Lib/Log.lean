import Mathlib.Data.List.Basic

namespace ElektronPool.Lib.Log

variable {E : Type*} {drops : E → E → Prop} {log : List E} {entry e : E}

/-- The entry is in the log, newest first, and none that came after it drops it. -/
def Stands (drops : E → E → Prop) (log : List E) (entry : E) : Prop :=
  ∃ newer older, log = newer ++ entry :: older ∧ ∀ e ∈ newer, ¬ drops e entry

theorem Stands.mem (h : Stands drops log entry) : entry ∈ log := by
  obtain ⟨newer, older, rfl, -⟩ := h
  exact List.mem_append_right _ List.mem_cons_self

theorem not_stands_nil : ¬ Stands drops [] entry := by
  intro h
  exact List.not_mem_nil h.mem

theorem stands_cons : Stands drops (e :: log) entry ↔
    e = entry ∨ ¬ drops e entry ∧ Stands drops log entry := by
  constructor
  · rintro ⟨newer, older, hlog, hnewer⟩
    cases newer with
    | nil => exact .inl (List.cons.inj hlog).1
    | cons e' newer =>
      obtain ⟨rfl, rfl⟩ := List.cons.inj hlog
      exact .inr ⟨hnewer e List.mem_cons_self, newer, older, rfl,
        fun e' hmem ↦ hnewer e' (List.mem_cons_of_mem _ hmem)⟩
  · rintro (rfl | ⟨hkept, newer, older, rfl, hnewer⟩)
    · exact ⟨[], log, rfl, fun _ hmem ↦ absurd hmem List.not_mem_nil⟩
    · refine ⟨e :: newer, older, rfl, fun e' hmem ↦ ?_⟩
      rcases List.mem_cons.mp hmem with rfl | hmem
      · exact hkept
      · exact hnewer e' hmem

theorem stands_filter {p : E → Bool} (hentry : p entry = true)
    (hquiet : ∀ e, p e = false → ¬ drops e entry) :
    Stands drops (log.filter p) entry ↔ Stands drops log entry := by
  induction log with
  | nil => exact Iff.rfl
  | cons e log ih =>
    rw [stands_cons, List.filter_cons]
    cases hp : p e with
    | true => rw [if_pos rfl, stands_cons, ih]
    | false =>
      have hne : e ≠ entry := by
        rintro rfl
        simp [hentry] at hp
      rw [if_neg (by simp), ih, or_iff_right hne, and_iff_right (hquiet e hp)]

end ElektronPool.Lib.Log
