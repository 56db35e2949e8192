import Mathlib.Algebra.BigOperators.Group.List.Basic
import Mathlib.Tactic.Abel

namespace ElektronPool.Lib.Grouping

variable {α κ M : Type*} [DecidableEq κ] [AddCommMonoid M]

theorem sum_filter_or {p q : α → Bool} (f : α → M) (l : List α)
    (hdisjoint : ∀ a, p a = true → q a = false) :
    ((l.filter fun a ↦ p a || q a).map f).sum =
      ((l.filter p).map f).sum + ((l.filter q).map f).sum := by
  induction l with
  | nil => simp
  | cons a l ih =>
    cases hp : p a with
    | true =>
      have hq := hdisjoint a hp
      simp only [List.filter_cons, hp, hq, Bool.true_or, if_true, Bool.false_eq_true, if_false,
        List.map_cons, List.sum_cons, ih]
      abel
    | false =>
      cases hq : q a with
      | true =>
        simp only [List.filter_cons, hp, hq, Bool.false_or, if_true, Bool.false_eq_true, if_false,
          List.map_cons, List.sum_cons, ih]
        abel
      | false => simp only [List.filter_cons, hp, hq, Bool.false_or, Bool.false_eq_true, if_false, ih]

/-- A sum over the elements with a key among these is the sum of the sums of each key. -/
theorem sum_filter_eq_sum_keys (key : α → κ) (f : α → M) {p : α → Bool} {keys : List κ}
    (h : keys.Nodup) (l : List α) (hp : ∀ a ∈ l, p a = true ↔ key a ∈ keys) :
    ((l.filter p).map f).sum =
      (keys.map fun k ↦ ((l.filter fun a ↦ key a = k).map f).sum).sum := by
  induction keys generalizing p with
  | nil =>
    have hnil : l.filter p = [] := List.filter_eq_nil_iff.mpr fun a ha hpa ↦ by
      simpa using (hp a ha).mp hpa
    simp [hnil]
  | cons k keys ih =>
    obtain ⟨hk, h⟩ := List.nodup_cons.mp h
    have hsplit : l.filter p = l.filter fun a ↦ decide (key a = k) || decide (key a ∈ keys) :=
      List.filter_congr fun a ha ↦ Bool.eq_iff_iff.mpr (by simp [hp a ha])
    rw [hsplit, sum_filter_or f l, List.map_cons, List.sum_cons, ih h fun a _ ↦ decide_eq_true_iff]
    intro a ha
    rw [decide_eq_true_eq] at ha
    rw [decide_eq_false_iff_not, ha]
    exact hk

end ElektronPool.Lib.Grouping
