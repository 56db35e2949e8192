import Mathlib.Data.List.Sort
import Mathlib.Data.List.Dedup
import Mathlib.Algebra.BigOperators.Group.List.Basic

namespace ElektronPool.Lib.Query

variable {α β κ M : Type*} [LinearOrder κ] [AddCommMonoid M]

section Keys

variable {key : α → κ} {key' : β → κ} {as : List α} {bs : List β} {k : κ}

/-- `SELECT key … GROUP BY key ORDER BY key`: the keys of the rows, each once, in their order. -/
def orderedKeys (key : α → κ) (as : List α) : List κ := (as.map key).dedup.insertionSort (· ≤ ·)

theorem mem_orderedKeys : k ∈ orderedKeys key as ↔ ∃ a ∈ as, key a = k := by
  rw [orderedKeys, (List.perm_insertionSort _ _).mem_iff, List.mem_dedup, List.mem_map]

theorem pairwise_orderedKeys (key : α → κ) (as : List α) :
    (orderedKeys key as).Pairwise (· < ·) := by
  have hle : (orderedKeys key as).Pairwise (· ≤ ·) := List.pairwise_insertionSort _ _
  have hnodup : (orderedKeys key as).Nodup :=
    (List.perm_insertionSort _ _).nodup_iff.mpr (List.nodup_dedup _)
  exact (hle.and hnodup).imp fun h ↦ lt_of_le_of_ne h.1 h.2

theorem nodup_orderedKeys (key : α → κ) (as : List α) : (orderedKeys key as).Nodup :=
  (pairwise_orderedKeys key as).imp fun h ↦ h.ne

theorem eq_of_pairwise_lt {ks ls : List κ} (hks : ks.Pairwise (· < ·)) (hls : ls.Pairwise (· < ·))
    (hmem : ∀ k, k ∈ ks ↔ k ∈ ls) : ks = ls := by
  have hperm : ks.Perm ls := (List.perm_ext_iff_of_nodup (hks.imp fun h ↦ h.ne)
    (hls.imp fun h ↦ h.ne)).mpr hmem
  exact hperm.eq_of_pairwise (fun a b _ _ hab hba ↦ absurd hab hba.asymm) hks hls

theorem orderedKeys_congr (h : ∀ k, (∃ a ∈ as, key a = k) ↔ ∃ b ∈ bs, key' b = k) :
    orderedKeys key as = orderedKeys key' bs := by
  apply eq_of_pairwise_lt (pairwise_orderedKeys key as) (pairwise_orderedKeys key' bs)
  intro k
  rw [mem_orderedKeys, mem_orderedKeys]
  exact h k

end Keys

section Groups

variable (key : α → κ) (f : α → M) (as : List α)

/-- `SELECT key, SUM(f) … GROUP BY key ORDER BY key`. -/
def groupSums : List (κ × M) :=
  (orderedKeys key as).map fun k ↦ (k, ((as.filter fun a ↦ key a = k).map f).sum)

end Groups

end ElektronPool.Lib.Query
