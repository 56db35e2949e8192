import Mathlib.Data.List.Pairwise
import Mathlib.Tactic.Common

namespace ElektronPool.Lib

namespace MapData

variable {κ ν : Type*} [DecidableEq κ]

def isAt (k : κ) : Option (κ × ν) → Bool
  | some (k', _) => decide (k' = k)
  | none => false

/-- Two entries that are not at one key. -/
def Apart (e e' : Option (κ × ν)) : Prop := ∀ k, isAt k e = true → isAt k e' = false

end MapData

/-- The entries of an ECMAScript `Map` in the order their keys were added. A deleted
entry leaves a gap, so that a loop under way neither skips nor repeats its neighbours. -/
structure MapData (κ ν : Type*) [DecidableEq κ] where
  entries : List (Option (κ × ν))
  apart : entries.Pairwise MapData.Apart

namespace MapData

variable {κ ν : Type*} [DecidableEq κ] {m : MapData κ ν} {k k' : κ} {v v' : ν}
  {e : Option (κ × ν)} {p : κ → ν → Bool}

def empty : MapData κ ν := ⟨[], .nil⟩

def has (m : MapData κ ν) (k : κ) : Bool := m.entries.any (isAt k)

def Holds (m : MapData κ ν) (k : κ) (v : ν) : Prop := some (k, v) ∈ m.entries

theorem isAt_eq_true : isAt k e = true ↔ ∃ v, e = some (k, v) := by
  cases e with
  | none => simp [isAt]
  | some entry => simp [isAt, Prod.ext_iff, eq_comm]

theorem has_iff : m.has k = true ↔ ∃ v, m.Holds k v := by
  simp only [has, List.any_eq_true, isAt_eq_true, Holds]
  constructor
  · rintro ⟨_, hmem, v, rfl⟩
    exact ⟨v, hmem⟩
  · rintro ⟨v, hmem⟩
    exact ⟨_, hmem, v, rfl⟩

theorem index_unique {i j : ℕ} (hi : m.entries[i]? = some (some (k, v)))
    (hj : m.entries[j]? = some (some (k, v'))) : i = j := by
  obtain ⟨hi, hgeti⟩ := List.getElem?_eq_some_iff.mp hi
  obtain ⟨hj, hgetj⟩ := List.getElem?_eq_some_iff.mp hj
  have hapart := List.pairwise_iff_getElem.mp m.apart
  have hati : isAt k m.entries[i] = true := isAt_eq_true.mpr ⟨v, hgeti⟩
  have hatj : isAt k m.entries[j] = true := isAt_eq_true.mpr ⟨v', hgetj⟩
  rcases Nat.lt_trichotomy i j with hlt | heq | hlt
  · rw [hapart i j hi hj hlt k hati] at hatj
    cases hatj
  · exact heq
  · rw [hapart j i hj hi hlt k hatj] at hati
    cases hati

theorem Holds.unique (h : m.Holds k v) (h' : m.Holds k v') : v = v' := by
  obtain ⟨i, hi⟩ := List.mem_iff_getElem?.mp h
  obtain ⟨j, hj⟩ := List.mem_iff_getElem?.mp h'
  obtain rfl := index_unique hi hj
  rw [hi] at hj
  cases hj
  rfl

section Set

def put (k : κ) (v : ν) (e : Option (κ × ν)) : Option (κ × ν) := if isAt k e then some (k, v) else e

theorem isAt_put : isAt k' (put k v e) = isAt k' e := by
  rw [put]
  split
  case isTrue h =>
    obtain ⟨w, rfl⟩ := isAt_eq_true.mp h
    rfl
  case isFalse => rfl

def set (m : MapData κ ν) (k : κ) (v : ν) : MapData κ ν :=
  if h : m.has k = true then
    { entries := m.entries.map (put k v)
      apart := by
        refine List.pairwise_map.mpr (m.apart.imp fun hapart k' hat ↦ ?_)
        rw [isAt_put] at hat ⊢
        exact hapart k' hat }
  else
    { entries := m.entries ++ [some (k, v)]
      apart := by
        refine List.pairwise_append.mpr ⟨m.apart, List.pairwise_singleton _ _, ?_⟩
        intro e he e' he' k' hat
        obtain rfl := List.mem_singleton.mp he'
        obtain ⟨w, rfl⟩ := isAt_eq_true.mp hat
        refine decide_eq_false fun hk ↦ h (has_iff.mpr ⟨w, ?_⟩)
        exact hk ▸ he }

theorem holds_set : (m.set k v).Holds k' v' ↔ k' = k ∧ v' = v ∨ k' ≠ k ∧ m.Holds k' v' := by
  rw [set]
  split
  case isTrue h =>
    obtain ⟨w, hw⟩ := has_iff.mp h
    simp only [Holds, List.mem_map]
    constructor
    · rintro ⟨e, hmem, he⟩
      rw [put] at he
      split at he
      case isTrue =>
        cases he
        exact .inl ⟨rfl, rfl⟩
      case isFalse hnot =>
        subst he
        exact .inr ⟨fun hk ↦ hnot (isAt_eq_true.mpr ⟨v', by rw [hk]⟩), hmem⟩
    · rintro (⟨rfl, rfl⟩ | ⟨hne, hmem⟩)
      · exact ⟨_, hw, if_pos (isAt_eq_true.mpr ⟨w, rfl⟩)⟩
      · exact ⟨_, hmem, if_neg (by simpa [isAt] using hne)⟩
  case isFalse h =>
    simp only [Holds, List.mem_append, List.mem_singleton, Option.some.injEq, Prod.mk.injEq]
    constructor
    · rintro (hmem | heq)
      · exact .inr ⟨fun hk ↦ h (has_iff.mpr ⟨v', hk ▸ hmem⟩), hmem⟩
      · exact .inl heq
    · rintro (heq | ⟨-, hmem⟩)
      · exact .inr heq
      · exact .inl hmem

end Set

section Filter

def keep (p : κ → ν → Bool) (e : Option (κ × ν)) : Option (κ × ν) := e.filter fun (k, v) ↦ p k v

theorem isAt_of_keep (h : isAt k (keep p e) = true) : isAt k e = true := by
  obtain ⟨v, hv⟩ := isAt_eq_true.mp h
  exact isAt_eq_true.mpr ⟨v, (Option.filter_eq_some_iff.mp hv).1⟩

def filter (m : MapData κ ν) (p : κ → ν → Bool) : MapData κ ν where
  entries := m.entries.map (keep p)
  apart := by
    refine List.pairwise_map.mpr (m.apart.imp fun hapart k hat ↦ ?_)
    apply Bool.eq_false_iff.mpr
    intro hat'
    have hno := hapart k (isAt_of_keep hat)
    rw [isAt_of_keep hat'] at hno
    cases hno

theorem holds_filter : (m.filter p).Holds k v ↔ m.Holds k v ∧ p k v = true := by
  simp only [Holds, filter, List.mem_map, keep, Option.filter_eq_some_iff]
  exact ⟨fun ⟨_, hmem, rfl, hp⟩ ↦ ⟨hmem, hp⟩, fun ⟨hmem, hp⟩ ↦ ⟨_, hmem, rfl, hp⟩⟩

def delete (m : MapData κ ν) (k : κ) : MapData κ ν := m.filter fun k' _ ↦ decide (k' ≠ k)

theorem entries_delete {i : ℕ} (h : m.entries[i]? = some (some (k, v))) :
    (m.delete k).entries = m.entries.set i none := by
  apply List.ext_getElem?
  intro j
  rw [delete, filter, List.getElem?_map, List.getElem?_set]
  split
  case isTrue hij =>
    subst hij
    obtain ⟨hi, -⟩ := List.getElem?_eq_some_iff.mp h
    rw [h, if_pos hi]
    simp [keep]
  case isFalse hij =>
    cases hj : m.entries[j]? with
    | none => rfl
    | some e =>
      cases e with
      | none => rfl
      | some entry =>
        obtain ⟨k', w⟩ := entry
        have hne : k' ≠ k := by
          rintro rfl
          exact hij (index_unique h hj)
        simp [keep, hne]

/-- `for (const [key, value] of map)` over `n` places from the one at `i` on, which are all
that are left when the body adds none. -/
def forOf (body : MapData κ ν → κ → ν → MapData κ ν) : ℕ → ℕ → MapData κ ν → MapData κ ν
  | 0, _, m => m
  | n + 1, i, m =>
    match m.entries[i]? with
    | some (some (k, v)) => forOf body n (i + 1) (body m k v)
    | some none => forOf body n (i + 1) m
    | none => m

/-- A loop that deletes entries as it comes to them leaves a filtered map. -/
theorem entries_forOf_delete (n i : ℕ) (hlength : m.entries.length = i + n) :
    (forOf (fun m k v ↦ if p k v then m else m.delete k) n i m).entries =
      m.entries.take i ++ (m.entries.drop i).map (keep p) := by
  induction n generalizing i m with
  | zero =>
    rw [forOf, List.take_of_length_le (by omega), List.drop_of_length_le (by omega)]
    simp
  | succ n ih =>
    have hi : i < m.entries.length := by omega
    have hget : m.entries[i]? = some m.entries[i] := List.getElem?_eq_getElem hi
    have hsplit : m.entries.take i ++ (m.entries.drop i).map (keep p) =
        m.entries.take i ++ keep p m.entries[i] :: (m.entries.drop (i + 1)).map (keep p) := by
      rw [List.drop_eq_getElem_cons hi, List.map_cons]
    have hnext (m' : MapData κ ν) (hm' : m'.entries = m.entries.set i (keep p m.entries[i])) :
        (forOf (fun m k v ↦ if p k v then m else m.delete k) n (i + 1) m').entries =
          m.entries.take i ++ (m.entries.drop i).map (keep p) := by
      rw [ih (i + 1) (by rw [hm', List.length_set]; omega), hsplit, hm',
        List.drop_set_of_lt (by omega), List.take_succ_eq_append_getElem (by simpa using hi),
        List.take_set_of_le (Nat.le_refl i), List.getElem_set_self, List.append_assoc,
        List.singleton_append]
    have hsame (h : keep p m.entries[i] = m.entries[i]) :
        m.entries = m.entries.set i (keep p m.entries[i]) := by rw [h, List.set_getElem_self]
    rw [forOf, hget]
    cases he : m.entries[i] with
    | none => exact hnext m (hsame (by rw [he]; rfl))
    | some entry =>
      obtain ⟨k, v⟩ := entry
      cases hp : p k v with
      | true =>
        simp only [hp, if_true]
        exact hnext m (hsame (by rw [he]; simp [keep, hp]))
      | false =>
        simp only [hp, Bool.false_eq_true, if_false]
        refine hnext (m.delete k) ?_
        have hgap : keep p (some (k, v)) = none := by simp [keep, hp]
        rw [entries_delete (hget.trans (congrArg some he)), he, hgap]

end Filter

theorem holds_forOf_delete :
    (forOf (fun m k v ↦ if p k v then m else m.delete k) m.entries.length 0 m).Holds k v ↔
      m.Holds k v ∧ p k v = true := by
  rw [← holds_filter, Holds, entries_forOf_delete _ 0 (by omega)]
  rfl

end MapData

end ElektronPool.Lib
