import ElektronPool.Json.Text

namespace ElektronPool.Model.Json

open Lib Lib.Bytes

section Objects

variable {field : String × Json} {fields : List (String × Json)} {key key' key'' : String}

theorem precedes_total (h : precedes key key' = false) : precedes key' key = true := by
  unfold precedes at *
  split at h
  · simp_all
    omega
  · simp_all
  · cases h

theorem precedes_trans (h : precedes key key' = true) (h' : precedes key' key'' = true) :
    precedes key key'' = true := by
  unfold precedes at *
  cases hkey : arrayIndex key <;> cases hkey' : arrayIndex key' <;> cases hkey'' : arrayIndex key''
  all_goals simp_all
  omega

/-- Different keys, each of which precedes those after it. -/
def SortedKeys (keys : List String) : Prop :=
  keys.Pairwise fun key key' ↦ key ≠ key' ∧ precedes key key' = true

theorem define_of_sorted (h : SortedKeys ((fields ++ [field]).map Prod.fst)) :
    define fields field = fields ++ [field] := by
  rw [List.map_append, SortedKeys, List.pairwise_append] at h
  have hbefore : ∀ key ∈ fields.map Prod.fst, key ≠ field.1 ∧ precedes key field.1 = true :=
    fun key hkey ↦ h.2.2 key hkey field.1 (by simp)
  have hmem : field.1 ∉ fields.map Prod.fst := fun hmem ↦ (hbefore _ hmem).1 rfl
  have hall : ∀ field' ∈ fields, precedes field'.1 field.1 = true :=
    fun field' hfield' ↦ (hbefore _ (List.mem_map_of_mem hfield')).2
  rw [define, if_neg hmem, List.takeWhile_eq_self_iff.mpr hall, List.dropWhile_eq_nil_iff.mpr hall]

theorem foldl_define_of_sorted (fields more : List (String × Json))
    (h : SortedKeys ((fields ++ more).map Prod.fst)) :
    more.foldl define fields = fields ++ more := by
  induction more generalizing fields with
  | nil => simp
  | cons field more ih =>
    rw [List.append_cons] at h ⊢
    have hfirst : SortedKeys ((fields ++ [field]).map Prod.fst) := by
      rw [List.map_append] at h
      exact (List.pairwise_append.mp h).1
    rw [List.foldl_cons, define_of_sorted hfirst, ih _ h]

theorem isOrdered_of_sorted (h : SortedKeys (fields.map Prod.fst)) : IsOrdered fields := by
  rw [IsOrdered, foldl_define_of_sorted [] fields (by simpa using h), List.nil_append]

theorem precedes_of_mem_dropWhile {field' : String × Json} (h : SortedKeys (fields.map Prod.fst))
    (hmem : field' ∈ fields.dropWhile fun field'' ↦ precedes field''.1 key) :
    precedes key field'.1 = true := by
  induction fields with
  | nil => cases hmem
  | cons first fields ih =>
    obtain ⟨hfirst, hrest⟩ := List.pairwise_cons.mp h
    by_cases hbefore : precedes first.1 key = true
    · rw [List.dropWhile_cons, if_pos hbefore] at hmem
      exact ih hrest hmem
    · rw [List.dropWhile_cons, if_neg hbefore] at hmem
      have hkey := precedes_total (Bool.eq_false_of_not_eq_true hbefore)
      rcases List.mem_cons.mp hmem with rfl | hlater
      · exact hkey
      · exact precedes_trans hkey (hfirst _ (List.mem_map_of_mem hlater)).2

theorem sorted_define (h : SortedKeys (fields.map Prod.fst)) :
    SortedKeys ((define fields field).map Prod.fst) := by
  rw [define]
  split
  case isTrue hmem =>
    have hkeys : (fields.map fun field' ↦ if field'.1 = field.1 then field else field').map Prod.fst =
        fields.map Prod.fst := by
      rw [List.map_map]
      apply List.map_congr_left
      intro field' _
      rw [Function.comp_apply]
      split
      case isTrue heq => exact heq.symm
      case isFalse => rfl
    rwa [hkeys]
  case isFalse hmem =>
    have hne : ∀ field' ∈ fields, field'.1 ≠ field.1 := fun field' hfield' heq ↦
      hmem (heq ▸ List.mem_map_of_mem hfield')
    have hafter : ∀ field' ∈ fields.dropWhile fun field' ↦ precedes field'.1 field.1,
        field.1 ≠ field'.1 ∧ precedes field.1 field'.1 = true := fun field' hfield' ↦
      ⟨(hne field' (List.dropWhile_subset _ hfield')).symm, precedes_of_mem_dropWhile h hfield'⟩
    have hbefore : ∀ field' ∈ fields.takeWhile fun field' ↦ precedes field'.1 field.1,
        field'.1 ≠ field.1 ∧ precedes field'.1 field.1 = true := by
      intro field' hfield'
      have hprecedes := List.mem_takeWhile_imp hfield'
      exact ⟨hne field' (List.takeWhile_subset _ hfield'), hprecedes⟩
    rw [SortedKeys, List.pairwise_map] at h ⊢
    rw [← List.takeWhile_append_dropWhile (p := fun field' ↦ precedes field'.1 field.1) (l := fields),
      List.pairwise_append] at h
    rw [List.pairwise_append, List.pairwise_cons]
    refine ⟨h.1, ⟨hafter, h.2.1⟩, ?_⟩
    intro field' hfield' field'' hfield''
    rcases List.mem_cons.mp hfield'' with rfl | hlater
    · exact hbefore field' hfield'
    · exact h.2.2 field' hfield' field'' hlater

theorem sorted_foldl_define (more : List (String × Json)) (h : SortedKeys (fields.map Prod.fst)) :
    SortedKeys ((more.foldl define fields).map Prod.fst) := by
  induction more generalizing fields with
  | nil => exact h
  | cons field more ih => exact ih (sorted_define h)

theorem isOrdered_foldl_define (fields : List (String × Json)) :
    IsOrdered (fields.foldl define []) :=
  isOrdered_of_sorted (sorted_foldl_define fields List.Pairwise.nil)

theorem eq_or_mem_of_mem_define {field' : String × Json} (h : field' ∈ define fields field) :
    field' = field ∨ field' ∈ fields := by
  rw [define] at h
  split at h
  case isTrue =>
    obtain ⟨field'', hmem, heq⟩ := List.mem_map.mp h
    split at heq
    case isTrue => exact .inl heq.symm
    case isFalse => exact .inr (heq ▸ hmem)
  case isFalse =>
    rcases List.mem_append.mp h with htake | hrest
    · exact .inr (List.takeWhile_subset _ htake)
    · rcases List.mem_cons.mp hrest with rfl | hdrop
      · exact .inl rfl
      · exact .inr (List.dropWhile_subset _ hdrop)

theorem mem_of_mem_foldl_define {field' : String × Json} (more : List (String × Json))
    (h : field' ∈ more.foldl define fields) : field' ∈ fields ∨ field' ∈ more := by
  induction more generalizing fields with
  | nil => exact .inl h
  | cons field more ih =>
    rcases ih h with hdefined | hmore
    · rcases eq_or_mem_of_mem_define hdefined with rfl | hmem
      · exact .inr List.mem_cons_self
      · exact .inl hmem
    · exact .inr (List.mem_cons_of_mem _ hmore)

end Objects

section Results

/-- What is known of the way numbers are printed: as numbers that print as themselves. -/
def Prints (print : String → Option String) : Prop :=
  ∀ text text', print text = some text' → IsNumber text' ∧ print text' = some text'

variable {print : String → Option String}

theorem soundFields_iff {fields : List (String × Json)} :
    SoundFields print fields ↔ ∀ field ∈ fields, field.2.Sound print := by
  induction fields with
  | nil => simp [SoundFields]
  | cons field fields ih =>
    obtain ⟨key, value⟩ := field
    rw [SoundFields, ih, List.forall_mem_cons]

theorem sound_ofFields {fields : List (String × Json)} (h : SoundFields print fields) :
    (ofFields fields).Sound print := by
  refine ⟨isOrdered_foldl_define fields, soundFields_iff.mpr ?_⟩
  intro field hfield
  rcases mem_of_mem_foldl_define fields hfield with hnil | hmem
  · cases hnil
  · exact soundFields_iff.mp h field hmem

theorem sound_read (hprint : Prints print) (n : ℕ) :
    (∀ cs value rest, readValue print n cs = some (value, rest) → value.Sound print) ∧
    (∀ cs items rest, readItems print n cs = some (items, rest) → SoundItems print items) ∧
    ∀ cs fields rest, readFields print n cs = some (fields, rest) → SoundFields print fields := by
  induction n with
  | zero =>
    refine ⟨?_, ?_, ?_⟩
    all_goals
      intro cs _ rest h
      cases h
  | succ n ih =>
    obtain ⟨hvalue, hitems, hfields⟩ := ih
    refine ⟨?_, ?_, ?_⟩
    · intro cs value rest h
      rw [readValue] at h
      split at h
      · cases h; trivial
      · cases h; trivial
      · cases h; trivial
      · obtain ⟨⟨s, rest⟩, -, heq⟩ := Option.map_eq_some_iff.mp h
        cases heq
        trivial
      · split at h
        · cases h; trivial
        · obtain ⟨⟨items, rest⟩, hread, heq⟩ := Option.map_eq_some_iff.mp h
          cases heq
          exact hitems _ _ _ hread
      · split at h
        · cases h
          exact ⟨rfl, trivial⟩
        · obtain ⟨⟨fields, rest⟩, hread, heq⟩ := Option.map_eq_some_iff.mp h
          cases heq
          exact sound_ofFields (hfields _ _ _ hread)
      · obtain ⟨⟨ds, rest⟩, -, h⟩ := Option.bind_eq_some_iff.mp h
        obtain ⟨text, htext, heq⟩ := Option.map_eq_some_iff.mp h
        cases heq
        exact hprint _ _ htext
    · intro cs items rest h
      rw [readItems] at h
      obtain ⟨⟨item, cs'⟩, hread, h⟩ := Option.bind_eq_some_iff.mp h
      have hitem := hvalue _ _ _ hread
      dsimp only at h
      split at h
      · obtain ⟨⟨items, rest⟩, hread, heq⟩ := Option.map_eq_some_iff.mp h
        cases heq
        exact ⟨hitem, hitems _ _ _ hread⟩
      · cases h
        exact ⟨hitem, trivial⟩
      · cases h
    · intro cs fields rest h
      rw [readFields] at h
      split at h
      · obtain ⟨⟨key, cs'⟩, -, h⟩ := Option.bind_eq_some_iff.mp h
        dsimp only at h
        split at h
        · obtain ⟨⟨value, cs''⟩, hread, h⟩ := Option.bind_eq_some_iff.mp h
          have hsound := hvalue _ _ _ hread
          dsimp only at h
          split at h
          · obtain ⟨⟨fields, rest⟩, hread, heq⟩ := Option.map_eq_some_iff.mp h
            cases heq
            exact ⟨hsound, hfields _ _ _ hread⟩
          · cases h
            exact ⟨hsound, trivial⟩
          · cases h
        · cases h
      · cases h

theorem sound_of_parse (hprint : Prints print) {cs : List Char} {value : Json}
    (h : parse print cs = some value) : value.Sound print := by
  obtain ⟨⟨value', rest⟩, hread, h⟩ := Option.bind_eq_some_iff.mp h
  obtain ⟨-, heq⟩ := Option.ite_none_right_eq_some.mp h
  cases heq
  exact (sound_read hprint _).1 _ _ _ hread

end Results

end ElektronPool.Model.Json
