import ElektronPool.Model.PoolRegistry

namespace ElektronPool.RegistryParser

open Lib Lib.JavaScript Model

/-- What may stand between two quotes; a backslash takes the character after it along. -/
inductive Body : List Char → Prop
  | nil : Body []
  | plain {c : Char} {cs : List Char} (hquote : c ≠ '"') (hbackslash : c ≠ '\\') (h : Body cs) :
    Body (c :: cs)
  | escape {c : Char} {cs : List Char} (hline : isLineTerminator c = false) (h : Body cs) :
    Body ('\\' :: c :: cs)

/-- The quoted strings of a text from left to right; a quote that opens none is passed over. -/
inductive Quotes : List Char → List (List Char) → Prop
  | nil : Quotes [] []
  | skip {c : Char} {cs : List Char} {fields : List (List Char)} (hquote : c ≠ '"')
      (h : Quotes cs fields) : Quotes (c :: cs) fields
  | quoted {body rest : List Char} {fields : List (List Char)} (hbody : Body body)
      (h : Quotes rest fields) : Quotes ('"' :: (body ++ '"' :: rest)) (body :: fields)
  | stray {cs : List Char} {fields : List (List Char)}
      (hopen : ∀ body rest, Body body → cs ≠ body ++ '"' :: rest) (h : Quotes cs fields) :
    Quotes ('"' :: cs) fields

/-- A name or an address as a registry lists it. -/
structure Listable (s : String) : Prop where
  trimmed : trim s = s
  nonblank : s ≠ ""
  noQuote : '"' ∉ s.toList
  noBackslash : '\\' ∉ s.toList
  oneLine : '\n' ∉ s.toList

structure Filler (s : String) : Prop where
  noQuote : '"' ∉ s.toList
  oneLine : '\n' ∉ s.toList

/-- A line that lists an entry, whatever stands around its two quoted strings. -/
structure EntryLine where
  entry : RegistryMempoolEntry
  before : String
  between : String
  after : String
  name : Listable entry.name
  url : Listable entry.url
  fillsBefore : Filler before
  fillsBetween : Filler between
  fillsAfter : Filler after

def EntryLine.text (line : EntryLine) : String :=
  line.before ++ "\"" ++ line.entry.name ++ "\"" ++ line.between ++ "\"" ++ line.entry.url ++ "\"" ++
    line.after

structure OtherLine where
  text : String
  oneLine : '\n' ∉ text.toList
  noEntry : ∀ name url, Quotes text.toList [name, url] →
    trim (String.ofList name) = "" ∨ trim (String.ofList url) = ""

inductive RegistryLine
  | entry (line : EntryLine)
  | other (line : OtherLine)

namespace RegistryLine

def text : RegistryLine → String
  | .entry line => line.text
  | .other line => line.text

def entry? : RegistryLine → Option RegistryMempoolEntry
  | .entry line => some line.entry
  | .other _ => none

end RegistryLine

def render (lines : List RegistryLine) : String :=
  "\n".intercalate (lines.map RegistryLine.text)

section Matching

variable {c : Char} {cs body rest : List Char} {fields fields' : List (List Char)} {n : ℕ}

/-- What a quote opens, up to the quote that closes it, and the rest. -/
def closing : List Char → Option (List Char × List Char)
  | [] => none
  | '"' :: cs => some ([], cs)
  | ['\\'] => none
  | '\\' :: c :: cs =>
    if isLineTerminator c then none
    else (closing cs).map fun (body, rest) ↦ ('\\' :: c :: body, rest)
  | c :: cs => (closing cs).map fun (body, rest) ↦ (c :: body, rest)

theorem closing_eq_some :
    closing cs = some (body, rest) ↔ Body body ∧ cs = body ++ '"' :: rest := by
  constructor
  · intro h
    fun_induction closing cs generalizing body with
    | case1 => cases h
    | case2 cs =>
      cases h
      exact ⟨.nil, rfl⟩
    | case3 => cases h
    | case4 c cs hline => cases h
    | case5 c cs hline ih =>
      obtain ⟨⟨body', rest'⟩, hclosing, heq⟩ := Option.map_eq_some_iff.mp h
      cases heq
      obtain ⟨hbody, rfl⟩ := ih hclosing
      exact ⟨.escape (by simpa using hline) hbody, rfl⟩
    | case6 c cs hquote hlast hbackslash ih =>
      obtain ⟨⟨body', rest'⟩, hclosing, heq⟩ := Option.map_eq_some_iff.mp h
      cases heq
      obtain ⟨hbody, rfl⟩ := ih hclosing
      refine ⟨.plain (fun heq ↦ hquote heq) (fun heq ↦ ?_) hbody, rfl⟩
      cases hcs : body' ++ '"' :: rest with
      | nil => exact hlast heq hcs
      | cons c' cs' => exact hbackslash c' cs' heq hcs
  · rintro ⟨hbody, rfl⟩
    induction hbody with
    | nil => rfl
    | plain hquote hbackslash _ ih =>
      rw [List.cons_append, closing, ih]
      · rfl
      all_goals simp_all
    | escape hline _ ih =>
      rw [List.cons_append, List.cons_append, closing, if_neg (by simp [hline]), ih]
      rfl

theorem quotedCharacter_nil : quotedCharacter.results [] = [] := rfl

theorem quotedCharacter_plain (hquote : c ≠ '"') (hbackslash : c ≠ '\\') :
    quotedCharacter.results (c :: cs) = [⟨[], cs⟩] := by
  simp [quotedCharacter, Regex.results, isQuote, isBackslash, hquote, hbackslash]

theorem quotedCharacter_quote : quotedCharacter.results ('"' :: cs) = [] := rfl

theorem quotedCharacter_last : quotedCharacter.results ['\\'] = [] := rfl

theorem quotedCharacter_escape :
    quotedCharacter.results ('\\' :: c :: cs) = if isLineTerminator c then [] else [⟨[], cs⟩] := by
  cases hline : isLineTerminator c <;>
    simp [quotedCharacter, Regex.results, isQuote, isBackslash, hline, Regex.Match.after]

/-- Of all the ways to read on, one at most comes to a quote. -/
theorem flatMap_rounds {β : Type} (f : Regex.Match Char → List β)
    (hf : ∀ cs, cs.head? ≠ some '"' → f ⟨[], cs⟩ = []) (hn : cs.length ≤ n) :
    (Regex.rounds quotedCharacter.results n cs).flatMap f =
      (closing cs).elim [] fun (_, rest) ↦ f ⟨[], '"' :: rest⟩ := by
  have hstop (cs : List Char) (n : ℕ) (hno : quotedCharacter.results cs = []) :
      (Regex.rounds quotedCharacter.results n cs).flatMap f = f ⟨[], cs⟩ := by
    rw [Regex.rounds_of_nil n hno]
    simp
  have hgo (c : Char) (cs rest : List Char) (n : ℕ) (hquote : c ≠ '"')
      (hone : quotedCharacter.results (c :: cs) = [⟨[], rest⟩]) (hlt : rest.length ≤ cs.length) :
      (Regex.rounds quotedCharacter.results (n + 1) (c :: cs)).flatMap f =
        (Regex.rounds quotedCharacter.results n rest).flatMap f := by
    rw [Regex.rounds_of_one hone (Nat.lt_succ_of_le hlt), List.flatMap_append]
    simp [hf (c :: cs) (by simpa using hquote)]
  fun_induction closing cs generalizing n with
  | case1 =>
    rw [hstop _ _ quotedCharacter_nil]
    exact hf [] (by simp)
  | case2 cs =>
    rw [hstop _ _ quotedCharacter_quote]
    rfl
  | case3 =>
    rw [hstop _ _ quotedCharacter_last]
    exact hf _ (by simp)
  | case4 c cs hline =>
    rw [hstop _ _ (by rw [quotedCharacter_escape, if_pos hline])]
    exact hf _ (by simp)
  | case5 c cs hline ih =>
    simp only [List.length_cons] at hn
    obtain ⟨n, rfl⟩ := Nat.exists_eq_add_of_lt (Nat.lt_of_lt_of_le (Nat.succ_pos _) hn)
    rw [Nat.zero_add, hgo _ _ cs n (by decide) (by rw [quotedCharacter_escape, if_neg hline])
      (Nat.le_succ _), ih (by omega)]
    cases closing cs <;> rfl
  | case6 c cs hquote hlast hbackslash ih =>
    have hplain : c ≠ '\\' := fun heq ↦ by
      cases cs with
      | nil => exact hlast heq rfl
      | cons c' cs' => exact hbackslash c' cs' heq rfl
    simp only [List.length_cons] at hn
    obtain ⟨n, rfl⟩ := Nat.exists_eq_add_of_lt (Nat.lt_of_lt_of_le (Nat.succ_pos _) hn)
    rw [Nat.zero_add, hgo c cs cs n hquote (quotedCharacter_plain hquote hplain) le_rfl,
      ih (by omega)]
    cases closing cs <;> rfl

theorem results_quotedString (cs : List Char) :
    quotedString.results ('"' :: cs) =
      (closing cs).elim [] fun (body, rest) ↦ [⟨[body], rest⟩] := by
  have hresults : quotedString.results ('"' :: cs) =
      (Regex.rounds quotedCharacter.results cs.length cs).flatMap fun m ↦
        ((Regex.one isQuote).results m.rest).map fun m' ↦
          m'.after (m.captures ++ [cs.take (cs.length - m.rest.length)]) := by
    simp [quotedString, Regex.results, isQuote, List.flatMap_map]
  rw [hresults, flatMap_rounds _ (fun cs hcs ↦ ?_) le_rfl]
  · cases hclosing : closing cs with
    | none => rfl
    | some found =>
      obtain ⟨body, rest⟩ := found
      obtain ⟨-, rfl⟩ := closing_eq_some.mp hclosing
      have htake : (body ++ '"' :: rest).take
          ((body ++ '"' :: rest).length - ('"' :: rest).length) = body := by
        simp
      simp only [Option.elim_some, htake]
      rfl
  · cases cs with
    | nil => rfl
    | cons c cs =>
      have hne : c ≠ '"' := by simpa using hcs
      simp [Regex.results, isQuote, hne]

theorem results_of_ne (hquote : c ≠ '"') : quotedString.results (c :: cs) = [] := by
  simp [quotedString, Regex.results, isQuote, hquote]

/-- The matches of a text are its quoted strings. -/
theorem quotes_iff (hn : cs.length < n) :
    Quotes cs fields ↔ (quotedString.matchAll n cs).map (fun captures ↦ captures.headD []) = fields := by
  induction n generalizing cs fields with
  | zero => omega
  | succ n ih =>
    cases cs with
    | nil =>
      refine ⟨fun h ↦ ?_, fun h ↦ h ▸ .nil⟩
      cases h
      rfl
    | cons c cs =>
      simp only [List.length_cons] at hn
      by_cases hquote : c = '"'
      · subst hquote
        have hresults := results_quotedString cs
        cases hclosing : closing cs with
        | none =>
          rw [hclosing, Option.elim_none] at hresults
          rw [Regex.matchAll_cons_of_none (by rw [hresults]; rfl), ← ih (by omega)]
          have hopen : ∀ body rest, Body body → cs ≠ body ++ '"' :: rest := by
            intro body rest hbody hcs
            rw [closing_eq_some.mpr ⟨hbody, hcs⟩] at hclosing
            cases hclosing
          constructor
          · intro h
            cases h with
            | skip hquote _ => exact absurd rfl hquote
            | quoted hbody _ => exact absurd rfl (hopen _ _ hbody)
            | stray _ h => exact h
          · exact .stray hopen
        | some found =>
          obtain ⟨body, rest⟩ := found
          obtain ⟨hbody, rfl⟩ := closing_eq_some.mp hclosing
          rw [hclosing, Option.elim_some] at hresults
          have hshort : rest.length < n := by
            simp only [List.length_append, List.length_cons] at hn
            omega
          rw [Regex.matchAll_cons_of_some (by rw [hresults]; rfl)
            (by simp only [List.length_append, List.length_cons]; omega), List.map_cons]
          constructor
          · intro h
            generalize hcs : body ++ '"' :: rest = cs at h hclosing
            cases h with
            | skip hquote _ => exact absurd rfl hquote
            | quoted hbody' h =>
              rw [closing_eq_some.mpr ⟨hbody', rfl⟩] at hclosing
              cases hclosing
              exact congrArg _ ((ih hshort).mp h)
            | stray hopen _ => exact absurd hcs.symm (hopen _ _ hbody)
          · rintro rfl
            exact .quoted hbody ((ih hshort).mpr rfl)
      · rw [Regex.matchAll_cons_of_none (by rw [results_of_ne hquote]; rfl), ← ih (by omega)]
        constructor
        · intro h
          cases h with
          | skip _ h => exact h
          | quoted => exact absurd rfl hquote
          | stray => exact absurd rfl hquote
        · exact .skip hquote

theorem quotedFields_iff {s : String} :
    quotedFields s.toList = fields.map String.ofList ↔ Quotes s.toList fields := by
  rw [quotes_iff (Nat.lt_succ_self _), quotedFields]
  have hmap : (quotedString.matchAll (s.toList.length + 1) s.toList).map
      (fun captures ↦ String.ofList (captures.headD [])) =
        ((quotedString.matchAll (s.toList.length + 1) s.toList).map
          fun captures ↦ captures.headD []).map String.ofList := by
    rw [List.map_map]
    rfl
  rw [hmap]
  exact (List.map_injective_iff.mpr fun _ _ h ↦ String.ofList_injective h).eq_iff

theorem Quotes.unique (h : Quotes cs fields) (h' : Quotes cs fields') : fields = fields' :=
  ((quotes_iff (Nat.lt_succ_self _)).mp h).symm.trans ((quotes_iff (Nat.lt_succ_self _)).mp h')

theorem exists_quotes (cs : List Char) : ∃ fields, Quotes cs fields :=
  ⟨_, (quotes_iff (Nat.lt_succ_self _)).mpr rfl⟩

theorem Quotes.prepend {front : List Char} (hfront : '"' ∉ front) (h : Quotes cs fields) :
    Quotes (front ++ cs) fields := by
  induction front with
  | nil => exact h
  | cons c front ih =>
    rw [List.mem_cons, not_or] at hfront
    exact .skip (Ne.symm hfront.1) (ih hfront.2)

theorem Quotes.append {back : List Char} (hback : '"' ∉ back) (h : Quotes cs fields) :
    Quotes (cs ++ back) fields := by
  induction h with
  | nil =>
    have hnone := Quotes.nil.prepend hback
    rwa [List.append_nil] at hnone
  | skip hquote _ ih => exact .skip hquote ih
  | quoted hbody _ ih =>
    rw [List.cons_append, List.append_assoc, List.cons_append]
    exact .quoted hbody ih
  | @stray cs fields hopen _ ih =>
    refine .stray (fun body rest hbody heq ↦ ?_) ih
    obtain ⟨left, rfl, hrest⟩ | ⟨left, hcs, hrest⟩ := List.append_eq_append_iff.mp heq
    · exact hback (hrest ▸ List.mem_append_right _ List.mem_cons_self)
    · cases left with
      | nil =>
        rw [List.nil_append] at hrest
        exact hback (hrest ▸ List.mem_cons_self)
      | cons c left =>
        rw [List.cons_append, List.cons.injEq] at hrest
        obtain ⟨rfl, -⟩ := hrest
        exact hopen body left hbody hcs

theorem body_of_plain (hquote : '"' ∉ body) (hbackslash : '\\' ∉ body) : Body body := by
  induction body with
  | nil => exact .nil
  | cons c body ih =>
    rw [List.mem_cons, not_or] at hquote hbackslash
    exact .plain (Ne.symm hquote.1) (Ne.symm hbackslash.1) (ih hquote.2 hbackslash.2)

end Matching

section Lines

variable {line name url : String} {fields : List (List Char)}

theorem quotes_trim (h : Quotes line.toList fields) : Quotes (trim line).toList fields := by
  have hspace : ∀ c, isWhiteSpace c = true → c ≠ '"' := by
    rintro c hc rfl
    exact absurd hc (by decide)
  obtain ⟨trimmed, htrimmed⟩ := exists_quotes (trim line).toList
  have hfront : '"' ∉ line.toList.takeWhile isWhiteSpace := fun hmem ↦
    hspace _ (List.mem_takeWhile_imp hmem) rfl
  have hback : '"' ∉ (line.toList.dropWhile isWhiteSpace).rtakeWhile isWhiteSpace := fun hmem ↦
    hspace _ (List.mem_rtakeWhile_imp hmem) rfl
  have hwhole := (htrimmed.append hback).prepend hfront
  rw [trim, String.toList_ofList, List.rdropWhile_append_rtakeWhile,
    List.takeWhile_append_dropWhile] at hwhole
  exact hwhole.unique h ▸ htrimmed

theorem Listable.length_ne_zero (h : Listable name) : name.length ≠ 0 := by
  rw [ne_eq, String.length_eq_zero_iff]
  exact h.nonblank

theorem parseLine_of_entry (h : Quotes line.toList [name.toList, url.toList]) (hname : Listable name)
    (hurl : Listable url) : parseLine line = some ⟨name, url⟩ := by
  have hfields := quotedFields_iff.mpr (quotes_trim h)
  simp only [List.map_cons, List.map_nil, String.ofList_toList] at hfields
  have hline : (trim line).length ≠ 0 := by
    rw [ne_eq, String.length_eq_zero_iff]
    intro hempty
    rw [hempty] at hfields
    cases hfields
  simp only [parseLine, if_neg hline, hfields, hname.trimmed, hurl.trimmed]
  simp only [hname.length_ne_zero, hurl.length_ne_zero, decide_false, Bool.or_false,
    Bool.false_eq_true, if_false]

theorem parseLine_of_other (h : ∀ name url, Quotes line.toList [name, url] →
    trim (String.ofList name) = "" ∨ trim (String.ofList url) = "") : parseLine line = none := by
  obtain ⟨fields, hquotes⟩ := exists_quotes line.toList
  have hfields := quotedFields_iff.mpr (quotes_trim hquotes)
  simp only [parseLine]
  split
  · rfl
  · split
    case h_1 name url htwo =>
      rw [htwo] at hfields
      obtain ⟨name', rest, rfl, rfl, hrest⟩ := List.map_eq_cons_iff.mp hfields.symm
      obtain ⟨url', rest', rfl, rfl, hnil⟩ := List.map_eq_cons_iff.mp hrest
      obtain rfl := List.map_eq_nil_iff.mp hnil
      refine if_pos ?_
      rcases h name' url' hquotes with hblank | hblank <;> simp [hblank]
    case h_2 => rfl

theorem EntryLine.quotes (line : EntryLine) :
    Quotes line.text.toList [line.entry.name.toList, line.entry.url.toList] := by
  have hafter : Quotes line.after.toList [] := by
    have hnone := Quotes.nil.prepend line.fillsAfter.noQuote
    rwa [List.append_nil] at hnone
  have hurl := Quotes.quoted (body_of_plain line.url.noQuote line.url.noBackslash) hafter
  have hname := Quotes.quoted (body_of_plain line.name.noQuote line.name.noBackslash)
    (hurl.prepend line.fillsBetween.noQuote)
  have hline := hname.prepend line.fillsBefore.noQuote
  simpa [EntryLine.text] using hline

theorem parseLine_text (line : RegistryLine) : parseLine line.text = line.entry? := by
  cases line with
  | entry line => exact parseLine_of_entry line.quotes line.name line.url
  | other line => exact parseLine_of_other line.noEntry

theorem oneLine_text (line : RegistryLine) : '\n' ∉ line.text.toList := by
  cases line with
  | entry line =>
    have hbefore := line.fillsBefore.oneLine
    have hbetween := line.fillsBetween.oneLine
    have hafter := line.fillsAfter.oneLine
    have hname := line.name.oneLine
    have hurl := line.url.oneLine
    simp [RegistryLine.text, EntryLine.text, hbefore, hbetween, hafter, hname, hurl]
  | other line => exact line.oneLine

theorem splitOn_render (lines : List RegistryLine) (hlines : lines ≠ []) :
    ((render lines).toList.splitOn '\n').map String.ofList = lines.map RegistryLine.text := by
  rw [render, String.toList_intercalate, List.map_map]
  have hseparator : "\n".toList = ['\n'] := rfl
  rw [hseparator, List.splitOn_intercalate, List.map_map]
  · apply List.map_congr_left
    intro line _
    exact String.ofList_toList
  · intro cs hcs
    obtain ⟨line, -, rfl⟩ := List.mem_map.mp hcs
    exact oneLine_text line
  · simpa using hlines

/-- The parser returns the entries of a file in their order, whatever its other lines are. -/
theorem parseMempoolsRegistry_render (lines : List RegistryLine) :
    parseMempoolsRegistry (some (render lines)) = lines.filterMap RegistryLine.entry? := by
  rw [parseMempoolsRegistry, Option.getD_some]
  by_cases hlines : lines = []
  · subst hlines
    have hempty : parseLine (String.ofList []) = none := by
      apply parseLine_of_other
      intro name url h
      rw [String.toList_ofList] at h
      cases h
    simp [render, hempty]
  · rw [splitOn_render lines hlines, List.filterMap_map]
    apply List.filterMap_congr
    intro line _
    rw [Function.comp_apply, parseLine_text]

/-- A fetched list that names an explorer replaces the one before. -/
theorem mempools_refreshRegistry (registry : PoolRegistry) (lines : List RegistryLine)
    (h : lines.filterMap RegistryLine.entry? ≠ []) :
    (registry.refreshRegistry (.ok (some (render lines)))).mempools =
      lines.filterMap RegistryLine.entry? := by
  rw [PoolRegistry.refreshRegistry, parseMempoolsRegistry_render]
  simp only [List.length_pos_iff, if_pos h]

end Lines

end ElektronPool.RegistryParser
