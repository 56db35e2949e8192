import ElektronPool.Model.JsonReader

namespace ElektronPool.Model.Json

open Lib Lib.Bytes Lib.JavaScript

section Strings

variable {c d : Char} {cs rest : List Char} {u : ℕ}

theorem readUnits_simple (h : simpleEscape d = some u) :
    readUnits ('\\' :: d :: cs) = (readUnits cs).map fun p ↦ (u :: p.1, p.2) := by
  have hd : d ≠ 'u' := by
    rintro rfl
    have hnone : simpleEscape 'u' = none := rfl
    rw [hnone] at h
    cases h
  rw [readUnits, h, Option.bind_some]
  rintro _ _ _ _ _ rfl
  exact absurd rfl hd

theorem readUnits_hex {a b : Char} (h : hexUnit a b c d = some u) :
    readUnits ('\\' :: 'u' :: a :: b :: c :: d :: cs) =
      (readUnits cs).map fun p ↦ (u :: p.1, p.2) := by
  rw [readUnits, h, Option.bind_some]

theorem readUnits_plain (hquote : c ≠ '"') (hslash : c ≠ '\\') (hprintable : 32 ≤ c.toNat) :
    readUnits (c :: cs) = (readUnits cs).map fun p ↦ (c.toNat :: p.1, p.2) := by
  rw [readUnits, if_neg (by omega)]
  · exact hquote
  · rintro _ _ _ _ _ rfl
    exact absurd rfl hslash
  · rintro _ _ rfl
    exact absurd rfl hslash

theorem toList_controlEscape : ∀ n < 32,
    ("\\u00" ++ (if n < 16 then "0" else "") ++ toString16 (n : ℕ)).toList =
      ['\\', 'u', '0', '0', Nat.digitChar (n / 16), Nat.digitChar (n % 16)] := by
  decide

theorem readUnits_controlEscape {n : ℕ} (h : n < 32) :
    readUnits (("\\u00" ++ (if n < 16 then "0" else "") ++ toString16 (n : ℕ)).toList ++ cs) =
      (readUnits cs).map fun p ↦ (n :: p.1, p.2) := by
  rw [toList_controlEscape _ h]
  apply readUnits_hex
  have hhigh : n / 16 < 16 := by omega
  have hlow : n % 16 < 16 := by omega
  have hzero : hexDigitValue '0' = some 0 := rfl
  simp only [hexUnit, hzero, hexDigitValue_digitChar hhigh, hexDigitValue_digitChar hlow]
  congr 1
  omega

/-- Every escape is read back as its character. -/
theorem readUnits_escape (c : Char) (cs : List Char) :
    readUnits ((escape c).toList ++ cs) = (readUnits cs).map fun p ↦ (c.toNat :: p.1, p.2) := by
  rw [escape]
  split_ifs with hquote hslash hnewline hreturn htab hback hfeed hcontrol hsmall
  · subst hquote
    exact readUnits_simple (d := '"') rfl
  · subst hslash
    exact readUnits_simple (d := '\\') rfl
  · subst hnewline
    exact readUnits_simple (d := 'n') rfl
  · subst hreturn
    exact readUnits_simple (d := 'r') rfl
  · subst htab
    exact readUnits_simple (d := 't') rfl
  · rw [hback]
    exact readUnits_simple (d := 'b') rfl
  · rw [hfeed]
    exact readUnits_simple (d := 'f') rfl
  · simpa only [if_pos hsmall] using readUnits_controlEscape hcontrol
  · simpa only [if_neg hsmall] using readUnits_controlEscape hcontrol
  · rw [Char.toString, String.toList_singleton]
    exact readUnits_plain hquote hslash (by omega)

theorem toList_quote (s : String) :
    (quote s).toList = '"' :: (s.toList.flatMap fun c ↦ (escape c).toList) ++ ['"'] := by
  simp [quote, List.flatMap, Function.comp_def]

theorem readUnits_escapes (s rest : List Char) :
    readUnits ((s.flatMap fun c ↦ (escape c).toList) ++ '"' :: rest) =
      some (s.map Char.toNat, rest) := by
  induction s with
  | nil => rfl
  | cons c s ih =>
    rw [List.flatMap_cons, List.append_assoc, readUnits_escape, ih]
    rfl

theorem characters_map_toNat (cs : List Char) : characters none (cs.map Char.toNat) = some cs := by
  induction cs with
  | nil => rfl
  | cons c cs ih =>
    have hvalid : c.toNat.isValidChar := c.valid
    rw [List.map_cons, characters, if_pos hvalid, ih, Option.map_some, Char.ofNat_toNat]

theorem readString_quote (s : String) (rest : List Char) :
    readString ((s.toList.flatMap fun c ↦ (escape c).toList) ++ '"' :: rest) = some (s, rest) := by
  simp only [readString, readUnits_escapes, Option.bind_some, characters_map_toNat,
    Option.map_some, String.ofList_toList]

end Strings

section Numbers

variable {cs ds rest more : List Char}

def Ends (more : List Char) : Prop :=
  ∀ c, more.head? = some c → c.isDigit = false ∧ c ≠ '.' ∧ c ≠ 'e' ∧ c ≠ 'E'

theorem Ends.takeWhile_isDigit (h : Ends more) : more.takeWhile Char.isDigit = [] := by
  cases more with
  | nil => rfl
  | cons c more => exact List.takeWhile_cons_of_neg (by simp [(h c rfl).1])

theorem Ends.dropWhile_isDigit (h : Ends more) : more.dropWhile Char.isDigit = more := by
  cases more with
  | nil => rfl
  | cons c more => exact List.dropWhile_cons_of_neg (by simp [(h c rfl).1])

theorem readDigits_append (h : readDigits cs = some (ds, rest)) (hends : Ends more) :
    readDigits (cs ++ more) = some (ds, rest ++ more) := by
  have htake : (cs ++ more).takeWhile Char.isDigit = cs.takeWhile Char.isDigit := by
    rw [List.takeWhile_append, hends.takeWhile_isDigit]
    split
    case isTrue heq =>
      rw [List.append_nil]
      exact ((List.takeWhile_prefix _).eq_of_length heq).symm
    case isFalse => rfl
  have hdrop : (cs ++ more).dropWhile Char.isDigit = cs.dropWhile Char.isDigit ++ more := by
    rw [List.dropWhile_append, hends.dropWhile_isDigit]
    split
    case isTrue hempty => rw [List.isEmpty_iff.mp hempty, List.nil_append]
    case isFalse => rfl
  simp only [readDigits, Option.ite_none_left_eq_some, Option.some.injEq, Prod.mk.injEq] at h ⊢
  obtain ⟨hne, rfl, rfl⟩ := h
  exact ⟨htake ▸ hne, htake, hdrop⟩

theorem readInteger_append (h : readInteger cs = some (ds, rest)) (hends : Ends more) :
    readInteger (cs ++ more) = some (ds, rest ++ more) := by
  cases cs with
  | nil => cases h
  | cons c cs =>
    by_cases hzero : c = '0'
    · subst hzero
      cases h
      rfl
    · have hother (cs : List Char) : readInteger (c :: cs) = readDigits (c :: cs) := by
        rw [readInteger]
        rintro _ ⟨⟩
        exact hzero rfl
      rw [List.cons_append, hother] at *
      exact readDigits_append h hends

theorem readFraction_of_ne {c : Char} (h : c ≠ '.') : readFraction (c :: cs) = some ([], c :: cs) := by
  rw [readFraction]
  rintro _ ⟨⟩
  exact h rfl

theorem readFraction_append (h : readFraction cs = some (ds, rest)) (hends : Ends more) :
    readFraction (cs ++ more) = some (ds, rest ++ more) := by
  cases cs with
  | nil =>
    cases h
    cases more with
    | nil => rfl
    | cons c more => exact readFraction_of_ne (hends c rfl).2.1
  | cons c cs =>
    by_cases hpoint : c = '.'
    · subst hpoint
      obtain ⟨⟨ds, rest⟩, hdigits, heq⟩ := Option.map_eq_some_iff.mp h
      cases heq
      rw [List.cons_append, readFraction, readDigits_append hdigits hends, Option.map_some]
    · rw [readFraction_of_ne hpoint] at h
      cases h
      exact readFraction_of_ne hpoint

theorem readSign_append {c : Char} : readSign (c :: cs ++ more) =
    ((readSign (c :: cs)).1, (readSign (c :: cs)).2 ++ more) := by
  simp only [List.cons_append, readSign]
  split
  all_goals simp_all

theorem readExponent_append (h : readExponent cs = some (ds, rest)) (hends : Ends more) :
    readExponent (cs ++ more) = some (ds, rest ++ more) := by
  cases cs with
  | nil =>
    cases h
    cases more with
    | nil => rfl
    | cons c more =>
      have hc : ¬ (c = 'e' ∨ c = 'E') := not_or.mpr (hends c rfl).2.2
      rw [List.nil_append, readExponent, if_neg hc]
  | cons c cs =>
    rw [List.cons_append, readExponent]
    rw [readExponent] at h
    split
    case isTrue hc =>
      rw [if_pos hc] at h
      obtain ⟨⟨ds, rest⟩, hdigits, heq⟩ := Option.map_eq_some_iff.mp h
      cases heq
      cases cs with
      | nil => cases hdigits
      | cons d cs =>
        rw [readSign_append]
        simp only [readDigits_append hdigits hends, Option.map_some]
    case isFalse hc =>
      rw [if_neg hc] at h
      cases h
      rfl

theorem readMinus_append {c : Char} : readMinus (c :: cs ++ more) =
    ((readMinus (c :: cs)).1, (readMinus (c :: cs)).2 ++ more) := by
  simp only [List.cons_append, readMinus]
  split
  all_goals simp_all

/-- A number is read as it is when nothing that could be part of it follows. -/
theorem readNumber_append (h : readNumber cs = some (ds, rest)) (hends : Ends more) :
    readNumber (cs ++ more) = some (ds, rest ++ more) := by
  cases cs with
  | nil => cases h
  | cons c cs =>
    obtain ⟨⟨integer, cs₁⟩, hinteger, h⟩ := Option.bind_eq_some_iff.mp h
    obtain ⟨⟨fraction, cs₂⟩, hfraction, h⟩ := Option.bind_eq_some_iff.mp h
    obtain ⟨⟨exponent, cs₃⟩, hexponent, h⟩ := Option.map_eq_some_iff.mp h
    cases h
    simp only [readNumber, readMinus_append, readInteger_append hinteger hends, Option.bind_some,
      readFraction_append hfraction hends, readExponent_append hexponent hends, Option.map_some]

end Numbers

section Values

variable (print : String → Option String)

def IsOrdered (fields : List (String × Json)) : Prop := fields.foldl define [] = fields

mutual

/-- Numbers are as they are printed, and properties in their order. -/
def Sound : Json → Prop
  | .number text => IsNumber text ∧ print text = some text
  | .array items => SoundItems items
  | .object fields => IsOrdered fields ∧ SoundFields fields
  | _ => True

def SoundItems : List Json → Prop
  | [] => True
  | item :: items => Sound item ∧ SoundItems items

def SoundFields : List (String × Json) → Prop
  | [] => True
  | (_, value) :: fields => Sound value ∧ SoundFields fields

end

def text (v : Json) : List Char := v.stringify.toList

def itemsText (items : List Json) : List Char := (",".intercalate (stringifyItems items)).toList

def fieldsText (fields : List (String × Json)) : List Char :=
  (",".intercalate (stringifyFields fields)).toList

theorem text_array (items : List Json) : text (.array items) = '[' :: itemsText items ++ [']'] := by
  simp [text, stringify, itemsText]

theorem text_object (fields : List (String × Json)) :
    text (.object fields) = '\x7b' :: fieldsText fields ++ ['\x7d'] := by
  simp [text, stringify, fieldsText]

theorem text_string (s : String) :
    text (.string s) = '"' :: (s.toList.flatMap fun c ↦ (escape c).toList) ++ ['"'] := by
  rw [text, stringify, toList_quote]

theorem itemsText_nil : itemsText [] = [] := by
  simp [itemsText, stringifyItems]

theorem itemsText_singleton (item : Json) : itemsText [item] = text item := by
  simp [itemsText, stringifyItems, text]

theorem itemsText_cons_cons (item item' : Json) (items : List Json) :
    itemsText (item :: item' :: items) = text item ++ ',' :: itemsText (item' :: items) := by
  simp [itemsText, stringifyItems, text]

theorem fieldsText_nil : fieldsText [] = [] := by
  simp [fieldsText, stringifyFields]

def fieldText (key : String) (value : Json) : List Char :=
  (quote key).toList ++ ':' :: text value

theorem fieldsText_singleton (key : String) (value : Json) :
    fieldsText [(key, value)] = fieldText key value := by
  simp [fieldsText, stringifyFields, fieldText, text]

theorem fieldsText_cons_cons (key : String) (value : Json) (field : String × Json)
    (fields : List (String × Json)) :
    fieldsText ((key, value) :: field :: fields) =
      fieldText key value ++ ',' :: fieldsText (field :: fields) := by
  obtain ⟨key', value'⟩ := field
  simp [fieldsText, stringifyFields, fieldText, text]

variable {print} {cs ds rest more : List Char} {c : Char} {n : ℕ}

theorem skipSpace_cons (h : isSpace c = false) : skipSpace (c :: cs) = c :: cs :=
  List.dropWhile_cons_of_neg (by simp [h])

def StartsNumber (c : Char) : Prop := c = '-' ∨ c.isDigit = true

theorem startsNumber_of_readNumber (h : readNumber cs = some (ds, rest)) :
    ∃ c cs', cs = c :: cs' ∧ StartsNumber c := by
  cases cs with
  | nil => cases h
  | cons c cs =>
    refine ⟨c, cs, rfl, ?_⟩
    by_cases hminus : c = '-'
    · exact .inl hminus
    · have hrest : readMinus (c :: cs) = ([], c :: cs) := by
        rw [readMinus]
        rintro _ ⟨⟩
        exact hminus rfl
      obtain ⟨⟨integer, cs₁⟩, hinteger, -⟩ := Option.bind_eq_some_iff.mp h
      rw [hrest] at hinteger
      by_cases hzero : c = '0'
      · subst hzero
        exact .inr rfl
      · rw [readInteger, readDigits, Option.ite_none_left_eq_some] at hinteger
        · right
          by_contra hdigit
          exact hinteger.1 (List.takeWhile_cons_of_neg hdigit)
        · rintro _ ⟨⟩
          exact hzero rfl

theorem StartsNumber.toNat (h : StartsNumber c) : c.toNat = 45 ∨ 48 ≤ c.toNat ∧ c.toNat ≤ 57 := by
  rcases h with rfl | h
  · exact .inl rfl
  · right
    simpa [Char.isDigit, UInt32.le_iff_toNat_le] using h

theorem StartsNumber.isSpace (h : StartsNumber c) : isSpace c = false := by
  have hc := h.toNat
  simp only [Json.isSpace, List.mem_cons, List.not_mem_nil, or_false, decide_eq_false_iff_not]
  omega

theorem readValue_number (h : StartsNumber c) :
    readValue print (n + 1) (c :: cs) = (readNumber (c :: cs)).bind fun p ↦
      (print (String.ofList p.1)).map fun text ↦ (.number text, p.2) := by
  rw [readValue, skipSpace_cons h.isSpace]
  split
  case h_7 => rfl
  all_goals
    rename_i heq
    cases heq
    exact absurd h.toNat (by decide)

theorem exists_cons_text (v : Json) (h : v.Sound print) :
    ∃ c cs, text v = c :: cs ∧ isSpace c = false ∧ c ≠ ']' := by
  cases v with
  | null => exact ⟨_, _, rfl, rfl, by decide⟩
  | bool b => cases b <;> exact ⟨_, _, rfl, rfl, by decide⟩
  | number number =>
    obtain ⟨c, cs, htext, hc⟩ := startsNumber_of_readNumber h.1
    refine ⟨c, cs, htext, hc.isSpace, ?_⟩
    rintro rfl
    exact absurd hc.toNat (by decide)
  | string s => exact ⟨_, _, text_string s, rfl, by decide⟩
  | array items => exact ⟨_, _, text_array items, rfl, by decide⟩
  | object fields => exact ⟨_, _, text_object fields, rfl, by decide⟩

theorem exists_cons_itemsText {item : Json} (items : List Json) (h : item.Sound print) :
    ∃ c cs, itemsText (item :: items) = c :: cs ∧ isSpace c = false ∧ c ≠ ']' := by
  obtain ⟨c, cs, htext, hc⟩ := exists_cons_text item h
  cases items with
  | nil => exact ⟨c, cs, by rw [itemsText_singleton, htext], hc⟩
  | cons item' items => exact ⟨c, _, by rw [itemsText_cons_cons, htext, List.cons_append], hc⟩

theorem exists_cons_fieldsText (field : String × Json) (fields : List (String × Json)) :
    ∃ cs, fieldsText (field :: fields) = '"' :: cs := by
  obtain ⟨key, value⟩ := field
  cases fields with
  | nil => exact ⟨_, by rw [fieldsText_singleton, fieldText, toList_quote]; rfl⟩
  | cons field' fields =>
    exact ⟨_, by rw [fieldsText_cons_cons, fieldText, toList_quote]; rfl⟩

theorem ends_of_mem (h : c ∈ [',', ']', '\x7d']) : Ends (c :: cs) := by
  rintro _ ⟨⟩
  simp only [List.mem_cons, List.not_mem_nil, or_false] at h
  rcases h with rfl | rfl | rfl <;> decide

theorem readValue_string (s : String) :
    readValue print (n + 1) (text (.string s) ++ more) = some (.string s, more) := by
  rw [text_string, List.append_assoc, List.cons_append, List.singleton_append, readValue,
    skipSpace_cons (by rfl)]
  simp only [readString_quote, Option.map_some]

theorem readValue_array {item : Json} {items : List Json} (hitem : item.Sound print)
    (h : readItems print n (itemsText (item :: items) ++ ']' :: more) = some (item :: items, more)) :
    readValue print (n + 1) (text (.array (item :: items)) ++ more) =
      some (.array (item :: items), more) := by
  obtain ⟨c, cs, htext, hspace, hbracket⟩ := exists_cons_itemsText items hitem
  rw [text_array, List.append_assoc, List.cons_append, List.singleton_append, readValue,
    skipSpace_cons (by rfl)]
  rw [htext, List.cons_append] at h ⊢
  simp only [skipSpace_cons hspace]
  split
  case h_1 heq =>
    cases heq
    exact absurd rfl hbracket
  case h_2 => rw [h, Option.map_some]

theorem readValue_object {field : String × Json} {fields : List (String × Json)}
    (hordered : IsOrdered (field :: fields))
    (h : readFields print n (fieldsText (field :: fields) ++ '\x7d' :: more) =
      some (field :: fields, more)) :
    readValue print (n + 1) (text (.object (field :: fields)) ++ more) =
      some (.object (field :: fields), more) := by
  obtain ⟨cs, htext⟩ := exists_cons_fieldsText field fields
  rw [text_object, List.append_assoc, List.cons_append, List.singleton_append, readValue,
    skipSpace_cons (by rfl)]
  rw [htext, List.cons_append] at h ⊢
  simp only [skipSpace_cons (c := '"') (by rfl)]
  split
  case h_1 heq => cases heq
  case h_2 => rw [h, Option.map_some, ofFields, hordered]

theorem readFields_comma {key : String} {value : Json} {cs : List Char}
    (h : readValue print n (text value ++ ',' :: cs) = some (value, ',' :: cs)) :
    readFields print (n + 1) (fieldText key value ++ ',' :: cs) =
      (readFields print n cs).map fun p ↦ ((key, value) :: p.1, p.2) := by
  rw [fieldText, toList_quote, List.append_assoc, List.append_assoc, List.cons_append,
    List.singleton_append, readFields, skipSpace_cons (by rfl)]
  simp only [readString_quote, Option.bind_some, List.cons_append,
    skipSpace_cons (c := ':') (by rfl), h, skipSpace_cons (c := ',') (by rfl)]

theorem readFields_brace {key : String} {value : Json} {rest : List Char}
    (h : readValue print n (text value ++ '\x7d' :: rest) = some (value, '\x7d' :: rest)) :
    readFields print (n + 1) (fieldText key value ++ '\x7d' :: rest) =
      some ([(key, value)], rest) := by
  rw [fieldText, toList_quote, List.append_assoc, List.append_assoc, List.cons_append,
    List.singleton_append, readFields, skipSpace_cons (by rfl)]
  simp only [readString_quote, Option.bind_some, List.cons_append,
    skipSpace_cons (c := ':') (by rfl), h, skipSpace_cons (c := '\x7d') (by rfl)]

mutual

/-- What a value is printed as is read back as it. -/
theorem readValue_text : ∀ (v : Json) (n : ℕ) (more : List Char), v.Sound print → Ends more →
    2 * (text v).length + 1 ≤ n → readValue print n (text v ++ more) = some (v, more)
  | .null, n + 1, more, _, _, _ => rfl
  | .bool true, n + 1, more, _, _, _ => rfl
  | .bool false, n + 1, more, _, _, _ => rfl
  | .number digits, n + 1, more, hsound, hends, _ => by
    obtain ⟨c, cs, htext, hc⟩ := startsNumber_of_readNumber hsound.1
    have hread : readNumber (c :: cs ++ more) = some (c :: cs, more) := by
      rw [← htext]
      exact readNumber_append hsound.1 hends
    have hdigits : String.ofList (c :: cs) = digits := by rw [← htext, String.ofList_toList]
    rw [text, stringify, htext, List.cons_append, readValue_number hc, ← List.cons_append, hread,
      Option.bind_some, hdigits, hsound.2, Option.map_some]
  | .string s, n + 1, more, _, _, _ => readValue_string s
  | .array [], n + 1, more, _, _, _ => rfl
  | .array (item :: items), n + 1, more, hsound, _, hn => by
    rw [text_array] at hn
    exact readValue_array hsound.1 (readItems_text item items n more hsound (by simp at hn; omega))
  | .object [], n + 1, more, _, _, _ => rfl
  | .object (field :: fields), n + 1, more, hsound, _, hn => by
    rw [text_object] at hn
    exact readValue_object hsound.1
      (readFields_text field fields n more hsound.2 (by simp at hn; omega))

theorem readItems_text : ∀ (item : Json) (items : List Json) (n : ℕ) (more : List Char),
    SoundItems print (item :: items) → 2 * (itemsText (item :: items)).length + 2 ≤ n →
    readItems print n (itemsText (item :: items) ++ ']' :: more) = some (item :: items, more)
  | item, [], n + 1, more, hsound, hn => by
    rw [itemsText_singleton] at hn ⊢
    rw [readItems, readValue_text item n _ hsound.1 (ends_of_mem (by decide)) (by omega),
      Option.bind_some]
    rfl
  | item, item' :: items, n + 1, more, hsound, hn => by
    rw [itemsText_cons_cons] at hn ⊢
    simp only [List.length_append, List.length_cons] at hn
    have hitems := readItems_text item' items n more hsound.2 (by omega)
    rw [List.append_assoc, List.cons_append, readItems,
      readValue_text item n _ hsound.1 (ends_of_mem (by decide)) (by omega), Option.bind_some]
    simp only [skipSpace_cons (c := ',') (by rfl), hitems, Option.map_some]

theorem readFields_text : ∀ (field : String × Json) (fields : List (String × Json)) (n : ℕ)
    (more : List Char),
    SoundFields print (field :: fields) → 2 * (fieldsText (field :: fields)).length + 2 ≤ n →
    readFields print n (fieldsText (field :: fields) ++ '\x7d' :: more) =
      some (field :: fields, more)
  | (key, value), [], n + 1, more, hsound, hn => by
    rw [fieldsText_singleton] at hn ⊢
    have hvalue := readValue_text value n ('\x7d' :: more) hsound.1 (ends_of_mem (by decide))
      (by simp [fieldText] at hn; omega)
    exact readFields_brace hvalue
  | (key, value), field :: fields, n + 1, more, hsound, hn => by
    rw [fieldsText_cons_cons] at hn ⊢
    have hvalue := readValue_text value n (',' :: (fieldsText (field :: fields) ++ '\x7d' :: more))
      hsound.1 (ends_of_mem (by decide)) (by simp [fieldText] at hn; omega)
    have hfields := readFields_text field fields n more hsound.2
      (by simp [fieldText] at hn; omega)
    rw [List.append_assoc, List.cons_append, readFields_comma hvalue, hfields, Option.map_some]

end

theorem ends_nil : Ends [] := by
  rintro _ ⟨⟩

/-- `JSON.parse` gives back what `JSON.stringify` was given. -/
theorem parse_text (v : Json) (h : v.Sound print) : parse print (text v) = some v := by
  have hread := readValue_text v _ [] h ends_nil (le_refl _)
  rw [List.append_nil] at hread
  simp only [parse, readText, hread, Option.bind_some]
  rfl

end Values

section Printable

variable {print : String → Option String} {c : Char} {cs ds rest : List Char}

/-- A text without control characters, which no line or message ends inside of. -/
def Printable (cs : List Char) : Prop := ∀ c ∈ cs, 32 ≤ c.toNat

@[simp] theorem printable_nil : Printable [] := fun _ h ↦ absurd h List.not_mem_nil

@[simp] theorem printable_cons : Printable (c :: cs) ↔ 32 ≤ c.toNat ∧ Printable cs :=
  List.forall_mem_cons

@[simp] theorem printable_append : Printable (cs ++ ds) ↔ Printable cs ∧ Printable ds :=
  List.forall_mem_append

theorem Printable.not_mem (h : Printable cs) : '\n' ∉ cs := fun hmem ↦ absurd (h _ hmem) (by decide)

theorem printable_readDigits (h : readDigits cs = some (ds, rest)) : Printable ds := by
  simp only [readDigits, Option.ite_none_left_eq_some, Option.some.injEq, Prod.mk.injEq] at h
  obtain ⟨-, rfl, -⟩ := h
  intro c hc
  have hdigit : c.isDigit = true := List.mem_takeWhile_imp hc
  simp only [Char.isDigit, Bool.and_eq_true, decide_eq_true_eq, ge_iff_le,
    UInt32.le_iff_toNat_le] at hdigit
  exact le_trans (by decide) hdigit.1

theorem printable_readInteger (h : readInteger cs = some (ds, rest)) : Printable ds := by
  unfold readInteger at h
  split at h
  · cases h
    simp
  · exact printable_readDigits h

theorem printable_readFraction (h : readFraction cs = some (ds, rest)) : Printable ds := by
  unfold readFraction at h
  split at h
  · obtain ⟨⟨ds, rest⟩, hdigits, heq⟩ := Option.map_eq_some_iff.mp h
    cases heq
    exact printable_cons.mpr ⟨by decide, printable_readDigits hdigits⟩
  · cases h
    simp

theorem printable_readSign (cs : List Char) : Printable (readSign cs).1 := by
  unfold readSign
  split
  all_goals simp

theorem printable_readMinus (cs : List Char) : Printable (readMinus cs).1 := by
  unfold readMinus
  split
  all_goals simp

theorem printable_readExponent (h : readExponent cs = some (ds, rest)) : Printable ds := by
  unfold readExponent at h
  split at h
  · split at h
    case isTrue hc =>
      obtain ⟨⟨ds, rest⟩, hdigits, heq⟩ := Option.map_eq_some_iff.mp h
      cases heq
      have hmark : ∀ c : Char, c = 'e' ∨ c = 'E' → 32 ≤ c.toNat := by
        rintro _ (rfl | rfl) <;> decide
      exact printable_append.mpr
        ⟨printable_cons.mpr ⟨hmark _ hc, printable_readSign _⟩, printable_readDigits hdigits⟩
    case isFalse =>
      cases h
      simp
  · cases h
    simp

theorem printable_readNumber (h : readNumber cs = some (ds, rest)) : Printable ds := by
  obtain ⟨⟨integer, cs₁⟩, hinteger, h⟩ := Option.bind_eq_some_iff.mp h
  obtain ⟨⟨fraction, cs₂⟩, hfraction, h⟩ := Option.bind_eq_some_iff.mp h
  obtain ⟨⟨exponent, cs₃⟩, hexponent, h⟩ := Option.map_eq_some_iff.mp h
  cases h
  simp only [printable_append]
  exact ⟨⟨⟨printable_readMinus _, printable_readInteger hinteger⟩,
    printable_readFraction hfraction⟩, printable_readExponent hexponent⟩

theorem le_digitChar : ∀ n < 16, 32 ≤ (Nat.digitChar n).toNat := by
  decide

theorem printable_controlEscape {n : ℕ} (h : n < 32) :
    Printable ("\\u00" ++ (if n < 16 then "0" else "") ++ toString16 (n : ℕ)).toList := by
  rw [toList_controlEscape _ h]
  have hhigh := le_digitChar (n / 16) (by omega)
  have hlow := le_digitChar (n % 16) (by omega)
  simp [hhigh, hlow]

theorem printable_escape (c : Char) : Printable (escape c).toList := by
  rw [escape]
  split_ifs with hquote hslash hnewline hreturn htab hback hfeed hcontrol hsmall
  · simp
  · simp
  · simp
  · simp
  · simp
  · simp
  · simp
  · simpa only [if_pos hsmall] using printable_controlEscape hcontrol
  · simpa only [if_neg hsmall] using printable_controlEscape hcontrol
  · rw [Char.toString, String.toList_singleton, printable_cons]
    exact ⟨by omega, printable_nil⟩

theorem printable_quote (s : String) : Printable (quote s).toList := by
  rw [toList_quote, printable_append, printable_cons]
  refine ⟨⟨by decide, ?_⟩, by simp⟩
  intro c hc
  obtain ⟨d, -, hd⟩ := List.mem_flatMap.mp hc
  exact printable_escape d c hd

mutual

/-- A printed value is one line, whatever its strings hold. -/
theorem printable_text : ∀ v : Json, v.Sound print → Printable (text v)
  | .null, _ => by simp [text, stringify]
  | .bool true, _ => by simp [text, stringify]
  | .bool false, _ => by simp [text, stringify]
  | .number _, h => printable_readNumber h.1
  | .string s, _ => printable_quote s
  | .array items, h => by
    rw [text_array]
    simpa using printable_itemsText items h
  | .object fields, h => by
    rw [text_object]
    simpa using printable_fieldsText fields h.2

theorem printable_itemsText : ∀ items : List Json, SoundItems print items →
    Printable (itemsText items)
  | [], _ => by simp [itemsText_nil]
  | [item], h => by
    rw [itemsText_singleton]
    exact printable_text item h.1
  | item :: item' :: items, h => by
    rw [itemsText_cons_cons, printable_append, printable_cons]
    exact ⟨printable_text item h.1, by decide, printable_itemsText (item' :: items) h.2⟩

theorem printable_fieldsText : ∀ fields : List (String × Json), SoundFields print fields →
    Printable (fieldsText fields)
  | [], _ => by simp [fieldsText_nil]
  | [(key, value)], h => by
    rw [fieldsText_singleton, fieldText, printable_append, printable_cons]
    exact ⟨printable_quote key, by decide, printable_text value h.1⟩
  | (key, value) :: field :: fields, h => by
    rw [fieldsText_cons_cons, fieldText, printable_append, printable_append, printable_cons,
      printable_cons]
    exact ⟨⟨printable_quote key, by decide, printable_text value h.1⟩, by decide,
      printable_fieldsText (field :: fields) h.2⟩

end

end Printable

end ElektronPool.Model.Json
