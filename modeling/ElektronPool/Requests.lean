import ElektronPool.Wire

namespace ElektronPool.Requests

open Lib Lib.Utf8 Lib.JavaScript Model Model.Json Model.AuthorizationMessage Framing Wire

variable {lib : RequestLibrary}

section Password

variable {us vs ds : List Char}

theorem hintAt_of_not_mark (h : ∀ cs, us ≠ 'd' :: '=' :: cs) : hintAt us = none := by
  unfold hintAt
  split
  · exact absurd rfl (h _)
  · rfl

theorem hintAt_mark (cs : List Char) : hintAt ('d' :: '=' :: cs) =
    if cs.takeWhile Char.isDigit = [] then none
    else if (cs.dropWhile Char.isDigit).head?.all (· = ',') then some (cs.takeWhile Char.isDigit)
    else none := by
  rw [hintAt]
  split
  case isTrue => rfl
  case isFalse =>
    cases cs.dropWhile Char.isDigit with
    | nil => rfl
    | cons c cs' =>
      by_cases hcomma : c = ','
      · subst hcomma
        rfl
      · have hhead : (c :: cs').head?.all (· = ',') = false := by simpa using hcomma
        rw [hhead]
        split
        case h_1 heq => cases heq
        case h_2 heq =>
          cases heq
          exact absurd rfl hcomma
        case h_3 => rfl

theorem hintAt_append (h : ',' ∉ us) : hintAt (us ++ ',' :: vs) = hintAt us := by
  by_cases hmark : ∃ cs, us = 'd' :: '=' :: cs
  · obtain ⟨cs, rfl⟩ := hmark
    have htake : (cs ++ ',' :: vs).takeWhile Char.isDigit = cs.takeWhile Char.isDigit := by
      rw [List.takeWhile_append]
      split
      case isTrue hall =>
        rw [List.takeWhile_cons_of_neg (by decide), List.append_nil]
        exact ((List.takeWhile_prefix _).eq_of_length hall).symm
      case isFalse => rfl
    have hhead : ((cs ++ ',' :: vs).dropWhile Char.isDigit).head?.all (· = ',') =
        (cs.dropWhile Char.isDigit).head?.all (· = ',') := by
      rw [List.dropWhile_append]
      split
      case isTrue hempty =>
        rw [List.dropWhile_cons_of_neg (by decide), List.isEmpty_iff.mp hempty]
        rfl
      case isFalse hne =>
        rw [List.head?_append_of_ne_nil _ (by simpa using hne)]
    rw [List.cons_append, List.cons_append, hintAt_mark, hintAt_mark, htake, hhead]
  · rw [not_exists] at hmark
    rw [hintAt_of_not_mark hmark, hintAt_of_not_mark]
    intro cs heq
    cases us with
    | nil => cases heq
    | cons c us =>
      cases us with
      | nil => cases heq
      | cons d us =>
        cases heq
        exact hmark us rfl

theorem hintAfterComma_of_not_mem (h : ',' ∉ us) : hintAfterComma us = none := by
  induction us with
  | nil => rfl
  | cons c us ih =>
    have hne : c ≠ ',' := fun heq ↦ h (heq ▸ List.mem_cons_self)
    rw [hintAfterComma, if_neg hne]
    exact ih fun hmem ↦ h (List.mem_cons_of_mem _ hmem)

theorem hintAfterComma_append (h : ',' ∉ us) :
    hintAfterComma (us ++ ',' :: vs) = (hintAt vs).or (hintAfterComma vs) := by
  induction us with
  | nil => rfl
  | cons c us ih =>
    have hne : c ≠ ',' := fun heq ↦ h (heq ▸ List.mem_cons_self)
    rw [List.cons_append, hintAfterComma, if_neg hne]
    exact ih fun hmem ↦ h (List.mem_cons_of_mem _ hmem)

theorem difficultyMatch_intercalate (fields : List (List Char)) (hne : fields ≠ [])
    (h : ∀ field ∈ fields, ',' ∉ field) :
    (hintAt ([','].intercalate fields)).or (hintAfterComma ([','].intercalate fields)) =
      fields.findSome? hintAt := by
  induction fields with
  | nil => exact absurd rfl hne
  | cons field fields ih =>
    obtain ⟨hfield, hfields⟩ := List.forall_mem_cons.mp h
    cases fields with
    | nil =>
      rw [List.intercalate_singleton, hintAfterComma_of_not_mem hfield, Option.or_none]
      cases hhint : hintAt field <;> simp only [List.findSome?, hhint]
    | cons field' fields =>
      rw [List.intercalate_cons_cons, List.append_assoc, List.singleton_append, hintAt_append hfield,
        hintAfterComma_append hfield, ih (List.cons_ne_nil _ _) hfields]
      cases hhint : hintAt field <;> simp only [List.findSome?, hhint, Option.none_or, Option.some_or]

end Password

section Asking

inductive PasswordField
  | difficulty (startingDiff : ℕ)
  | other (text : String)

namespace PasswordField

def text : PasswordField → String
  | .difficulty startingDiff => "d=" ++ toString startingDiff
  | .other text => text

def startingDiff : PasswordField → Option ℕ
  | .difficulty startingDiff => some startingDiff
  | .other _ => none

/-- A difficulty that a double has, or a text that is no difficulty. -/
def Valid : PasswordField → Prop
  | .difficulty startingDiff => startingDiff < 2 ^ 53
  | .other text => ',' ∉ text.toList ∧ hintAt text.toList = none

end PasswordField

/-- What a miner asks for. -/
inductive Ask
  | subscribe (id : Json) (userAgent : String)
  | configure (id : Json) (extensions : List String)
  | authorize (id : Json) (address : String) (worker : Option String)
      (password : List PasswordField)
  | suggestDifficulty (id : Json) (difficulty : String)
  | submit (id : Json) (userId jobId extraNonce2 ntime nonce versionMask : String)

namespace Ask

def id : Ask → Json
  | .subscribe id _ | .configure id _ | .authorize id _ _ _ | .suggestDifficulty id _
  | .submit id _ _ _ _ _ _ => id

def method : Ask → eRequestMethod
  | .subscribe _ _ => .subscribe
  | .configure _ _ => .configure
  | .authorize _ _ _ _ => .authorize
  | .suggestDifficulty _ _ => .suggestDifficulty
  | .submit _ _ _ _ _ _ _ => .submit

def login (address : String) (worker : Option String) : String :=
  address ++ worker.elim "" fun worker ↦ "." ++ worker

def passwordOf (fields : List PasswordField) : String :=
  ",".intercalate (fields.map PasswordField.text)

def params : Ask → List Json
  | .subscribe _ userAgent => [.string userAgent]
  | .configure _ extensions => extensions.map .string
  | .authorize _ address worker password =>
    [.string (login address worker), .string (passwordOf password)]
  | .suggestDifficulty _ difficulty => [.number difficulty]
  | .submit _ userId jobId extraNonce2 ntime nonce versionMask =>
    [.string userId, .string jobId, .string extraNonce2, .string ntime, .string nonce,
      .string versionMask]

def request (ask : Ask) : Request :=
  [("id", ask.id), ("method", .string ask.method.name), ("params", .array ask.params)]

/-- What the session gets of it. -/
def line (lib : RequestLibrary) : Ask → Line
  | .subscribe id userAgent =>
    .subscribe ⟨id.stringify, SubscriptionMessage.refineUserAgent userAgent⟩
  | .configure id _ => .configure id.stringify
  | .authorize id address worker password =>
    .authorize
      { id := id.stringify
        address
        worker := worker.getD "worker"
        startingDiff := password.findSome? PasswordField.startingDiff }
  | .suggestDifficulty id difficulty =>
    .suggestDifficulty id.stringify ((lib.toNumber (.number difficulty)).getD 0)
  | .submit id _ jobId extraNonce2 ntime nonce versionMask =>
    .submit { id := id.stringify, jobId, extraNonce2, ntime, nonce, versionMask }

/-- What the checks of its class leave to a miner. -/
def Allowed (lib : RequestLibrary) : Ask → Prop
  | .subscribe _ userAgent => lib.count (SubscriptionMessage.refineUserAgent userAgent) ≤ 128
  | .configure _ _ => True
  | .authorize _ address worker password =>
    '.' ∉ address.toList ∧ (∀ name ∈ worker, '.' ∉ name.toList) ∧
      lib.count (worker.getD "worker") ≤ 64 ∧ lib.count (passwordOf password) ≤ 64 ∧
      password ≠ [] ∧ ∀ field ∈ password, field.Valid
  | .suggestDifficulty _ difficulty =>
    lib.print difficulty = some difficulty ∧ (lib.toNumber (.number difficulty)).isSome
  | .submit _ _ _ _ _ _ _ => True

end Ask

/-- An id as miners send them. -/
def IsId (lib : RequestLibrary) : Json → Prop
  | .number text => lib.print text = some text
  | .string _ => True
  | _ => False

/-- Strings, numbers and arrays of what is copied are copied as they are. -/
structure Copies (lib : RequestLibrary) : Prop where
  string : ∀ s, lib.copy (.string s) = some (.string s)
  number : ∀ text, lib.copy (.number text) = some (.number text)
  array : ∀ items, (∀ item ∈ items, lib.copy item = some item) →
    lib.copy (.array items) = some (.array items)

variable {ask : Ask}

theorem copy_id (hcopies : Copies lib) {id : Json} (h : IsId lib id) : lib.copy id = some id := by
  cases id with
  | number text => exact hcopies.number text
  | string s => exact hcopies.string s
  | _ => exact absurd h id

theorem copy_params (hcopies : Copies lib) (ask : Ask) :
    lib.copy (.array ask.params) = some (.array ask.params) := by
  refine hcopies.array _ fun item hitem ↦ ?_
  cases ask with
  | configure id extensions =>
    obtain ⟨s, -, rfl⟩ := List.mem_map.mp hitem
    exact hcopies.string s
  | suggestDifficulty id difficulty =>
    obtain rfl := List.mem_singleton.mp hitem
    exact hcopies.number difficulty
  | _ =>
    simp only [Ask.params, List.mem_cons, List.not_mem_nil, or_false] at hitem
    rcases hitem with rfl | rfl | rfl | rfl | rfl | rfl
    all_goals exact hcopies.string _

theorem isCopied_request (hcopies : Copies lib) (hid : IsId lib ask.id) :
    ask.request.isCopied lib = true := by
  simp [Ask.request, Request.isCopied, copy_id hcopies hid, hcopies.string,
    copy_params hcopies ask]

theorem id_request (hcopies : Copies lib) (hid : IsId lib ask.id) :
    Request.id lib ask.request = ask.id := by
  simp [Ask.request, Request.id, copy_id hcopies hid]

theorem sound_request (hlib : Lawful lib) (hid : IsId lib ask.id) (hallowed : ask.Allowed lib) :
    (Json.object ask.request).Sound lib.print := by
  have hsound : ask.id.Sound lib.print := by
    cases hask : ask.id with
    | number text =>
      rw [hask] at hid
      exact sound_number hlib hid
    | string s => trivial
    | _ =>
      rw [hask] at hid
      exact absurd hid id
  refine ⟨isOrdered_of_keys ["id", "method", "params"] rfl (by decide), hsound, trivial,
    ?_, trivial⟩
  cases ask with
  | configure id extensions => exact soundItems_strings extensions
  | suggestDifficulty id difficulty => exact ⟨sound_number hlib hallowed.1, trivial⟩
  | subscribe => exact ⟨trivial, trivial⟩
  | authorize => exact ⟨trivial, trivial, trivial⟩
  | submit => exact ⟨trivial, trivial, trivial, trivial, trivial, trivial, trivial⟩

theorem lookup_params (ask : Ask) : ask.request.lookup "params" = some (.array ask.params) := by
  simp [Ask.request, List.lookup]

theorem param_request (ask : Ask) (i : ℕ) : Request.param ask.request i = ask.params[i]? := by
  rw [Request.param, lookup_params]
  rfl

theorem params_request (hcopies : Copies lib) (ask : Ask) :
    Request.params lib ask.request = some (.array ask.params) := by
  rw [Request.params, lookup_params, Option.bind_some, copy_params hcopies]

theorem not_isNullish_id (hid : IsId lib ask.id) : isNullish (some ask.id) = false := by
  cases hask : ask.id with
  | number text => rfl
  | string s => rfl
  | _ =>
    rw [hask] at hid
    exact absurd hid id

theorem refusedId_request (hcopies : Copies lib) (hid : IsId lib ask.id) :
    Request.refusedId lib ask.request = [] := by
  rw [Request.refusedId, id_request hcopies hid, not_isNullish_id hid]
  rfl

theorem takeWhile_isDigit_toDigits (n : ℕ) :
    (Nat.toDigits 10 n).takeWhile Char.isDigit = Nat.toDigits 10 n :=
  List.takeWhile_eq_self_iff.mpr fun _ hc ↦ Nat.isDigit_of_mem_toDigits (by decide) (le_refl _) hc

theorem hintAt_difficulty (n : ℕ) :
    hintAt (PasswordField.difficulty n).text.toList = some (Nat.toDigits 10 n) := by
  have hdrop : (Nat.toDigits 10 n).dropWhile Char.isDigit = [] :=
    List.dropWhile_eq_nil_iff.mpr fun _ hc ↦
      Nat.isDigit_of_mem_toDigits (by decide) (le_refl _) hc
  have htext : (PasswordField.difficulty n).text.toList = 'd' :: '=' :: Nat.toDigits 10 n := by
    simp [PasswordField.text]
  rw [htext, hintAt_mark, takeWhile_isDigit_toDigits, if_neg Nat.toDigits_ne_nil, hdrop]
  rfl

theorem parseInt10_toDigits {n : ℕ} (h : n < 2 ^ 53) :
    parseInt10 (String.ofList (Nat.toDigits 10 n)) = .int n := by
  have hdigit : ∀ c ∈ Nat.toDigits 10 n, c.isDigit = true := fun _ hc ↦
    Nat.isDigit_of_mem_toDigits (by decide) (le_refl _) hc
  have hvalue : (Nat.toDigits 10 n).foldl (fun n c ↦ 10 * n + (c.toNat - '0'.toNat)) 0 = n :=
    Nat.ofDigitChars_ten_toDigits
  have hstart : dropSign ((Nat.toDigits 10 n).dropWhile isWhiteSpace) = (false, Nat.toDigits 10 n) := by
    cases hdigits : Nat.toDigits 10 n with
    | nil => exact absurd hdigits Nat.toDigits_ne_nil
    | cons c cs =>
      have hc : StartsNumber c := .inr (hdigit c (hdigits ▸ List.mem_cons_self))
      have hnat := hc.toNat
      have hspace : isWhiteSpace c = false := by
        simp only [isWhiteSpace, Bool.or_eq_false_iff, decide_eq_false_iff_not, List.mem_cons,
          List.not_mem_nil, Bool.and_eq_false_iff, not_or, not_false_eq_true, and_true]
        omega
      rw [List.dropWhile_cons_of_neg (by simp [hspace]), dropSign]
      · rintro _ ⟨⟩
        exact absurd (hdigit '-' (hdigits ▸ List.mem_cons_self)) (by decide)
      · rintro _ ⟨⟩
        exact absurd hnat (by decide)
  simp only [parseInt10, String.toList_ofList, hstart, takeWhile_isDigit_toDigits,
    if_neg Nat.toDigits_ne_nil, hvalue, nearestDouble, if_pos h]
  rfl

theorem PasswordField.Valid.not_mem {field : PasswordField} (h : field.Valid) :
    ',' ∉ field.text.toList := by
  cases field with
  | other text => exact h.1
  | difficulty n =>
    have htext : (PasswordField.difficulty n).text.toList = 'd' :: '=' :: Nat.toDigits 10 n := by
      simp [PasswordField.text]
    rw [htext]
    simp only [List.mem_cons, not_or]
    refine ⟨by decide, by decide, fun hmem ↦ ?_⟩
    exact absurd (Nat.isDigit_of_mem_toDigits (by decide) (le_refl _) hmem) (by decide)

theorem startingDiffOf_passwordOf {fields : List PasswordField} (hne : fields ≠ [])
    (h : ∀ field ∈ fields, field.Valid) :
    startingDiffOf (Ask.passwordOf fields) = fields.findSome? PasswordField.startingDiff := by
  have hcommas : ∀ field ∈ fields.map (fun field ↦ field.text.toList), ',' ∉ field := by
    intro text htext
    obtain ⟨field, hfield, rfl⟩ := List.mem_map.mp htext
    exact (h field hfield).not_mem
  have hmatch := difficultyMatch_intercalate _ (by simpa using hne) hcommas
  have htext : (Ask.passwordOf fields).toList =
      [','].intercalate (fields.map fun field ↦ field.text.toList) := by
    simp [Ask.passwordOf, String.toList_intercalate, Function.comp_def]
  rw [startingDiffOf, difficultyMatch, htext, hmatch]
  clear hmatch htext hcommas hne
  induction fields with
  | nil => rfl
  | cons field fields ih =>
    obtain ⟨hfield, hfields⟩ := List.forall_mem_cons.mp h
    cases field with
    | other text =>
      simp only [List.map_cons, List.findSome?, PasswordField.startingDiff, PasswordField.text,
        hfield.2]
      exact ih hfields
    | difficulty startingDiff =>
      simp only [List.map_cons, List.findSome?, PasswordField.startingDiff,
        hintAt_difficulty, Option.map_some, parseInt10_toDigits hfield]
      rfl

theorem toList_login (address : String) (worker : Option String) :
    (Ask.login address worker).toList =
      address.toList ++ worker.elim [] fun name ↦ '.' :: name.toList := by
  cases worker <;> simp [Ask.login]

theorem addressOf_login {address : String} {worker : Option String} (h : '.' ∉ address.toList) :
    addressOf (Ask.login address worker) = address := by
  rw [addressOf, split, toList_login]
  cases worker with
  | none =>
    rw [Option.elim_none, List.append_nil, List.splitOn_eq_singleton h]
    exact String.ofList_toList
  | some name =>
    rw [Option.elim_some, List.splitOn_append_cons_self, List.splitOn_eq_singleton h]
    exact String.ofList_toList

theorem workerOf_login {address : String} {worker : Option String} (h : '.' ∉ address.toList)
    (hworker : ∀ name ∈ worker, '.' ∉ name.toList) :
    workerOf (Ask.login address worker) = worker.getD "worker" := by
  rw [workerOf, split, toList_login]
  cases worker with
  | none =>
    rw [Option.elim_none, List.append_nil, List.splitOn_eq_singleton h]
    rfl
  | some name =>
    rw [Option.elim_some, List.splitOn_append_cons_self, List.splitOn_eq_singleton h,
      List.splitOn_eq_singleton (hworker name rfl)]
    exact String.ofList_toList

def handler (lib : RequestLibrary) : eRequestMethod → Request → Line
  | .subscribe => SubscribeRequest.line lib
  | .configure => ConfigurationMessage.line lib
  | .authorize => AuthorizationMessage.line lib
  | .suggestDifficulty => SuggestDifficulty.line lib
  | .submit => SubmitRequest.line lib.copy

theorem ofRequest_request (ask : Ask) :
    Line.ofRequest lib ask.request = handler lib ask.method ask.request := by
  cases ask <;>
    simp [Line.ofRequest, Ask.request, Ask.method, eRequestMethod.name, List.lookup, handler]

theorem not_isNone_request (h : ask.request.isCopied lib = true) :
    (ask.request.any fun field ↦ (lib.copy field.2).isNone) = false := by
  rw [List.any_eq_false]
  intro field hfield
  have hcopied := List.all_eq_true.mp h field hfield
  cases hcopy : lib.copy field.2 with
  | none => simp [hcopy] at hcopied
  | some v => simp

theorem line_request (hcopies : Copies lib) (hid : IsId lib ask.id) (hallowed : ask.Allowed lib) :
    Line.ofRequest lib ask.request = ask.line lib := by
  have hcopied := isCopied_request hcopies hid
  have hrefusedId := refusedId_request hcopies hid
  have hparams := params_request hcopies ask
  have hsame := id_request hcopies hid
  rw [ofRequest_request]
  cases ask with
  | subscribe id userAgent =>
    have huserAgent : SubscribeRequest.userAgent (Ask.subscribe id userAgent).request =
        some (SubscriptionMessage.refineUserAgent userAgent) := by
      have hraw : SubscribeRequest.rawUserAgent (Ask.subscribe id userAgent).request =
          some (.string userAgent) := param_request _ 0
      rw [SubscribeRequest.userAgent, hraw]
      rfl
    have hrefused : SubscribeRequest.refused lib (Ask.subscribe id userAgent).request
        (SubscriptionMessage.refineUserAgent userAgent) = [] := by
      change Request.refusedId lib _ ++ (if (Request.params lib _).any _ then _ else _) ++ _ = _
      have hlength : lib.count (SubscriptionMessage.refineUserAgent userAgent) ≤ 128 := hallowed
      rw [hrefusedId, hparams, if_pos hlength]
      rfl
    simp only [Ask.method, handler, SubscribeRequest.line, huserAgent, not_isNone_request hcopied, hrefused]
    change Line.subscribe ⟨(Request.id lib _).stringify, _⟩ = _
    rw [hsame]
    rfl
  | configure id extensions =>
    simp only [Ask.method, handler, ConfigurationMessage.line, if_pos hcopied, ConfigurationMessage.refused,
      hrefusedId, hparams, hsame]
    rfl
  | authorize id address worker password =>
    obtain ⟨haddress, hworker, hworkerLength, hpasswordLength, hne, hvalid⟩ := hallowed
    have hlogin : Request.param (Ask.authorize id address worker password).request 0 =
        some (.string (Ask.login address worker)) := param_request _ 0
    have hpassword : Request.param (Ask.authorize id address worker password).request 1 =
        some (.string (Ask.passwordOf password)) := param_request _ 1
    have hstarting : startingDiffParam (Ask.authorize id address worker password).request =
        some (password.findSome? PasswordField.startingDiff) := by
      rw [startingDiffParam, hpassword]
      exact congrArg some (startingDiffOf_passwordOf hne hvalid)
    have hrefused : AuthorizationMessage.refused lib
        (Ask.authorize id address worker password).request (worker.getD "worker") = [] := by
      rw [AuthorizationMessage.refused, hrefusedId, hparams, if_pos hworkerLength, refusedPassword,
        hpassword]
      exact if_pos hpasswordLength
    simp only [Ask.method, handler, AuthorizationMessage.line, hlogin, hstarting, if_pos hcopied,
      addressOf_login haddress, workerOf_login haddress hworker, hrefused, hsame]
    rfl
  | suggestDifficulty id difficulty =>
    have hrefused : SuggestDifficulty.refused lib (Ask.suggestDifficulty id difficulty).request
        (lib.toNumber (.number difficulty)) = [] := by
      rw [SuggestDifficulty.refused, hrefusedId, hparams, if_pos hallowed.2]
      rfl
    have helement : (Json.array [.number difficulty]).element 0 = some (.number difficulty) := rfl
    simp only [Ask.method, handler, SuggestDifficulty.line, lookup_params, hcopied, Ask.params,
      helement, Option.bind_some, hrefused, hsame]
    rfl
  | submit id userId jobId extraNonce2 ntime nonce versionMask =>
    have hcopy := copy_params hcopies (.submit id userId jobId extraNonce2 ntime nonce versionMask)
    simp only [Ask.params] at hcopy
    have hrefused : SubmitRequest.refused lib.copy
        (Ask.submit id userId jobId extraNonce2 ntime nonce versionMask).request
        (.array [.string userId, .string jobId, .string extraNonce2, .string ntime, .string nonce,
          .string versionMask]) = [] := by
      change Request.refusedId lib _ ++ (if (lib.copy _).any _ then _ else _) ++ _ = _
      rw [hrefusedId, hcopy]
      rfl
    simp only [Ask.method, handler, SubmitRequest.line, lookup_params,
      not_isNone_request hcopied, Ask.params, hrefused]
    change Line.submit { id := (Request.id lib _).stringify, .. } = _
    rw [hsame]
    rfl

end Asking

/-- What miners ask for is handled as it was asked, in their order, wherever the stream
is cut between characters: the address and the worker before and after the point of the
login, and of the password the first difficulty among its fields. -/
theorem requests_read_back (lib : RequestLibrary) (hlib : Lawful lib) (hcopies : Copies lib)
    (asks : List Ask) (hids : ∀ ask ∈ asks, IsId lib ask.id)
    (hallowed : ∀ ask ∈ asks, ask.Allowed lib) (chunks : List Bytes)
    (hchunks : ∀ chunk ∈ chunks, IsUtf8 chunk)
    (hstream : chunks.flatten =
      encode (asks.flatMap fun ask ↦ text (.object ask.request) ++ ['\n'])) :
    (receive [] chunks).1.map (Line.ofText lib) = asks.map (Ask.line lib) ∧
      (receive [] chunks).2 = [] := by
  have hsound : ∀ ask ∈ asks, (Json.object ask.request).Sound lib.print :=
    fun ask hask ↦ sound_request hlib (hids ask hask) (hallowed ask hask)
  have hlines : ∀ l ∈ asks.map (fun ask ↦ text (.object ask.request)), l ≠ [] ∧ '\n' ∉ l := by
    intro l hl
    obtain ⟨ask, hask, rfl⟩ := List.mem_map.mp hl
    refine ⟨?_, (printable_text _ (hsound ask hask)).not_mem⟩
    rw [text_object]
    exact List.cons_ne_nil _ _
  have hframed := receive_lines hlines hchunks (by rw [hstream, List.flatMap_map])
  rw [hframed]
  refine ⟨?_, rfl⟩
  rw [List.map_map]
  apply List.map_congr_left
  intro ask hask
  rw [Function.comp_apply, Line.ofText, parse_text _ (hsound ask hask)]
  exact line_request hcopies (hids ask hask) (hallowed ask hask)

section Sample

theorem copies_plain : Copies plain := ⟨fun _ ↦ rfl, fun _ ↦ rfl, fun _ _ ↦ rfl⟩

def askings : List Ask :=
  [.subscribe (.number "1") "bitaxe/2.2",
    .authorize (.string "auth") "bc1q" (some "rig7") [.other "x", .difficulty 2048, .difficulty 1]]

def stream : List Char := askings.flatMap fun ask ↦ text (.object ask.request) ++ ['\n']

theorem requests_read_back_askings :
    (receive [] [encode (stream.take 20), encode (stream.drop 20)]).1.map (Line.ofText plain) =
      [.subscribe ⟨"1", "bitaxe"⟩, .authorize ⟨"\"auth\"", "bc1q", "rig7", some 2048⟩] := by
  have hids : ∀ ask ∈ askings, IsId plain ask.id := by
    simp only [askings, List.forall_mem_cons]
    have hone : plain.print "1" = some "1" := by decide
    exact ⟨hone, trivial, fun _ hmem ↦ absurd hmem List.not_mem_nil⟩
  have hallowed : ∀ ask ∈ askings, ask.Allowed plain := by
    have hagent : plain.count (SubscriptionMessage.refineUserAgent "bitaxe/2.2") ≤ 128 := by decide
    have hworker : ∀ name ∈ some "rig7", '.' ∉ name.toList := by decide
    have hfields : ∀ field ∈ [PasswordField.other "x", .difficulty 2048, .difficulty 1],
        field.Valid := by
      simp only [List.forall_mem_cons]
      exact ⟨⟨by decide, by decide⟩, (by decide : 2048 < 2 ^ 53), (by decide : 1 < 2 ^ 53),
        fun _ hmem ↦ absurd hmem List.not_mem_nil⟩
    simp only [askings, List.forall_mem_cons]
    exact ⟨hagent, ⟨by decide, hworker, by decide, by decide, List.cons_ne_nil _ _, hfields⟩,
      fun _ hmem ↦ absurd hmem List.not_mem_nil⟩
  have hchunks : ∀ chunk ∈ [encode (stream.take 20), encode (stream.drop 20)], IsUtf8 chunk := by
    simp only [List.forall_mem_cons]
    exact ⟨⟨_, rfl⟩, ⟨_, rfl⟩, fun _ hmem ↦ absurd hmem List.not_mem_nil⟩
  have hstream : [encode (stream.take 20), encode (stream.drop 20)].flatten = encode stream := by
    rw [List.flatten_cons, List.flatten_singleton, encode, encode, ← List.flatMap_append,
      List.take_append_drop]
    rfl
  have hlines := (requests_read_back plain lawful_plain copies_plain askings hids hallowed _ hchunks
    hstream).1
  exact hlines.trans (by decide)

end Sample

end ElektronPool.Requests
