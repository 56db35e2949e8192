import ElektronPool.Framing
import ElektronPool.Json.Reading
import ElektronPool.Model.Requests
import ElektronPool.Model.Responses
import ElektronPool.SubmitVerdict

namespace ElektronPool.Wire

open Lib Lib.Runs Lib.Utf8 Model Model.View Model.Json Work Talk SubmitVerdict Framing
open scoped List

variable {lib : RequestLibrary} {cfg : Config}

/-- What the pool relies on in these libraries: numbers print as numbers that print as
themselves, and copying a value leaves its numbers and the order of its properties. -/
structure Lawful (lib : RequestLibrary) : Prop where
  prints : Prints lib.print
  print_nat : ∀ n < 100, lib.print (toString n) = some (toString n)
  sound_copy : ∀ v w, lib.copy v = some w → v.Sound lib.print → w.Sound lib.print

def HasId (lib : RequestLibrary) (id : String) : Prop :=
  ∃ v : Json, v.Sound lib.print ∧ v.stringify = id

/-- The id that a line of text asks with, if it is a request. -/
def askedId (lib : RequestLibrary) (text : List Char) : Option Json :=
  (parse lib.print text).bind fun
    | .object request => some (Request.id lib request)
    | _ => none

section Received

variable {request : Request} {id : String}

theorem sound_id (hlib : Lawful lib) (h : (Json.object request).Sound lib.print) :
    (Request.id lib request).Sound lib.print := by
  rw [Request.id]
  cases hid : request.lookup "id" with
  | none => trivial
  | some v =>
    have hv : v.Sound lib.print := by
      obtain ⟨before, after, rfl, -⟩ := List.lookup_eq_some_iff.mp hid
      exact soundFields_iff.mp h.2 ("id", v) (List.mem_append_right _ List.mem_cons_self)
    cases hcopy : lib.copy v with
    | none => simp [hcopy, Sound]
    | some w => simpa [hcopy] using hlib.sound_copy v w hcopy hv

theorem lineId_judge {method : eRequestMethod} {refused : List (Option Json)} {accepted : Line}
    (haccepted : lineId accepted = some (request.id lib).stringify)
    (h : lineId (request.judge lib method refused accepted) = some id) :
    (request.id lib).stringify = id := by
  unfold Request.judge at h
  split at h
  · exact Option.some.inj (haccepted.symm.trans h)
  · split at h
    · exact Option.some.inj h
    · cases h

theorem lineId_subscribe (h : lineId (SubscribeRequest.line lib request) = some id) :
    (request.id lib).stringify = id := by
  unfold SubscribeRequest.line at h
  split at h
  · cases h
  · split at h
    · cases h
    · split at h
      · exact Option.some.inj h
      · split at h
        · exact Option.some.inj h
        · cases h

theorem lineId_configure (h : lineId (ConfigurationMessage.line lib request) = some id) :
    (request.id lib).stringify = id := by
  unfold ConfigurationMessage.line at h
  split at h
  · exact lineId_judge rfl h
  · cases h

theorem lineId_authorize (h : lineId (AuthorizationMessage.line lib request) = some id) :
    (request.id lib).stringify = id := by
  unfold AuthorizationMessage.line at h
  split at h
  · split at h
    · exact lineId_judge rfl h
    · cases h
  · cases h

theorem lineId_suggestDifficulty (h : lineId (SuggestDifficulty.line lib request) = some id) :
    (request.id lib).stringify = id := by
  unfold SuggestDifficulty.line at h
  split at h
  · cases h
  · cases h
  · split at h
    · exact lineId_judge rfl h
    · cases h

theorem lineId_submit (h : lineId (SubmitRequest.line lib.copy request) = some id) :
    (request.id lib).stringify = id := by
  rcases SubmitRequest.line_cases lib.copy request with ⟨message, hline, hid⟩ | hline | hline
  · rw [hline] at h
    exact hid.symm.trans (Option.some.inj h)
  · rw [hline] at h
    exact Option.some.inj h
  · rw [hline] at h
    cases h

theorem lineId_ofRequest (h : lineId (Line.ofRequest lib request) = some id) :
    (request.id lib).stringify = id := by
  unfold Line.ofRequest at h
  split at h
  · split_ifs at h
    · exact lineId_subscribe h
    · exact lineId_configure h
    · exact lineId_authorize h
    · exact lineId_suggestDifficulty h
    · exact lineId_submit h
    · cases h
  · cases h

theorem askedId_of_lineId (hlib : Lawful lib) {text : List Char}
    (h : lineId (Line.ofText lib text) = some id) :
    ∃ v, askedId lib text = some v ∧ v.Sound lib.print ∧ v.stringify = id := by
  rw [Line.ofText] at h
  split at h
  · cases h
  · cases h
  · next request hparse =>
    refine ⟨Request.id lib request, ?_, sound_id hlib (sound_of_parse hlib.prints hparse),
      lineId_ofRequest h⟩
    rw [askedId, hparse, Option.bind_some]
  · cases h

end Received

section Written

variable {numeral : ℚ → String}

theorem isOrdered_of_keys {fields : List (String × Json)} (keys : List String)
    (hkeys : fields.map Prod.fst = keys) (h : SortedKeys keys) : IsOrdered fields :=
  isOrdered_of_sorted (hkeys ▸ h)

instance (keys : List String) : Decidable (SortedKeys keys) :=
  inferInstanceAs (Decidable (List.Pairwise _ _))

theorem sound_number (hlib : Lawful lib) {text : String} (h : lib.print text = some text) :
    (Json.number text).Sound lib.print := hlib.prints _ _ h

theorem sound_nat (hlib : Lawful lib) {n : ℕ} (h : n < 100) : (Json.nat n).Sound lib.print :=
  sound_number hlib (hlib.print_nat n h)

theorem sound_optional (s : Option String) : (Json.optional s).Sound lib.print := by
  cases s <;> trivial

theorem soundItems_strings (strings : List String) :
    SoundItems lib.print (strings.map .string) := by
  induction strings with
  | nil => trivial
  | cons s strings ih => exact ⟨trivial, ih⟩

theorem sound_response (hlib : Lawful lib)
    (hnumeral : ∀ difficulty, lib.print (numeral difficulty) = some (numeral difficulty))
    (message : Message) {id : Json} (hid : id.Sound lib.print) (validationErrors : String) :
    (message.response numeral id validationErrors).Sound lib.print := by
  cases message with
  | subscribed _ clientId extranonce1 =>
    exact ⟨isOrdered_of_keys ["id", "error", "result"] rfl (by decide), hid, trivial,
      ⟨⟨⟨trivial, sound_optional _, trivial⟩, trivial⟩, sound_optional _,
        sound_nat hlib (by decide), trivial⟩, trivial⟩
  | configured _ =>
    exact ⟨isOrdered_of_keys ["id", "error", "result"] rfl (by decide), hid, trivial,
      ⟨isOrdered_of_keys ["version-rolling", "version-rolling.mask"] rfl (by decide),
        trivial, trivial, trivial⟩, trivial⟩
  | result _ =>
    exact ⟨isOrdered_of_keys ["id", "error", "result"] rfl (by decide), hid, trivial,
      trivial, trivial⟩
  | error _ code text =>
    have hcode : code.code < 100 := by cases code <;> decide
    exact ⟨isOrdered_of_keys ["id", "result", "error"] rfl (by decide), hid, trivial,
      ⟨sound_nat hlib hcode, trivial, trivial, trivial⟩, trivial⟩
  | setDifficulty difficulty =>
    exact ⟨isOrdered_of_keys ["id", "method", "params"] rfl (by decide), trivial, trivial,
      ⟨sound_number hlib (hnumeral difficulty), trivial⟩, trivial⟩
  | notify notify =>
    exact ⟨isOrdered_of_keys ["id", "method", "params"] rfl (by decide), trivial, trivial,
      ⟨trivial, trivial, trivial, trivial, soundItems_strings _, trivial, trivial, trivial, trivial,
        trivial⟩, trivial⟩

end Written

section Framed

theorem receive_lines {texts : List (List Char)} {chunks : List Bytes}
    (htexts : ∀ text ∈ texts, text ≠ [] ∧ '\n' ∉ text)
    (hchunks : ∀ chunk ∈ chunks, IsUtf8 chunk)
    (hstream : chunks.flatten = encode (texts.flatMap fun text ↦ text ++ ['\n'])) :
    receive [] chunks = (texts, []) := by
  rw [receive_eq List.not_mem_nil, List.nil_append, flatMap_decode hchunks, hstream, decode_encode]
  clear hstream hchunks
  induction texts with
  | nil => rfl
  | cons text texts ih =>
    obtain ⟨⟨hne, hline⟩, hrest⟩ := List.forall_mem_cons.mp htexts
    rw [List.flatMap_cons, List.append_assoc, List.singleton_append, frame_line hline, ih hrest]
    simp [List.length_pos_of_ne_nil hne]

end Framed

section Sessions

variable {now : ℕ} {pool : Pool} {self : SessionId} {record : Record} {texts : List (List Char)}

theorem countP_replies_le
    (h : Noted cfg (fun _ _ ↦ True) self (Record.note cfg) (Pool.start now, {}) (pool, record))
    (id : String) :
    (replies (pool.sessions self)).countP (fun reply ↦ decide (reply.1 = id)) ≤
      record.lines.countP fun line ↦ decide (lineId line = some id) := by
  have honce := Noted.keeps (J := fun v ↦ Ready v.session) (P := fun session record ↦
      (replies session).countP (fun reply ↦ decide (reply.1 = id)) +
        (pending session).countP (fun line ↦ decide (lineId line = some id)) ≤
      record.lines.countP fun line ↦ decide (lineId line = some id))
    (fun _ hpool ↦ ready_of_reachable hpool self) (Nat.le_refl 0)
    (fun _ _ _ _ hready h _ hact ↦ once_of_turn (turn_of_act hready hact) id h) h
  omega

end Sessions

/-- The value that a message's id is printed from; the message has its text. -/
def idOf (lib : RequestLibrary) (message : Message) : Json :=
  (message.answers.bind fun id ↦ parse lib.print id.toList).getD .null

def textOf (lib : RequestLibrary) (numeral : ℚ → String) (message : Message)
    (validationErrors : String) : List Char :=
  text (message.response numeral (idOf lib message) validationErrors)

theorem stringify_idOf {message : Message} {id : String} (hanswers : message.answers = some id)
    (h : HasId lib id) : (idOf lib message).Sound lib.print ∧ (idOf lib message).stringify = id := by
  obtain ⟨v, hv, rfl⟩ := h
  have hparse : parse lib.print v.stringify.toList = some v := parse_text v hv
  rw [idOf, hanswers, Option.bind_some, hparse]
  exact ⟨hv, rfl⟩

theorem sound_idOf {message : Message} (h : ∀ id, message.answers = some id → HasId lib id) :
    (idOf lib message).Sound lib.print := by
  cases hanswers : message.answers with
  | none =>
    rw [idOf, hanswers]
    trivial
  | some id => exact (stringify_idOf hanswers (h id hanswers)).1

section Answered

variable {now : ℕ} {pool : Pool} {self : SessionId} {record : Record} {texts : List (List Char)}
  {message : Message} {id : String}

theorem countP_answers (wire : List Message) (id : String) :
    wire.countP (fun message ↦ decide (message.answers = some id)) =
      (wire.filterMap verdictOf).countP fun reply ↦ decide (reply.1 = id) := by
  rw [List.countP_filterMap]
  apply List.countP_congr
  intro message _
  cases message <;> simp [Message.answers, verdictOf]

theorem hasId_of_answers (hlib : Lawful lib)
    (h : Noted cfg (fun _ _ ↦ True) self (Record.note cfg) (Pool.start now, {}) (pool, record))
    (htexts : record.lines = texts.map (Line.ofText lib))
    (hmem : message ∈ (pool.sessions self).wire) (hanswers : message.answers = some id) :
    HasId lib id := by
  have hreply : 0 < (pool.sessions self).wire.countP fun message ↦
      decide (message.answers = some id) :=
    List.countP_pos_iff.mpr ⟨message, hmem, decide_eq_true hanswers⟩
  rw [countP_answers] at hreply
  have hline := hreply.trans_le (countP_replies_le h id)
  obtain ⟨line, hmem, hid⟩ := List.countP_pos_iff.mp hline
  rw [htexts] at hmem
  obtain ⟨text, -, rfl⟩ := List.mem_map.mp hmem
  obtain ⟨v, -, hv, hstringify⟩ := askedId_of_lineId hlib (of_decide_eq_true hid)
  exact ⟨v, hv, hstringify⟩

theorem ids_subperm (hlib : Lawful lib)
    (h : Noted cfg (fun _ _ ↦ True) self (Record.note cfg) (Pool.start now, {}) (pool, record))
    (htexts : record.lines = texts.map (Line.ofText lib)) :
    ((pool.sessions self).wire.filterMap fun message ↦
        message.answers.map fun _ ↦ idOf lib message) <+~ texts.filterMap (askedId lib) := by
  classical
  rw [List.subperm_ext_iff]
  intro v hv
  obtain ⟨message, hmem, hmessage⟩ := List.mem_filterMap.mp hv
  obtain ⟨id, hanswers, rfl⟩ := Option.map_eq_some_iff.mp hmessage
  have hid := (stringify_idOf hanswers (hasId_of_answers hlib h htexts hmem hanswers)).2
  rw [List.count_eq_countP, List.countP_filterMap, List.count_eq_countP, List.countP_filterMap]
  calc (pool.sessions self).wire.countP _
      ≤ (pool.sessions self).wire.countP fun message ↦ decide (message.answers = some id) := by
        apply List.countP_mono_left
        intro message' hmem' hsame
        cases hanswers' : message'.answers with
        | none => simp [hanswers'] at hsame
        | some id' =>
          have hid' := (stringify_idOf hanswers'
            (hasId_of_answers hlib h htexts hmem' hanswers')).2
          simp only [hanswers', Option.map_some, Option.getD_some, beq_iff_eq] at hsame
          rw [hsame, hid] at hid'
          exact decide_eq_true (congrArg some hid'.symm)
    _ = (replies (pool.sessions self)).countP fun reply ↦ decide (reply.1 = id) :=
        countP_answers _ id
    _ ≤ record.lines.countP fun line ↦ decide (lineId line = some id) := countP_replies_le h id
    _ = texts.countP fun text ↦ decide (lineId (Line.ofText lib text) = some id) := by
        rw [htexts, List.countP_map]
        rfl
    _ ≤ texts.countP _ := by
        apply List.countP_mono_left
        intro text _ hline
        obtain ⟨v, hasked, hv, hstringify⟩ := askedId_of_lineId hlib (of_decide_eq_true hline)
        have hparse : idOf lib message = v := by
          rw [idOf, hanswers, Option.bind_some, ← hstringify]
          exact congrArg (Option.getD · .null) (parse_text v hv)
        simp [hasked, hparse]

end Answered

/-- What a session has written reads back as the responses in their order, wherever the stream is
cut between characters and whatever lines the miners sent; every response has the id it was
asked with, and no line is answered twice. -/
theorem wire_reads_back (cfg : Config) (lib : RequestLibrary) (numeral : ℚ → String)
    (hlib : Lawful lib)
    (hnumeral : ∀ difficulty, lib.print (numeral difficulty) = some (numeral difficulty))
    (now : ℕ) (pool : Pool) (self : SessionId) (record : Record)
    (h : Noted cfg (fun _ _ ↦ True) self (Record.note cfg) (Pool.start now, {}) (pool, record))
    (texts : List (List Char)) (htexts : record.lines = texts.map (Line.ofText lib))
    (wire : List (Message × String))
    (hwire : wire.map Prod.fst = (pool.sessions self).wire.reverse) (chunks : List Bytes)
    (hchunks : ∀ chunk ∈ chunks, IsUtf8 chunk)
    (hstream : chunks.flatten =
      encode (wire.flatMap fun w ↦ textOf lib numeral w.1 w.2 ++ ['\n'])) :
    (receive [] chunks).1.map (parse lib.print) =
        wire.map (fun w ↦ some (w.1.response numeral (idOf lib w.1) w.2)) ∧
      (receive [] chunks).2 = [] ∧
      (∀ w ∈ wire, ∀ id, w.1.answers = some id → (idOf lib w.1).stringify = id) ∧
      (wire.filterMap fun w ↦ w.1.answers.map fun _ ↦ idOf lib w.1) <+~
        texts.filterMap (askedId lib) := by
  have hids : ∀ w ∈ wire, ∀ id, w.1.answers = some id → HasId lib id := by
    intro w hw id hanswers
    have hmem : w.1 ∈ (pool.sessions self).wire.reverse := hwire ▸ List.mem_map_of_mem hw
    exact hasId_of_answers hlib h htexts (List.mem_reverse.mp hmem) hanswers
  have hsound : ∀ w ∈ wire, (w.1.response numeral (idOf lib w.1) w.2).Sound lib.print :=
    fun w hw ↦ sound_response hlib hnumeral w.1 (sound_idOf (hids w hw)) w.2
  have hlines : ∀ text ∈ wire.map (fun w ↦ textOf lib numeral w.1 w.2), text ≠ [] ∧ '\n' ∉ text := by
    intro text htext
    obtain ⟨w, hw, rfl⟩ := List.mem_map.mp htext
    obtain ⟨c, cs, hcons, -⟩ := exists_cons_text _ (hsound w hw)
    refine ⟨?_, (printable_text _ (hsound w hw)).not_mem⟩
    rw [textOf, hcons]
    exact List.cons_ne_nil _ _
  have hframed := receive_lines hlines hchunks (by rw [hstream, List.flatMap_map])
  rw [hframed]
  refine ⟨?_, rfl, fun w hw id hanswers ↦ (stringify_idOf hanswers (hids w hw id hanswers)).2, ?_⟩
  · rw [List.map_map]
    exact List.map_congr_left fun w hw ↦ parse_text _ (hsound w hw)
  · have hreplies : (wire.filterMap fun w ↦ w.1.answers.map fun _ ↦ idOf lib w.1) =
        ((pool.sessions self).wire.filterMap fun message ↦
          message.answers.map fun _ ↦ idOf lib message).reverse := by
      rw [← List.filterMap_reverse, ← hwire, List.filterMap_map]
      rfl
    rw [hreplies]
    exact (List.reverse_perm _).subperm.trans (ids_subperm hlib h htexts)

section Sample

open Reference

instance (text : String) : Decidable (IsNumber text) := inferInstanceAs (Decidable (_ = _))

def plain : RequestLibrary where
  print text := if IsNumber text then some text else none
  copy := some
  toNumber _ := none
  count := String.length

theorem lawful_plain : Lawful plain where
  prints text text' h := by
    obtain ⟨hnumber, heq⟩ := Option.ite_none_right_eq_some.mp h
    obtain rfl := Option.some.inj heq
    exact ⟨hnumber, if_pos hnumber⟩
  print_nat := by decide
  sound_copy _ _ h hv := Option.some.inj h ▸ hv

def twoLines : List Char :=
  "\x7b\"id\":\"a\\nb\",\"method\":\"mining.configure\",\"params\":[]\x7d".toList

def repliesTwoLines : List (Message × String) := [(.configured "\"a\\nb\"", "")]

theorem wire_reads_back_twoLines :
    ∃ pool record, Noted settings (fun _ _ ↦ True) 0 (Record.note settings) (Pool.start 0, {})
        (pool, record) ∧
      repliesTwoLines.map Prod.fst = (pool.sessions 0).wire.reverse ∧
      (receive [] [encode (repliesTwoLines.flatMap fun w ↦
            textOf plain (fun _ ↦ "1") w.1 w.2 ++ ['\n'])]).1.map (parse plain.print) =
        repliesTwoLines.map fun w ↦ some (w.1.response (fun _ ↦ "1") (idOf plain w.1) w.2) := by
  obtain ⟨⟨pool, record⟩, hpool, hp⟩ := Reach.of_any
    (noted (Pool.step settings) (ofSession 0 (Record.note settings)))
    (fun p event ↦ onSession (fun _ _ ↦ True) p.1 event) (Pool.start 0, {})
    [.session 0 (.connect "aabbccdd"), .session 0 (.data [Line.ofText plain twoLines]),
      .session 0 (.resume 0 .done)]
    (fun p ↦ decide ((p.1.sessions 0).wire = [.configured "\"a\\nb\""] ∧
      p.2.lines = [Line.ofText plain twoLines]))
    (by decide +kernel) (by decide +kernel)
  obtain ⟨hwire, hlines⟩ := of_decide_eq_true hp
  have hfirst : repliesTwoLines.map Prod.fst = (pool.sessions 0).wire.reverse := by
    rw [hwire]
    rfl
  have hcut : ∀ chunk ∈ [encode (repliesTwoLines.flatMap fun w ↦
      textOf plain (fun _ ↦ "1") w.1 w.2 ++ ['\n'])], IsUtf8 chunk := by
    intro chunk hchunk
    exact ⟨_, List.mem_singleton.mp hchunk⟩
  refine ⟨pool, record, hpool, hfirst, ?_⟩
  exact (wire_reads_back settings plain (fun _ ↦ "1") lawful_plain (fun _ ↦ by decide) 0 pool 0
    record hpool [twoLines] hlines repliesTwoLines hfirst _ hcut (List.append_nil _)).1

end Sample

end ElektronPool.Wire
