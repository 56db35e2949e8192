import ElektronPool.Model.SubscribeMessage
import ElektronPool.Reference

namespace ElektronPool.UserAgents

open Lib Lib.JavaScript Model Model.View

variable {toLowerCase : String → String} {settings : UserAgentSettings}

/-- Some entry of the list that is not blank occurs in the user agent, in upper or lower case. -/
def Names (toLowerCase : String → String) (list : Option String) (userAgent : String) : Prop :=
  ∃ entry ∈ (list.map fun s ↦ split s ',').getD [], trim entry ≠ "" ∧
    includes (toLowerCase userAgent) (toLowerCase (trim entry)) = true

instance (list : Option String) (userAgent : String) :
    Decidable (Names toLowerCase list userAgent) :=
  inferInstanceAs (Decidable (∃ entry ∈ _, _))

def allocation (session : Session) :
    Option ℕ × Option String × Option StratumV1ClientStatistics × Bool :=
  (session.sessionStart, session.extraNonceAndSessionId, session.statistics,
    session.isHobbyMinerSession)

/-- What the lists ask of a subscription: an agent on the block list is cut off
and gets no session, and one that gets a session has it in hobby mode if it is on
the other list. -/
structure Obeys (toLowerCase : String → String) (settings : UserAgentSettings) (raw : String)
    (session session' : Session) : Prop where
  blocked : Names toLowerCase settings.blockList raw →
    session'.connectionClosed = true ∧ session'.socketDestroyed = true ∧
      allocation session' = allocation session
  hobby : session.sessionStart = none → session'.sessionStart ≠ none →
    (session'.isHobbyMinerSession = true ↔ Names toLowerCase settings.hobbyMinerUserAgents raw)

def firstWord (raw : String) : String :=
  String.ofList (raw.toList.takeWhile fun c ↦ c ∉ [' ', '/', 'V', '-'])

/-- What is left of a user agent: its first word, or the family that this word names. -/
def reported (raw : String) : String :=
  if "bosminer".toList <:+: (firstWord raw).toList ∨ "bOS".toList <:+: (firstWord raw).toList then
    "Braiins OS"
  else if "cpuminer".toList <:+: (firstWord raw).toList then "cpuminer"
  else firstWord raw

section Refine

theorem exists_splitOn_eq_cons {α : Type*} [BEq α] [LawfulBEq α] (a : α) (xs : List α) :
    ∃ rest, xs.splitOn a = xs.takeWhile (· != a) :: rest := by
  by_cases h : a ∈ xs
  · obtain ⟨us, vs, rfl, hus⟩ := List.eq_append_cons_of_mem h
    have htake : (us ++ a :: vs).takeWhile (· != a) = us := by
      have hall : ∀ x ∈ us, (x != a) = true := fun x hx ↦ by
        simpa using fun heq : x = a ↦ hus (heq ▸ hx)
      rw [List.takeWhile_append_of_pos hall]
      simp
    rw [htake, List.splitOn_append_cons_self, List.splitOn_eq_singleton hus]
    exact ⟨_, rfl⟩
  · have hall : ∀ x ∈ xs, (x != a) = true := fun x hx ↦ by
      simpa using fun heq : x = a ↦ h (heq ▸ hx)
    rw [List.splitOn_eq_singleton h, List.takeWhile_eq_self_iff.mpr hall]
    exact ⟨[], rfl⟩

theorem toList_firstPart (separator : Char) (s : String) :
    (SubscriptionMessage.firstPart separator s).toList = s.toList.takeWhile (· != separator) := by
  obtain ⟨rest, hsplit⟩ := exists_splitOn_eq_cons separator s.toList
  rw [SubscriptionMessage.firstPart, split, hsplit, List.map_cons, List.headD_cons,
    String.toList_ofList]

theorem includes_iff {s needle : String} :
    includes s needle = true ↔ needle.toList <:+: s.toList := by
  rw [includes, decide_eq_true_eq]

theorem firstPart_eq (raw : String) :
    SubscriptionMessage.firstPart '-' (SubscriptionMessage.firstPart 'V'
      (SubscriptionMessage.firstPart '/' (SubscriptionMessage.firstPart ' ' raw))) =
      firstWord raw := by
  rw [← String.toList_inj, firstWord, String.toList_ofList]
  rw [toList_firstPart, toList_firstPart, toList_firstPart, toList_firstPart,
    List.takeWhile_takeWhile, List.takeWhile_takeWhile, List.takeWhile_takeWhile]
  have hcut (c : Char) :
      decide (decide (decide ((c != '-') = true ∧ (c != 'V') = true) = true ∧
        (c != '/') = true) = true ∧ (c != ' ') = true) = decide (c ∉ [' ', '/', 'V', '-']) := by
    simp only [bne_iff_ne, decide_eq_true_eq, decide_eq_decide, List.mem_cons, List.not_mem_nil,
      or_false, not_or]
    tauto
  simp only [hcut]

theorem refineUserAgent_eq (raw : String) :
    SubscriptionMessage.refineUserAgent raw = reported raw := by
  have hbos : (includes (firstWord raw) "bosminer" || includes (firstWord raw) "bOS") = true ↔
      "bosminer".toList <:+: (firstWord raw).toList ∨ "bOS".toList <:+: (firstWord raw).toList := by
    rw [Bool.or_eq_true, includes_iff, includes_iff]
  unfold reported
  rw [SubscriptionMessage.refineUserAgent, firstPart_eq]
  refine if_congr hbos rfl ?_
  refine if_congr includes_iff ?_ ?_
  · rfl
  · rfl

end Refine

section Lists

theorem trim_eq_empty_iff {s : String} : trim s = "" ↔ ∀ c ∈ s.toList, isWhiteSpace c = true := by
  rw [trim, ← String.toList_inj, String.toList_ofList, String.toList_empty,
    List.rdropWhile_eq_nil_iff]
  constructor
  · intro h
    -- the first character left over at the front would be no white space
    rw [← List.dropWhile_eq_nil_iff]
    by_contra hne
    exact Bool.false_ne_true
      ((List.head_dropWhile_not isWhiteSpace hne).symm.trans (h _ (List.head_mem hne)))
  · intro h c hc
    exact h c ((List.dropWhile_suffix _).subset hc)

theorem trim_of_mem_split {list entry : String} (h : trim list = "") (hentry : entry ∈ split list ',') :
    trim entry = "" := by
  have hblank := trim_eq_empty_iff.mp h
  have hcomma : ',' ∉ list.toList := fun hmem ↦ absurd (hblank _ hmem) (by decide)
  rw [split, List.splitOn_eq_singleton hcomma, List.map_singleton, String.ofList_toList,
    List.mem_singleton] at hentry
  rw [hentry, h]

theorem not_names_of_blank {list : String} (h : trim list = "") (userAgent : String) :
    ¬ Names toLowerCase (some list) userAgent := by
  rintro ⟨entry, hentry, hne, -⟩
  exact hne (trim_of_mem_split h hentry)

variable (hlower : ∀ s, toLowerCase s = "" ↔ s = "")

include hlower

theorem any_split_iff (list userAgent : String) :
    (split list ',').any (fun ua ↦ 0 < (toLowerCase (trim ua)).length &&
      includes (toLowerCase userAgent) (toLowerCase (trim ua))) = true ↔
      Names toLowerCase (some list) userAgent := by
  have hlength (s : String) : 0 < (toLowerCase s).length ↔ s ≠ "" := by
    rw [Nat.pos_iff_ne_zero, ne_eq, String.length_eq_zero_iff, hlower]
  simp only [List.any_eq_true, Bool.and_eq_true, decide_eq_true_eq, hlength]
  rfl

theorem not_names_empty (list : Option String) : ¬ Names toLowerCase list "" := by
  rintro ⟨entry, -, hne, hin⟩
  rw [(hlower "").mpr rfl, includes_iff, String.toList_empty, List.infix_nil,
    String.toList_eq_nil_iff, hlower] at hin
  exact hne hin

theorem isBlockedUserAgent_iff (userAgent : String) :
    settings.isBlockedUserAgent toLowerCase userAgent = true ↔
      Names toLowerCase settings.blockList userAgent := by
  rw [UserAgentSettings.isBlockedUserAgent]
  cases settings.blockList with
  | none => simp [Names]
  | some list =>
    by_cases hblank : trim list = ""
    · simp only [hblank, if_true, Bool.false_eq_true, not_names_of_blank hblank]
    · simp only [hblank, if_false, List.any_map]
      exact any_split_iff hlower list userAgent

theorem isHobbyMiner_iff (userAgent : String) :
    settings.isHobbyMiner toLowerCase userAgent = true ↔
      Names toLowerCase settings.hobbyMinerUserAgents userAgent := by
  rw [UserAgentSettings.isHobbyMiner]
  cases settings.hobbyMinerUserAgents with
  | none => simp [Names]
  | some list =>
    by_cases hblank : trim list = ""
    · simp [hblank, not_names_of_blank hblank]
    · by_cases hempty : userAgent = ""
      · subst hempty
        simp [not_names_empty hlower]
      · simp only [hblank, hempty, Bool.or_self, decide_false, Bool.false_eq_true, if_false,
          List.any_filter, List.any_map]
        exact any_split_iff hlower list userAgent

end Lists

section Subscription

variable {cfg : Config} {message : SubscriptionMessage} (v : View) (rest : List Line)

theorem allocation_nextLines :
    allocation (v.nextLines rest).session = allocation v.session := by
  rw [nextLines]
  split_ifs <;> rfl

theorem nextLines_closed :
    (v.nextLines rest).session.connectionClosed = v.session.connectionClosed ∧
      (v.nextLines rest).session.socketDestroyed = v.session.socketDestroyed := by
  rw [nextLines]
  split_ifs <;> exact ⟨rfl, rfl⟩

theorem write_open (reply : Message) (after : AfterWrite) :
    (v.write reply after rest).session.connectionClosed = v.session.connectionClosed ∧
      allocation (v.write reply after rest).session = allocation v.session := by
  rw [write]
  split_ifs
  · exact ⟨(nextLines_closed v rest).1, allocation_nextLines v rest⟩
  · exact ⟨rfl, rfl⟩

theorem closeSocket_closed :
    v.closeSocket.session.connectionClosed = true ∧ v.closeSocket.session.socketDestroyed = true ∧
      allocation v.closeSocket.session = allocation v.session := by
  rw [closeSocket, destroy]
  split_ifs
  · exact ⟨rfl, rfl, rfl⟩
  · cases hid : (v.update fun s ↦ { s with connectionClosed := true }).session.extraNonceAndSessionId
    · exact ⟨rfl, rfl, rfl⟩
    · exact ⟨rfl, rfl, rfl⟩

theorem subscribe_of_blocked (h : cfg.isBlockedUserAgent message.userAgent = true) :
    (v.subscribe cfg rest message).session.connectionClosed = true ∧
      (v.subscribe cfg rest message).session.socketDestroyed = true ∧
      allocation (v.subscribe cfg rest message).session = allocation v.session := by
  obtain ⟨hclosed, hdestroyed, hallocation⟩ := closeSocket_closed v
  rw [View.subscribe, if_pos h, allocation_nextLines, (nextLines_closed _ _).1,
    (nextLines_closed _ _).2]
  exact ⟨hclosed, hdestroyed, hallocation⟩

theorem subscribe_of_not_blocked (h : cfg.isBlockedUserAgent message.userAgent = false) :
    (v.subscribe cfg rest message).session.connectionClosed = v.session.connectionClosed ∧
      (v.session.sessionStart = none →
        (v.subscribe cfg rest message).session.sessionStart = some v.now ∧
        (v.subscribe cfg rest message).session.isHobbyMinerSession =
          cfg.isHobbyMiner message.userAgent) := by
  rw [View.subscribe, if_neg (Bool.eq_false_iff.mp h)]
  by_cases hstart : v.session.sessionStart = none
  · rw [if_pos hstart]
    obtain ⟨hclosed, hallocation⟩ := write_open _ _ _ _
    refine ⟨hclosed, fun _ ↦ ⟨?_, ?_⟩⟩
    · exact congrArg (fun a ↦ a.1) hallocation
    · exact congrArg (fun a ↦ a.2.2.2) hallocation
  · rw [if_neg hstart]
    exact ⟨(write_open _ _ _ _).1, fun hnone ↦ absurd hnone hstart⟩

theorem userAgent_of_line {lib : RequestLibrary} {request : SubscribeRequest} {raw : String}
    (hraw : request.rawUserAgent = some (.string raw))
    (hvalid : SubscribeRequest.line lib request = .subscribe message) :
    message.userAgent = reported raw := by
  have hagent : request.userAgent = some (reported raw) := by
    rw [SubscribeRequest.userAgent, hraw, ← refineUserAgent_eq]
    rfl
  rw [SubscribeRequest.line, hagent] at hvalid
  simp only at hvalid
  split_ifs at hvalid
  split at hvalid
  · injection hvalid with hmessage
    rw [← hmessage]
  · split_ifs at hvalid

end Subscription

/-- The lists are obeyed exactly where what is left of the user agent still has
the entries that occur in it. -/
theorem obeys_iff (hlower : ∀ s, toLowerCase s = "" ↔ s = "") {cfg : Config} {v : View}
    {rest : List Line} {lib : RequestLibrary} {request : SubscribeRequest} {raw : String}
    {message : SubscriptionMessage} (hraw : request.rawUserAgent = some (.string raw))
    (hvalid : SubscribeRequest.line lib request = .subscribe message)
    (hopen : v.hasStopped = false) :
    Obeys toLowerCase settings raw v.session
        (v.handleLines (settings.configure toLowerCase cfg)
          (SubscribeRequest.line lib request :: rest)).session ↔
      (Names toLowerCase settings.blockList raw →
        Names toLowerCase settings.blockList (reported raw)) ∧
      (v.session.sessionStart = none → ¬ Names toLowerCase settings.blockList (reported raw) →
        (Names toLowerCase settings.hobbyMinerUserAgents (reported raw) ↔
          Names toLowerCase settings.hobbyMinerUserAgents raw)) := by
  have hagent := userAgent_of_line hraw hvalid
  have hhandle : v.handleLines (settings.configure toLowerCase cfg)
      (SubscribeRequest.line lib request :: rest) =
      v.subscribe (settings.configure toLowerCase cfg) rest message := by
    rw [handleLines, if_neg (Bool.eq_false_iff.mp hopen), hvalid, handleMessage]
  have hblock : (settings.configure toLowerCase cfg).isBlockedUserAgent message.userAgent = true ↔
      Names toLowerCase settings.blockList (reported raw) := by
    rw [← hagent]
    exact isBlockedUserAgent_iff hlower _
  have hhobby : (settings.configure toLowerCase cfg).isHobbyMiner message.userAgent = true ↔
      Names toLowerCase settings.hobbyMinerUserAgents (reported raw) := by
    rw [← hagent]
    exact isHobbyMiner_iff hlower _
  rw [hhandle]
  by_cases hblocked : Names toLowerCase settings.blockList (reported raw)
  · obtain ⟨hclosed, hdestroyed, hallocation⟩ :=
      subscribe_of_blocked v rest (hblock.mpr hblocked)
    constructor
    · intro _
      exact ⟨fun _ ↦ hblocked, fun _ hnot ↦ absurd hblocked hnot⟩
    · intro _
      constructor
      · intro _
        exact ⟨hclosed, hdestroyed, hallocation⟩
      · intro hnone hsome
        exact absurd ((congrArg (fun a ↦ a.1) hallocation).trans hnone) hsome
  · obtain ⟨hclosed, hstarted⟩ := subscribe_of_not_blocked v rest
      (Bool.eq_false_iff.mpr (mt hblock.mp hblocked))
    have hconnected : v.session.connectionClosed = false := by
      rw [hasStopped, Bool.or_eq_false_iff, Bool.or_eq_false_iff] at hopen
      exact hopen.1.1
    constructor
    · intro h
      constructor
      · intro hnames
        have hafter := hclosed.symm.trans (h.blocked hnames).1
        exact absurd (hafter.symm.trans hconnected) (by decide)
      · intro hnone _
        obtain ⟨hstart, hmode⟩ := hstarted hnone
        have hsome : (v.subscribe (settings.configure toLowerCase cfg) rest
            message).session.sessionStart ≠ none := by
          rw [hstart]
          exact Option.some_ne_none _
        rw [← h.hobby hnone hsome, hmode, hhobby]
    · rintro ⟨hnames, hsame⟩
      constructor
      · intro hraw
        exact absurd (hnames hraw) hblocked
      · intro hnone _
        rw [(hstarted hnone).2, hhobby, hsame hnone hblocked]

section Firmware

def lowered (s : String) : String := String.ofList (s.toList.map Char.toLower)

theorem lowered_eq_empty (s : String) : lowered s = "" ↔ s = "" := by
  rw [lowered, ← String.toList_inj, String.toList_ofList, String.toList_empty, List.map_eq_nil_iff,
    String.toList_eq_nil_iff]

def blocking (userAgent : String) : UserAgentSettings :=
  ⟨some userAgent, none, none, some "NerdAxe,NerdQAxe"⟩

def plain : RequestLibrary := ⟨some, some, fun _ ↦ none, String.length⟩

def naming (userAgent : String) : SubscribeRequest :=
  [("id", .number "1"), ("method", .string "mining.subscribe"),
    ("params", .array [.string userAgent])]

def connected : View where
  now := 0
  self := 0
  jobsService := {}
  session := { connected := true, randomHex := "aabbccdd" }
  history := []
  crashed := false

theorem obeys_iff_nmMiner :
    Obeys lowered (blocking "NMMiner") "NMMiner/1.0" connected.session
        (connected.handleLines ((blocking "NMMiner").configure lowered Reference.settings)
          [SubscribeRequest.line plain (naming "NMMiner/1.0")]).session ↔
      (Names lowered (blocking "NMMiner").blockList "NMMiner/1.0" →
        Names lowered (blocking "NMMiner").blockList (reported "NMMiner/1.0")) ∧
      (connected.session.sessionStart = none →
        ¬ Names lowered (blocking "NMMiner").blockList (reported "NMMiner/1.0") →
        (Names lowered (blocking "NMMiner").hobbyMinerUserAgents (reported "NMMiner/1.0") ↔
          Names lowered (blocking "NMMiner").hobbyMinerUserAgents "NMMiner/1.0")) :=
  have hvalid : SubscribeRequest.line plain (naming "NMMiner/1.0") = .subscribe ⟨"1", "NMMiner"⟩ := by
    decide +kernel
  obeys_iff lowered_eq_empty rfl hvalid rfl

/-- A list that names a version never matches, since versions are cut off first. -/
theorem not_obeys :
    ¬ ∀ (settings : UserAgentSettings) (raw : String) (v : View) (cfg : Config) (rest : List Line)
        (request : SubscribeRequest) (message : SubscriptionMessage),
      request.rawUserAgent = some (.string raw) →
      SubscribeRequest.line plain request = .subscribe message → v.hasStopped = false →
      Obeys lowered settings raw v.session
        (v.handleLines (settings.configure lowered cfg)
          (SubscribeRequest.line plain request :: rest)).session := by
  intro h
  have hobeys := h (blocking "NerdMinerV2") "NerdMinerV2/1.0" connected Reference.settings []
    (naming "NerdMinerV2/1.0") ⟨"1", "NerdMiner"⟩ rfl (by decide +kernel) rfl
  have hnames : Names lowered (blocking "NerdMinerV2").blockList "NerdMinerV2/1.0" := by
    decide +kernel
  exact absurd (hobeys.blocked hnames).1 (by decide +kernel)

end Firmware

end ElektronPool.UserAgents
