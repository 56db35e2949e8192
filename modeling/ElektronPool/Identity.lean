import ElektronPool.Reference
import ElektronPool.Talk.Says
import ElektronPool.Work.Sessions
import ElektronPool.Moves

namespace ElektronPool.Identity

open Lib Lib.JavaScript Lib.Runs Model Model.View Work Moves
open Talk (isShare)

variable {cfg : Config} {v₀ v v' : View} {e : SessionEvent} {calls : List Call}
  {message : Message} {self : SessionId}

def namedSession : Call → Option (Option String)
  | .deleteClient sessionId => some (some sessionId)
  | .saveBlock _ _ _ sessionId _ => some sessionId
  | .insertClient partialClient => some (some partialClient.sessionId)
  | .statistics call => some (some (statisticsKey call).sessionId)
  | .heartbeat _ _ sessionId _ _ => some (some sessionId)
  | .updateClientBest sessionId _ => some sessionId
  | _ => none

def usedRow : Call → Option RowKey
  | .statistics call => some (statisticsKey call)
  | .heartbeat address clientName sessionId _ _ => some ⟨address, clientName, sessionId⟩
  | _ => none

def isInsert : Call → Bool
  | .insertClient _ => true
  | _ => false

def callsOf (self : SessionId) (history : List Entry) : List Call :=
  history.filterMap fun entry ↦
    match entry with
    | .call id _ call => if id = self then some call else none
    | _ => none

def Inserted (calls : List Call) (key : RowKey) : Prop :=
  ∃ partialClient, .insertClient partialClient ∈ calls ∧ keyOf partialClient = key

def UsesInserted (calls : List Call) : Prop :=
  ∀ later call earlier, calls = later ++ call :: earlier → ∀ key, usedRow call = some key →
    Inserted earlier key

/-- The extranonce a session is told: its id if it is a slow miner's, or none. -/
def extranonce1 (isHobbyMinerSession : Bool) (randomHex : String) : String :=
  if isHobbyMinerSession then randomHex else ""

/-- What of a session shows who it is. -/
structure Face where
  randomHex : String
  clientSubscription : Option SubscriptionMessage
  stratumInitialized : Bool
  isHobbyMinerSession : Bool
  row : Option RowKey
  creatingEntity : Option CreatingEntity
  extraNonceAndSessionId : Option String
  sessionStart : Option ℕ
  tasks : List Task
  wire : List Message

def face (p : Profile) : Face where
  randomHex := p.randomHex
  clientSubscription := p.clientSubscription
  stratumInitialized := p.stratumInitialized
  isHobbyMinerSession := p.isHobbyMinerSession
  row := p.row
  creatingEntity := p.creatingEntity
  extraNonceAndSessionId := p.extraNonceAndSessionId
  sessionStart := p.sessionStart
  tasks := p.tasks
  wire := p.wire

variable {p : Face}

/-- A session goes by the one id that was drawn for it. -/
structure Identified (p : Face) (calls : List Call) : Prop where
  started : p.sessionStart ≠ none → p.extraNonceAndSessionId = some p.randomHex
  known : p.extraNonceAndSessionId ≠ none → p.sessionStart ≠ none
  subscription : p.clientSubscription ≠ none → p.sessionStart ≠ none
  initialized : p.stratumInitialized = true → p.sessionStart ≠ none
  shares : ∀ task ∈ p.tasks, isShare task = true → p.sessionStart ≠ none
  told : ∀ id sessionId extranonce, .subscribed id sessionId extranonce ∈ p.wire →
    p.sessionStart ≠ none ∧ sessionId = some p.randomHex ∧
      extranonce = some (extranonce1 p.isHobbyMinerSession p.randomHex)
  silent : p.sessionStart = none → calls = []
  named : ∀ call ∈ calls, ∀ sessionId, namedSession call = some sessionId →
    sessionId = some p.randomHex
  row : ∀ key, p.row = some key → Inserted calls key
  pending : ∀ partialClient, .insertClient partialClient ∈ p.tasks →
    Inserted calls (keyOf partialClient)
  used : UsesInserted calls
  uncreated : p.creatingEntity = none → ∀ call ∈ calls, isInsert call = false
  once : (calls.filter isInsert).length ≤ 1

section Growth

variable {c : Call}

theorem Inserted.cons {key : RowKey} (h : Inserted calls key) (call : Call) :
    Inserted (call :: calls) key := by
  obtain ⟨partialClient, hmem, hkey⟩ := h
  exact ⟨partialClient, List.mem_cons_of_mem _ hmem, hkey⟩

theorem UsesInserted.cons (h : UsesInserted calls)
    (hused : ∀ key, usedRow c = some key → Inserted calls key) : UsesInserted (c :: calls) := by
  intro later call earlier heq key hkey
  cases later with
  | nil =>
    obtain ⟨rfl, rfl⟩ := List.cons.inj heq
    exact hused key hkey
  | cons first later => exact h later call earlier (List.cons.inj heq).2 key hkey

theorem Identified.tasks (h : Identified p calls) {tasks : List Task}
    (htasks : ∀ task ∈ tasks, task ∈ p.tasks ∨ (isShare task = true → p.sessionStart ≠ none) ∧
      ∀ partialClient, task = .insertClient partialClient →
        Inserted calls (keyOf partialClient)) :
    Identified { p with tasks } calls := by
  refine ⟨h.started, h.known, h.subscription, h.initialized, fun task hmem hshare ↦ ?_, h.told,
    h.silent, h.named, h.row, fun partialClient hmem ↦ ?_, h.used, h.uncreated, h.once⟩
  · rcases htasks task hmem with hold | ⟨hnew, -⟩
    · exact h.shares task hold hshare
    · exact hnew hshare
  · rcases htasks _ hmem with hold | ⟨-, hnew⟩
    · exact h.pending partialClient hold
    · exact hnew partialClient rfl

theorem Identified.push (h : Identified p calls) {task : Task}
    (hshare : isShare task = true → p.sessionStart ≠ none)
    (hinsert : ∀ partialClient, task = .insertClient partialClient →
      Inserted calls (keyOf partialClient)) :
    Identified { p with tasks := p.tasks ++ [task] } calls := by
  apply h.tasks
  intro other hmem
  rcases List.mem_append.mp hmem with hold | hnew
  · exact .inl hold
  · rw [List.mem_singleton.mp hnew]
    exact .inr ⟨hshare, hinsert⟩

/-- A line that is no answer to a subscription, or the answer that the session stands for. -/
theorem Identified.send (h : Identified p calls)
    (hmessage : ∀ id sessionId extranonce, message = .subscribed id sessionId extranonce →
      p.sessionStart ≠ none ∧ sessionId = p.extraNonceAndSessionId ∧
        extranonce = (if p.isHobbyMinerSession then p.extraNonceAndSessionId else some "")) :
    Identified { p with wire := message :: p.wire } calls := by
  refine ⟨h.started, h.known, h.subscription, h.initialized, h.shares, fun id sessionId extranonce
    hmem ↦ ?_, h.silent, h.named, h.row, h.pending, h.used, h.uncreated, h.once⟩
  rcases List.mem_cons.mp hmem with hnew | hold
  · obtain ⟨hstart, rfl, rfl⟩ := hmessage id sessionId extranonce hnew.symm
    refine ⟨hstart, h.started hstart, ?_⟩
    rw [h.started hstart, extranonce1]
    split
    · rfl
    · rfl
  · exact h.told id sessionId extranonce hold

theorem Identified.log (h : Identified p calls) (hstart : p.sessionStart ≠ none)
    (hnamed : ∀ sessionId, namedSession c = some sessionId →
      sessionId = p.extraNonceAndSessionId)
    (hrow : ∀ key, usedRow c = some key → p.row = some key) (hinsert : isInsert c = false) :
    Identified p (c :: calls) := by
  refine ⟨h.started, h.known, h.subscription, h.initialized, h.shares, h.told,
    fun hnone ↦ absurd hnone hstart, fun other hmem sessionId hsession ↦ ?_,
    fun key hkey ↦ (h.row key hkey).cons c,
    fun partialClient hmem ↦ (h.pending partialClient hmem).cons c,
    h.used.cons fun key hkey ↦ h.row key (hrow key hkey), fun hnone other hmem ↦ ?_, ?_⟩
  · rcases List.mem_cons.mp hmem with rfl | hold
    · exact (hnamed sessionId hsession).trans (h.started hstart)
    · exact h.named other hold sessionId hsession
  · rcases List.mem_cons.mp hmem with rfl | hold
    · exact hinsert
    · exact h.uncreated hnone other hold
  · rw [List.filter_cons_of_neg (by rw [hinsert]; exact Bool.false_ne_true)]
    exact h.once

theorem callsOf_call (self : SessionId) (share : Option Share) (c : Call) (history : List Entry) :
    callsOf self (.call self share c :: history) = c :: callsOf self history := by
  rw [callsOf, List.filterMap_cons_some (by exact if_pos rfl), callsOf]

end Growth

section Moves

structure Along (v₀ v : View) : Prop where
  connected : v.session.connected = true
  started : v₀.session.sessionStart ≠ none → v.session.sessionStart ≠ none
  calls : callsOf v₀.self v₀.history ⊆ callsOf v.self v.history
  identified : Identified (face (profile v.session)) (callsOf v.self v.history)

theorem Along.write (h : Along v₀ v) {after : AfterWrite} (rest : List Line)
    (hmessage : ∀ id sessionId extranonce, message = .subscribed id sessionId extranonce →
      v.session.sessionStart ≠ none ∧ sessionId = v.session.extraNonceAndSessionId ∧
        extranonce =
          if v.session.isHobbyMinerSession then v.session.extraNonceAndSessionId else some "")
    (hafter : isShare (.write after rest) = true → v.session.sessionStart ≠ none) :
    Along v₀ (v.write message after rest) := by
  rw [View.write, View.nextLines]
  split
  · split
    · exact h
    · refine ⟨h.connected, h.started, h.calls, h.identified.push (fun hshare ↦ ?_) fun _ htask ↦ ?_⟩
      · cases hshare
      · cases htask
  · refine ⟨h.connected, h.started, h.calls, (h.identified.send hmessage).push hafter
      fun _ htask ↦ ?_⟩
    cases htask

theorem started_of_continues (h₀ : Along v₀ v₀) {share : Share} (h : Continues v₀ e share) :
    v₀.session.sessionStart ≠ none := by
  cases h with
  | accepted rest hresumed => exact h₀.identified.shares _ (mem_of_resumed hresumed) rfl
  | waiting wait rest hresumed => exact h₀.identified.shares _ (mem_of_resumed hresumed) rfl

/-- A call about a share is made for the session and its row. -/
theorem Along.call (h : Along v₀ v) {share : Share} {c : Call} (hcalls : Calls cfg v share c)
    (hstart : v.session.sessionStart ≠ none) : Along v₀ (v.log (.call v.self (some share) c)) := by
  refine ⟨h.connected, h.started, fun other hmem ↦ ?_, ?_⟩
  · change other ∈ callsOf v.self (.call v.self (some share) c :: v.history)
    rw [callsOf_call]
    exact List.mem_cons_of_mem c (h.calls hmem)
  · change Identified (face (profile v.session))
      (callsOf v.self (.call v.self (some share) c :: v.history))
    rw [callsOf_call]
    have hnone (hnamed : namedSession c = none) (hused : usedRow c = none)
        (hinsert : isInsert c = false) :
        Identified (face (profile v.session)) (c :: callsOf v.self v.history) := by
      refine h.identified.log hstart (fun _ hsome ↦ ?_) (fun _ hsome ↦ ?_) hinsert
      · rw [hnamed] at hsome
        cases hsome
      · rw [hused] at hsome
        cases hsome
    have hrow {entity : ClientEntity} (hentity : v.session.entity = some entity) :
        (face (profile v.session)).row = some (keyOf entity) := by
      change v.session.entity.map keyOf = _
      rw [hentity]
      rfl
    have hid {entity : ClientEntity} (hentity : v.session.entity = some entity) :
        some entity.sessionId = v.session.extraNonceAndSessionId := by
      obtain ⟨partialClient, hmem, hkey⟩ := h.identified.row _ (hrow hentity)
      have hnamed := h.identified.named _ hmem (some partialClient.sessionId) rfl
      rw [show partialClient.sessionId = entity.sessionId from congrArg RowKey.sessionId hkey]
        at hnamed
      exact hnamed.trans (h.identified.started hstart).symm
    cases hcalls with
    | submitBlock | notifySubscribersBlockFound | resetBestDifficultyAndShares | reportBlockFound
    | updateAddressBest | submitExternalShare => exact hnone rfl rfl rfl
    | saveBlock =>
      refine h.identified.log hstart (fun _ hsome ↦ ?_) (fun _ hsome ↦ ?_) rfl
      · cases hsome
        rfl
      · cases hsome
    | updateClientBest =>
      refine h.identified.log hstart (fun _ hsome ↦ ?_) (fun _ hsome ↦ ?_) rfl
      · cases hsome
        rfl
      · cases hsome
    | statistics saved entity hentity hkey =>
      refine h.identified.log hstart (fun _ hsome ↦ ?_) (fun _ hsome ↦ ?_) rfl
      · cases hsome
        rw [hkey]
        exact hid hentity
      · cases hsome
        rw [hkey]
        exact hrow hentity
    | heartbeat entity hashRate updatedAt hentity =>
      refine h.identified.log hstart (fun _ hsome ↦ ?_) (fun _ hsome ↦ ?_) rfl
      · cases hsome
        exact hid hentity
      · cases hsome
        exact hrow hentity

theorem Along.log (h : Along v₀ v) (h₀ : Along v₀ v₀) {entry : Entry}
    (hlogs : Logs cfg v₀ e v entry) : Along v₀ (v.log entry) := by
  cases hlogs with
  | template | evaluated | acknowledged | credited =>
    exact ⟨h.connected, h.started, h.calls, h.identified⟩
  | call share c hshare hcalls =>
    exact h.call hcalls (h.started (started_of_continues h₀ hshare))
  | deleted sessionId hsession =>
    have hknown : v.session.sessionStart ≠ none := by
      apply h.identified.known
      change v.session.extraNonceAndSessionId ≠ none
      rw [hsession]
      exact Option.some_ne_none _
    refine ⟨h.connected, h.started, fun other hmem ↦ ?_, ?_⟩
    · change other ∈ callsOf v.self (.call v.self none (.deleteClient sessionId) :: v.history)
      rw [callsOf_call]
      exact List.mem_cons_of_mem _ (h.calls hmem)
    · change Identified (face (profile v.session))
        (callsOf v.self (.call v.self none (.deleteClient sessionId) :: v.history))
      rw [callsOf_call]
      refine h.identified.log hknown (fun _ hsome ↦ ?_) (fun _ hsome ↦ ?_) rfl
      · cases hsome
        exact hsession.symm
      · cases hsome

theorem Along.begin (h : Along v₀ v) (hstart : v.session.sessionStart = none)
    (isHobbyMinerSession : Bool) :
    Along v₀ (v.update fun s ↦
      { s with
        sessionStart := some v.now
        statistics := some { submissionCacheStart := v.now }
        extraNonceAndSessionId := some s.randomHex
        isHobbyMinerSession }) := by
  have hnone : callsOf v.self v.history = [] := h.identified.silent hstart
  have hsome : some v.now ≠ none := Option.some_ne_none v.now
  refine ⟨h.connected, fun _ ↦ hsome, h.calls, ⟨fun _ ↦ rfl, fun _ ↦ hsome, fun _ ↦ hsome,
    fun _ ↦ hsome, fun _ _ _ ↦ hsome, fun id sessionId extranonce hmem ↦ ?_, fun hstart ↦ ?_,
    h.identified.named, h.identified.row, h.identified.pending, h.identified.used,
    h.identified.uncreated, h.identified.once⟩⟩
  · exact absurd hstart (h.identified.told id sessionId extranonce hmem).1
  · cases hstart

theorem Along.create (h : Along v₀ v) (h₀ : Along v₀ v₀) {share : Share}
    (hshare : Continues v₀ e share) (hcreating : v.session.creatingEntity = none)
    (authorization : AuthorizationMessage) (subscription : SubscriptionMessage) :
    Along v₀ (((v.update fun s ↦ { s with creatingEntity := some .pending }).call (some share)
      (.insertClient (newRow v.session authorization subscription))).suspend
        (.insertClient (newRow v.session authorization subscription))) := by
  have hstart : v.session.sessionStart ≠ none := h.started (started_of_continues h₀ hshare)
  have hid : v.session.extraNonceAndSessionId = some v.session.randomHex :=
    h.identified.started hstart
  generalize hrow : newRow v.session authorization subscription = partialClient
  have hsession : partialClient.sessionId = v.session.randomHex := by
    rw [← hrow]
    change v.session.extraNonceAndSessionId.getD "" = _
    rw [hid]
    rfl
  have hself : Inserted (.insertClient partialClient :: callsOf v.self v.history)
      (keyOf partialClient) := ⟨partialClient, List.mem_cons_self, rfl⟩
  have huncreated := h.identified.uncreated hcreating
  refine ⟨h.connected, h.started, fun other hmem ↦ ?_, ?_⟩
  · change other ∈ callsOf v.self (.call v.self (some share) (.insertClient partialClient) :: v.history)
    rw [callsOf_call]
    exact List.mem_cons_of_mem _ (h.calls hmem)
  · change Identified _
      (callsOf v.self (.call v.self (some share) (.insertClient partialClient) :: v.history))
    rw [callsOf_call]
    apply Identified.push (p := { face (profile v.session) with creatingEntity := some .pending })
    · refine ⟨h.identified.started, h.identified.known, h.identified.subscription,
        h.identified.initialized, h.identified.shares, h.identified.told,
        fun hnone ↦ absurd hnone hstart, fun other hmem sessionId hnamed ↦ ?_,
        fun key hkey ↦ (h.identified.row key hkey).cons _,
        fun other hmem ↦ (h.identified.pending other hmem).cons _,
        h.identified.used.cons (fun _ hkey ↦ by cases hkey), fun hnone ↦ ?_, ?_⟩
      · rcases List.mem_cons.mp hmem with rfl | hold
        · cases hnamed
          rw [hsession]
          rfl
        · exact h.identified.named other hold sessionId hnamed
      · cases hnone
      · rw [List.filter_cons_of_pos (by rfl), List.filter_eq_nil_iff.mpr fun other hmem ↦ ?_]
        · exact le_rfl
        · rw [huncreated other hmem]
          exact Bool.false_ne_true
    · exact fun _ ↦ hstart
    · intro other htask
      cases htask
      exact hself

theorem Along.move (h : Along v₀ v) (h₀ : Along v₀ v₀) (hmove : Move cfg v₀ e v v') :
    Along v₀ v' := by
  cases hmove with
  | connect randomHex hconnected =>
    rw [h.connected] at hconnected
    cases hconnected
  | disconnect | destroySocket | endSocket | unwritable | halt | start | cache | build | addJob
  | crash => exact ⟨h.connected, h.started, h.calls, h.identified⟩
  | erase i =>
    refine ⟨h.connected, h.started, h.calls, h.identified.tasks fun task hmem ↦ ?_⟩
    exact .inl (List.mem_of_mem_eraseIdx hmem)
  | wait task hwaits =>
    refine ⟨h.connected, h.started, h.calls, h.identified.push (fun hshare ↦ ?_)
      fun _ htask ↦ ?_⟩
    · cases hwaits with
      | lines | template => cases hshare
      | share share wait rest hcontinues => exact h.started (started_of_continues h₀ hcontinues)
    · subst htask
      cases hwaits
  | write message after rest hopen hwrites =>
    refine ⟨h.connected, h.started, h.calls, (h.identified.send fun _ _ _ hmessage ↦ ?_).push
      (fun hshare ↦ ?_) fun _ htask ↦ ?_⟩
    · subst hmessage
      cases hwrites
    · cases hwrites with
      | accepted share hheader hmeets hinitialized => exact h.identified.initialized hinitialized
      | _ => cases hshare
    · cases htask
  | announce =>
    refine ⟨h.connected, h.started, h.calls, h.identified.send fun _ _ _ hmessage ↦ ?_⟩
    cases hmessage
  | log entry hlogs => exact h.log h₀ hlogs
  | adjust f hprofile =>
    refine ⟨?_, ?_, h.calls, ?_⟩
    · exact (congrArg Profile.connected hprofile).trans h.connected
    · intro hstart
      rw [show (v.update f).session.sessionStart = v.session.sessionStart from
        congrArg Profile.sessionStart hprofile]
      exact h.started hstart
    · change Identified (face (profile (f v.session))) _
      rw [hprofile]
      exact h.identified
  | begin isHobbyMinerSession hstart => exact h.begin hstart isHobbyMinerSession
  | create authorization subscription share hshare hcreating =>
    exact h.create h₀ hshare hcreating authorization subscription
  | enter partialClient updatedAt hresumed =>
    refine ⟨h.connected, h.started, h.calls, ⟨h.identified.started, h.identified.known,
      h.identified.subscription, h.identified.initialized, h.identified.shares, h.identified.told,
      h.identified.silent, h.identified.named, fun key hkey ↦ ?_, h.identified.pending,
      h.identified.used, h.identified.uncreated, h.identified.once⟩⟩
    cases hkey
    obtain ⟨inserted, hmem, hkey⟩ := h₀.identified.pending partialClient (mem_of_resumed hresumed)
    exact ⟨inserted, h.calls hmem, hkey⟩
  | reject partialClient hresumed =>
    refine ⟨h.connected, h.started, h.calls, ⟨h.identified.started, h.identified.known,
      h.identified.subscription, h.identified.initialized, h.identified.shares, h.identified.told,
      h.identified.silent, h.identified.named, h.identified.row, h.identified.pending,
      h.identified.used, fun hnone ↦ ?_, h.identified.once⟩⟩
    cases hnone
  | subscribe subscription rest hstart =>
    apply Along.write
    · refine ⟨h.connected, h.started, h.calls, ⟨h.identified.started, h.identified.known,
        fun _ ↦ hstart, h.identified.initialized, h.identified.shares, h.identified.told,
        h.identified.silent, h.identified.named, h.identified.row, h.identified.pending,
        h.identified.used, h.identified.uncreated, h.identified.once⟩⟩
    · intro id sessionId extranonce hmessage
      cases hmessage
      exact ⟨hstart, rfl, rfl⟩
    · exact fun _ ↦ hstart
  | authorize authorization rest haddress =>
    apply Along.write
    · exact ⟨h.connected, h.started, h.calls, h.identified⟩
    · intro _ _ _ hmessage
      cases hmessage
    · intro hshare
      cases hshare
  | suggest suggestedDifficulty rest =>
    apply Along.write
    · exact ⟨h.connected, h.started, h.calls, h.identified⟩
    · intro _ _ _ hmessage
      cases hmessage
    · intro hshare
      cases hshare
  | initStratum hsubscription hauthorization =>
    refine ⟨h.connected, h.started, h.calls, ⟨h.identified.started, h.identified.known,
      h.identified.subscription, fun _ ↦ h.identified.subscription hsubscription,
      h.identified.shares, h.identified.told, h.identified.silent, h.identified.named,
      h.identified.row, h.identified.pending, h.identified.used, h.identified.uncreated,
      h.identified.once⟩⟩

theorem Along.trace (h₀ : Along v₀ v₀) (h : Trace cfg v₀ e v₀ v) : Along v₀ v := by
  induction h with
  | refl => exact h₀
  | tail _ hmove ih => exact ih.move h₀ hmove

theorem history_write (v : View) (message : Message) (after : AfterWrite) (rest : List Line) :
    (v.write message after rest).history = v.history := by
  rw [View.write, View.nextLines]
  split
  · split
    · rfl
    · rfl
  · rfl

theorem self_write (v : View) (message : Message) (after : AfterWrite) (rest : List Line) :
    (v.write message after rest).self = v.self := by
  rw [View.write, View.nextLines]
  split
  · split
    · rfl
    · rfl
  · rfl

theorem callsOf_move (hself : self ≠ v.self) (hmove : Move cfg v₀ e v v') :
    v'.self = v.self ∧ callsOf self v'.history = callsOf self v.history := by
  have hother (share : Option Share) (c : Call) :
      callsOf self (.call v.self share c :: v.history) = callsOf self v.history := by
    rw [callsOf, List.filterMap_cons_none (by exact if_neg hself.symm), callsOf]
  cases hmove with
  | log entry hlogs =>
    cases hlogs with
    | template | evaluated | acknowledged | credited => exact ⟨rfl, rfl⟩
    | call share c => exact ⟨rfl, hother (some share) c⟩
    | deleted sessionId => exact ⟨rfl, hother none _⟩
  | create authorization subscription share => exact ⟨rfl, hother (some share) _⟩
  | subscribe | authorize | suggest => exact ⟨self_write .., by rw [history_write]; rfl⟩
  | _ => exact ⟨rfl, rfl⟩

theorem callsOf_trace (hself : self ≠ v₀.self) (h : Trace cfg v₀ e v₀ v) :
    v.self = v₀.self ∧ callsOf self v.history = callsOf self v₀.history := by
  induction h with
  | refl => exact ⟨rfl, rfl⟩
  | tail _ hmove ih =>
    obtain ⟨hself', hcalls⟩ := ih
    have hmoved := callsOf_move (hself'.symm ▸ hself) hmove
    exact ⟨hmoved.1.trans hself', hmoved.2.trans hcalls⟩

end Moves

section Runs

def Settled (v : View) : Prop :=
  v.session = {} ∧ callsOf v.self v.history = [] ∨ Along v v

theorem identified_fresh (randomHex : String) :
    Identified (face (profile { connected := true, randomHex })) [] where
  started h := absurd rfl h
  known h := absurd rfl h
  subscription h := absurd rfl h
  initialized h := by cases h
  shares _ hmem := absurd hmem List.not_mem_nil
  told _ _ _ hmem := absurd hmem List.not_mem_nil
  silent _ := rfl
  named _ hmem := absurd hmem List.not_mem_nil
  row _ h := by cases h
  pending _ hmem := absurd hmem List.not_mem_nil
  used later call earlier h := by cases later <;> cases h
  uncreated _ _ hmem := absurd hmem List.not_mem_nil
  once := Nat.zero_le 1

theorem Settled.act (h : Settled v) (hact : v.act cfg e = some v') : Settled v' := by
  rcases h with ⟨hsession, hcalls⟩ | halong
  · obtain ⟨now, self, jobsService, session, history, crashed⟩ := v
    obtain rfl : session = {} := hsession
    cases acts_of_act hact with
    | connect randomHex =>
      refine .inr ⟨rfl, id, List.Subset.refl _, ?_⟩
      change Identified _ (callsOf self history)
      rw [show callsOf self history = [] from hcalls]
      exact identified_fresh randomHex
    | data | newBlock | refreshTimer | localTimer | difficultyTimer | socketEnd | socketClose
    | socketUnwritable =>
      rename_i hworks
      cases hworks
    | resume i outcome task _ htask => cases htask
  · have h := halong.trace (.of_act hact)
    exact .inr ⟨h.connected, id, List.Subset.refl _, h.identified⟩

theorem settled_kept : Kept cfg (fun _ ↦ True) (fun _ _ ↦ True) Settled where
  tick _ _ h := h.imp id fun halong ↦
    ⟨halong.connected, id, List.Subset.refl _, halong.identified⟩
  act _ _ _ _ h _ hact := h.act hact
  other v e v' self session hself _ h _ _ hact := by
    have hcalls := (callsOf_trace hself (.of_act hact)).2
    rcases h with ⟨hsession, hnone⟩ | halong
    · exact .inl ⟨hsession, hcalls.trans hnone⟩
    · refine .inr ⟨halong.connected, id, List.Subset.refl _, ?_⟩
      change Identified _ (callsOf self v'.history)
      rw [hcalls]
      exact halong.identified

/-- In every run a session goes by the one id drawn for its connection: every answer to a
subscription tells it, with the extranonce that belongs to it; every call that names a
session names this one; at most one row is inserted for it; and statistics and heartbeats
are only written to that row's key, after it was inserted. -/
theorem identified_of_reachable (cfg : Config) (now : ℕ) (pool : Pool)
    (h : Reachable (Pool.step cfg) (Pool.start now) pool) (id : SessionId) :
    (∀ request sessionId extranonce,
      .subscribed request sessionId extranonce ∈ (pool.sessions id).wire →
        sessionId = some (pool.sessions id).randomHex ∧
          extranonce = some (extranonce1 (pool.sessions id).isHobbyMinerSession
            (pool.sessions id).randomHex)) ∧
      (∀ call ∈ callsOf id pool.history, ∀ sessionId, namedSession call = some sessionId →
        sessionId = some (pool.sessions id).randomHex) ∧
      UsesInserted (callsOf id pool.history) ∧
      ((callsOf id pool.history).filter isInsert).length ≤ 1 := by
  have hsettled : Settled (pool.view id) := by
    apply settled_kept.reach (fun _ _ _ ↦ trivial) (fun _ ↦ ?_) (reachable_of_reach h) id
    exact .inl ⟨rfl, rfl⟩
  rcases hsettled with ⟨hsession, hcalls⟩ | halong
  · change pool.sessions id = {} at hsession
    change callsOf id pool.history = [] at hcalls
    rw [hsession, hcalls]
    refine ⟨fun _ _ _ hmem ↦ ?_, fun _ hmem ↦ ?_, fun later _ _ heq ↦ ?_, Nat.zero_le 1⟩
    · exact absurd hmem List.not_mem_nil
    · exact absurd hmem List.not_mem_nil
    · cases later <;> cases heq
  · have hidentified := halong.identified
    exact ⟨fun request sessionId extranonce hmem ↦ (hidentified.told _ _ _ hmem).2,
      hidentified.named, hidentified.used, hidentified.once⟩

section Sample

open Reference

def visit : List Event :=
  easyOpening 0 alice ++ working 0 (answer 101 (hashOf 7)) ++
    crediting 0 ⟨"3", "1", "", "6553f105", "00000003", "00000000"⟩ ++ [.session 0 .socketClose]

theorem identified_of_reachable_visit :
    ∃ pool, Reachable (Pool.step settings) (Pool.start 1700000000000) pool ∧
      (callsOf 0 pool.history).length = 6 ∧
      ∀ call ∈ callsOf 0 pool.history, ∀ sessionId, namedSession call = some sessionId →
        sessionId = some "aabbccdd" := by
  obtain ⟨pool, hpool, hp⟩ := Reachable.of_any (Pool.step settings) (Pool.start 1700000000000) visit
    (fun pool ↦ (callsOf 0 pool.history).length = 6 ∧
      (pool.sessions 0).randomHex = "aabbccdd") (by decide +kernel)
  obtain ⟨hlength, hrandom⟩ := of_decide_eq_true hp
  have hidentified := identified_of_reachable settings 1700000000000 pool hpool 0
  refine ⟨pool, hpool, hlength, fun call hmem sessionId hnamed ↦ ?_⟩
  rw [← hrandom]
  exact hidentified.2.1 call hmem sessionId hnamed

end Sample

end Runs

end ElektronPool.Identity
