import ElektronPool.Reference
import ElektronPool.Talk.Says
import ElektronPool.Work.Sessions
import ElektronPool.Moves

namespace ElektronPool.Introduction

open Lib Lib.JavaScript Lib.Runs Model Model.View Work Talk Moves

variable {cfg : Config} {s s' s'' : Session} {v₀ v v' : View} {e : SessionEvent}
  {message : Message} {wire : List Message}

def isSubscribed : Message → Bool
  | .subscribed _ _ _ => true
  | _ => false

def isResult : Message → Bool
  | .result _ => true
  | _ => false

def isDifficulty : Message → Bool
  | .setDifficulty _ => true
  | _ => false

/-- The miner was answered its subscription and its authorization and was told a difficulty. -/
structure Told (wire : List Message) : Prop where
  subscribed : ∃ message ∈ wire, isSubscribed message = true
  authorized : ∃ message ∈ wire, isResult message = true
  difficulty : ∃ message ∈ wire, isDifficulty message = true

/-- Whatever was written before a job tells the miner all it needs. -/
def InOrder (wire : List Message) : Prop :=
  ∀ later params earlier, wire = later ++ .notify params :: earlier → Told earlier

theorem Told.append (h : Told wire) (messages : List Message) : Told (messages ++ wire) := by
  obtain ⟨⟨m₁, hmem₁, h₁⟩, ⟨m₂, hmem₂, h₂⟩, m₃, hmem₃, h₃⟩ := h
  exact ⟨⟨m₁, List.mem_append_right _ hmem₁, h₁⟩, ⟨m₂, List.mem_append_right _ hmem₂, h₂⟩,
    m₃, List.mem_append_right _ hmem₃, h₃⟩

theorem InOrder.cons (h : InOrder wire) (hmessage : isTalk message = true ∨ Told wire) :
    InOrder (message :: wire) := by
  intro later params earlier heq
  cases later with
  | nil =>
    obtain ⟨rfl, rfl⟩ := List.cons.inj heq
    rcases hmessage with htalk | htold
    · cases htalk
    · exact htold
  | cons m later =>
    exact h later params earlier (List.cons.inj heq).2

theorem InOrder.append {messages : List Message} (h : InOrder wire)
    (htalk : ∀ message ∈ messages, isTalk message = true) : InOrder (messages ++ wire) := by
  induction messages with
  | nil => exact h
  | cons m messages ih =>
    apply InOrder.cons
    · exact ih fun m' hmem ↦ htalk m' (List.mem_cons_of_mem m hmem)
    · exact .inl (htalk m List.mem_cons_self)

/-- Such a line was written, unless the connection is over. -/
def Heard (p : Message → Bool) (s : Session) : Prop :=
  s.isSocketClosed = true ∨ ∃ message ∈ s.wire, p message = true

def bringsWork : Task → Bool
  | .template _ _ | .write .setDifficulty _ => true
  | _ => false

def Works (s : Session) : Prop :=
  s.stratumSubscription = true ∨ s.backgroundWork = true ∨ s.currentJobTemplate ≠ none ∨
    ∃ task ∈ s.tasks, bringsWork task = true

/-- Work is due to a session that is initialised and whose miner knows a difficulty. -/
def Due (s : Session) : Prop := s.stratumInitialized = true ∧ Heard isDifficulty s

/-- What a session has done says what its miner has been told. -/
structure Introduced (s : Session) : Prop where
  subscribed : s.clientSubscription ≠ none → Heard isSubscribed s
  authorized : s.clientAuthorization ≠ none → Heard isResult s
  suggested : s.clientSuggestedDifficulty ≠ none → Heard isDifficulty s
  initialized : s.stratumInitialized = true →
    s.clientSubscription ≠ none ∧ s.clientAuthorization ≠ none
  works : Works s → Due s
  inOrder : InOrder s.wire

section Later

/-- No more is asked of the session, and only what is no work is written. -/
structure Later (s s' : Session) : Prop where
  closed : s.isSocketClosed = true → s'.isSocketClosed = true
  clientSubscription : s'.clientSubscription = s.clientSubscription
  clientAuthorization : s'.clientAuthorization = s.clientAuthorization
  clientSuggestedDifficulty : s'.clientSuggestedDifficulty = s.clientSuggestedDifficulty
  stratumInitialized : s'.stratumInitialized = s.stratumInitialized
  works : Works s' → Works s
  wire : ∃ messages, s'.wire = messages ++ s.wire ∧ ∀ message ∈ messages, isTalk message = true

theorem Later.heard (h : Later s s') {p : Message → Bool} (hp : Heard p s) : Heard p s' := by
  rcases hp with hclosed | ⟨message, hmem, hmessage⟩
  · exact .inl (h.closed hclosed)
  · obtain ⟨messages, hwire, -⟩ := h.wire
    exact .inr ⟨message, hwire ▸ List.mem_append_right _ hmem, hmessage⟩

theorem Introduced.later (h : Introduced s) (hlater : Later s s') : Introduced s' where
  subscribed hsubscription :=
    hlater.heard (h.subscribed (hlater.clientSubscription ▸ hsubscription))
  authorized hauthorization :=
    hlater.heard (h.authorized (hlater.clientAuthorization ▸ hauthorization))
  suggested hsuggested :=
    hlater.heard (h.suggested (hlater.clientSuggestedDifficulty ▸ hsuggested))
  initialized hinitialized := by
    rw [hlater.clientSubscription, hlater.clientAuthorization]
    exact h.initialized (hlater.stratumInitialized ▸ hinitialized)
  works hworks := by
    obtain ⟨hinitialized, hdifficulty⟩ := h.works (hlater.works hworks)
    exact ⟨hlater.stratumInitialized.trans hinitialized, hlater.heard hdifficulty⟩
  inOrder := by
    obtain ⟨messages, hwire, htalk⟩ := hlater.wire
    rw [hwire]
    exact h.inOrder.append htalk

theorem Later.trans (h : Later s s') (h' : Later s' s'') : Later s s'' where
  closed hclosed := h'.closed (h.closed hclosed)
  clientSubscription := h'.clientSubscription.trans h.clientSubscription
  clientAuthorization := h'.clientAuthorization.trans h.clientAuthorization
  clientSuggestedDifficulty := h'.clientSuggestedDifficulty.trans h.clientSuggestedDifficulty
  stratumInitialized := h'.stratumInitialized.trans h.stratumInitialized
  works hworks := h.works (h'.works hworks)
  wire := by
    obtain ⟨messages, hwire, htalk⟩ := h.wire
    obtain ⟨messages', hwire', htalk'⟩ := h'.wire
    refine ⟨messages' ++ messages, by rw [hwire', hwire, List.append_assoc], ?_⟩
    intro message hmem
    rcases List.mem_append.mp hmem with hmem | hmem
    · exact htalk' message hmem
    · exact htalk message hmem

structure Contact where
  clientSubscription : Option SubscriptionMessage
  clientAuthorization : Option AuthorizationMessage
  clientSuggestedDifficulty : Option ℚ
  stratumInitialized : Bool
  stratumSubscription : Bool
  backgroundWork : Bool
  currentJobTemplate : Option IJobTemplate
  tasks : List Task
  wire : List Message

def contact (s : Session) : Contact where
  clientSubscription := (profile s).clientSubscription
  clientAuthorization := (profile s).clientAuthorization
  clientSuggestedDifficulty := (profile s).clientSuggestedDifficulty
  stratumInitialized := (profile s).stratumInitialized
  stratumSubscription := (profile s).stratumSubscription
  backgroundWork := (profile s).backgroundWork
  currentJobTemplate := (profile s).currentJobTemplate
  tasks := (profile s).tasks
  wire := (profile s).wire

theorem works_of_contact (h : contact s' = contact s) (hworks : Works s') : Works s := by
  have hsubscription : s'.stratumSubscription = s.stratumSubscription :=
    congrArg Contact.stratumSubscription h
  have hwork : s'.backgroundWork = s.backgroundWork := congrArg Contact.backgroundWork h
  have htemplate : s'.currentJobTemplate = s.currentJobTemplate :=
    congrArg Contact.currentJobTemplate h
  have htasks : s'.tasks = s.tasks := congrArg Contact.tasks h
  rw [Works, hsubscription, hwork, htemplate, htasks] at hworks
  exact hworks

theorem Later.of_contact (h : contact s' = contact s)
    (hclosed : s.isSocketClosed = true → s'.isSocketClosed = true) : Later s s' where
  closed := hclosed
  clientSubscription := congrArg Contact.clientSubscription h
  clientAuthorization := congrArg Contact.clientAuthorization h
  clientSuggestedDifficulty := congrArg Contact.clientSuggestedDifficulty h
  stratumInitialized := congrArg Contact.stratumInitialized h
  works := works_of_contact h
  wire := ⟨[], congrArg Contact.wire h, fun _ hmem ↦ absurd hmem List.not_mem_nil⟩

theorem Later.refl (s : Session) : Later s s := .of_contact rfl id

end Later

section Primitives

variable (v : View) (rest : List Line)

theorem later_suspend {task : Task} (h : bringsWork task = false) :
    Later v.session (v.suspend task).session where
  closed := id
  clientSubscription := rfl
  clientAuthorization := rfl
  clientSuggestedDifficulty := rfl
  stratumInitialized := rfl
  works hworks := by
    refine hworks.imp_right (Or.imp_right (Or.imp_right ?_))
    rintro ⟨other, hmem, hbrings⟩
    rcases List.mem_append.mp hmem with hmem | hmem
    · exact ⟨other, hmem, hbrings⟩
    · rw [List.mem_singleton.mp hmem, h] at hbrings
      cases hbrings
  wire := ⟨[], rfl, fun _ hmem ↦ absurd hmem List.not_mem_nil⟩

theorem later_nextLines : Later v.session (v.nextLines rest).session := by
  rw [View.nextLines]
  split
  · exact .refl _
  · exact later_suspend v rfl

theorem later_erase (i : ℕ) :
    Later v.session (v.update fun s ↦ { s with tasks := s.tasks.eraseIdx i }).session where
  closed := id
  clientSubscription := rfl
  clientAuthorization := rfl
  clientSuggestedDifficulty := rfl
  stratumInitialized := rfl
  works hworks := by
    refine hworks.imp_right (Or.imp_right (Or.imp_right ?_))
    rintro ⟨task, hmem, hbrings⟩
    exact ⟨task, List.mem_of_mem_eraseIdx hmem, hbrings⟩
  wire := ⟨[], rfl, fun _ hmem ↦ absurd hmem List.not_mem_nil⟩

theorem later_send (h : isTalk message = true) : Later v.session (v.send message).session where
  closed := id
  clientSubscription := rfl
  clientAuthorization := rfl
  clientSuggestedDifficulty := rfl
  stratumInitialized := rfl
  works hworks := hworks
  wire := ⟨[message], rfl, fun m hmem ↦ by rw [List.mem_singleton.mp hmem, h]⟩

theorem later_write (h : isTalk message = true) {after : AfterWrite}
    (hafter : bringsWork (.write after rest) = false) :
    Later v.session (v.write message after rest).session := by
  rw [View.write]
  split
  · exact later_nextLines v rest
  · exact (later_send v h).trans (later_suspend _ hafter)

theorem heard_write {p : Message → Bool} (h : p message = true) (after : AfterWrite) :
    Heard p (v.write message after rest).session := by
  rw [View.write]
  split
  case isTrue hclosed => exact (later_nextLines v rest).heard (.inl hclosed)
  case isFalse => exact .inr ⟨message, List.mem_cons_self, h⟩

theorem later_halt : Later v.session (v.update fun s ↦
    { s with
      destroyCalled := true
      connectionClosed := true
      backgroundWork := false
      stratumSubscription := false
      currentJobTemplate := none }).session where
  closed _ := by simp [View.update, Session.isSocketClosed]
  clientSubscription := rfl
  clientAuthorization := rfl
  clientSuggestedDifficulty := rfl
  stratumInitialized := rfl
  works := by
    rintro (h | h | h | h)
    · cases h
    · cases h
    · exact absurd rfl h
    · exact .inr (.inr (.inr h))
  wire := ⟨[], rfl, fun _ hmem ↦ absurd hmem List.not_mem_nil⟩

theorem later_adjust {f : Session → Session} (h : profile (f v.session) = profile v.session) :
    Later v.session (v.update f).session := by
  apply Later.of_contact
  · simp only [View.update, contact, h]
  · exact fun hclosed ↦ (isSocketClosed_of_profile h).trans hclosed

end Primitives

section Moves

variable (rest : List Line)

theorem Later.due (h : Later s s') (hdue : Due s) : Due s' :=
  ⟨h.stratumInitialized.trans hdue.1, h.heard hdue.2⟩

theorem Introduced.told_of_due (h : Introduced s) (hdue : Due s)
    (hopen : s.isSocketClosed = false) : Told s.wire := by
  obtain ⟨hsubscription, hauthorization⟩ := h.initialized hdue.1
  have heard {p : Message → Bool} (hp : Heard p s) : ∃ message ∈ s.wire, p message = true := by
    rcases hp with hclosed | hmem
    · rw [hopen] at hclosed
      cases hclosed
    · exact hmem
  exact ⟨heard (h.subscribed hsubscription), heard (h.authorized hauthorization), heard hdue.2⟩

theorem Introduced.due_of_serves (h : Introduced v₀.session) (hserves : Serves v₀ e) :
    Due v₀.session := by
  apply h.works
  cases hserves with
  | newBlock hsubscribed => exact .inl hsubscribed
  | refreshTimer hworks => exact .inr (.inl hworks)
  | localTimer hworks => exact .inr (.inl hworks)
  | difficultyTimer hworks => exact .inr (.inl hworks)
  | template _ address purpose hresumed =>
    exact .inr (.inr (.inr ⟨_, mem_of_resumed hresumed, rfl⟩))

theorem Introduced.notify (h : Introduced v.session) (hdue : Due v.session)
    (hopen : v.session.isSocketClosed = false) (params : IMiningNotify) (timestamp : ℕ) :
    Introduced ((v.send (.notify params)).suspend (.write (.notified timestamp) rest)).session ∧
      Due ((v.send (.notify params)).suspend (.write (.notified timestamp) rest)).session := by
  have htold : Told v.session.wire := h.told_of_due hdue hopen
  have heard {p : Message → Bool} (hp : Heard p v.session) :
      Heard p (v.send (.notify params)).session := by
    refine hp.imp_right ?_
    rintro ⟨message, hmem, hmessage⟩
    exact ⟨message, List.mem_cons_of_mem _ hmem, hmessage⟩
  have hsent : Introduced (v.send (.notify params)).session :=
    ⟨fun hsubscription ↦ heard (h.subscribed hsubscription),
      fun hauthorization ↦ heard (h.authorized hauthorization),
      fun hsuggested ↦ heard (h.suggested hsuggested), h.initialized,
      fun _ ↦ ⟨hdue.1, heard hdue.2⟩, h.inOrder.cons (.inr htold)⟩
  have hlater : Later (v.send (.notify params)).session
      ((v.send (.notify params)).suspend (.write (.notified timestamp) rest)).session :=
    later_suspend _ rfl
  exact ⟨hsent.later hlater, hlater.due ⟨hdue.1, heard hdue.2⟩⟩

theorem Introduced.announce (h : Introduced v.session)
    (hinitialized : v.session.stratumInitialized = true) (difficulty : ℚ) :
    Introduced ((v.send (.setDifficulty difficulty)).suspend (.write .setDifficulty rest)).session ∧
      Due ((v.send (.setDifficulty difficulty)).suspend (.write .setDifficulty rest)).session := by
  have hsent : Introduced (v.send (.setDifficulty difficulty)).session := h.later (later_send v rfl)
  have hdue : Due (v.send (.setDifficulty difficulty)).session :=
    ⟨hinitialized, .inr ⟨_, List.mem_cons_self, rfl⟩⟩
  exact ⟨⟨hsent.subscribed, hsent.authorized, hsent.suggested, hsent.initialized, fun _ ↦ hdue,
    hsent.inOrder⟩, hdue⟩

theorem introduced_write {after : AfterWrite} (htalk : isTalk message = true)
    (hafter : bringsWork (.write after rest) = false)
    (hsubscribed : v.session.clientSubscription ≠ none →
      Heard isSubscribed v.session ∨ isSubscribed message = true)
    (hauthorized : v.session.clientAuthorization ≠ none →
      Heard isResult v.session ∨ isResult message = true)
    (hsuggested : v.session.clientSuggestedDifficulty ≠ none →
      Heard isDifficulty v.session ∨ isDifficulty message = true)
    (hinitialized : v.session.stratumInitialized = true →
      v.session.clientSubscription ≠ none ∧ v.session.clientAuthorization ≠ none)
    (hworks : Works v.session → Due v.session)
    (hinOrder : InOrder v.session.wire) :
    Introduced (v.write message after rest).session := by
  have hlater : Later v.session (v.write message after rest).session :=
    later_write v rest htalk hafter
  have hheard {p : Message → Bool} (h : Heard p v.session ∨ p message = true) :
      Heard p (v.write message after rest).session := by
    rcases h with hbefore | hmessage
    · exact hlater.heard hbefore
    · exact heard_write v rest hmessage after
  refine ⟨fun h ↦ hheard (hsubscribed (hlater.clientSubscription ▸ h)),
    fun h ↦ hheard (hauthorized (hlater.clientAuthorization ▸ h)),
    fun h ↦ hheard (hsuggested (hlater.clientSuggestedDifficulty ▸ h)), ?_, ?_, ?_⟩
  · rw [hlater.clientSubscription, hlater.clientAuthorization, hlater.stratumInitialized]
    exact hinitialized
  · intro h
    obtain ⟨hstarted, hdifficulty⟩ := hworks (hlater.works h)
    exact ⟨hlater.stratumInitialized.trans hstarted, hlater.heard hdifficulty⟩
  · obtain ⟨messages, hwire, hmessages⟩ := hlater.wire
    rw [hwire]
    exact hinOrder.append hmessages

theorem Introduced.writes (h : Introduced v.session) (h₀ : Introduced v₀.session)
    (hdue : Due v₀.session → Due v.session) (hopen : v.session.isSocketClosed = false)
    {after : AfterWrite} (hwrites : Writes cfg v₀ e v message after) :
    Introduced ((v.send message).suspend (.write after rest)).session ∧
      (Due v.session → Due ((v.send message).suspend (.write after rest)).session) := by
  have hreply (htalk : isTalk message = true) (hafter : bringsWork (.write after rest) = false) :
      Introduced ((v.send message).suspend (.write after rest)).session ∧
        (Due v.session → Due ((v.send message).suspend (.write after rest)).session) := by
    have hlater := (later_send v htalk).trans (later_suspend (v.send message) hafter)
    exact ⟨h.later hlater, hlater.due⟩
  cases hwrites with
  | configured => exact hreply rfl rfl
  | refused => exact hreply rfl rfl
  | invalid => exact hreply rfl rfl
  | accepted => exact hreply rfl rfl
  | initial hinitialized =>
    have hannounced := h.announce rest hinitialized v.session.sessionDifficulty
    exact ⟨hannounced.1, fun _ ↦ hannounced.2⟩
  | notify params timestamp hserves =>
    have hnotified := h.notify rest (hdue (h₀.due_of_serves hserves)) hopen params timestamp
    exact ⟨hnotified.1, fun _ ↦ hnotified.2⟩

/-- Every move keeps what is known of the session and what is due to it. -/
theorem Introduced.move (h : Introduced v.session) (h₀ : Introduced v₀.session)
    (hdue : Due v₀.session → Due v.session) (hmove : Move cfg v₀ e v v') :
    Introduced v'.session ∧ (Due v.session → Due v'.session) := by
  have hlater (hlater : Later v.session v'.session) :
      Introduced v'.session ∧ (Due v.session → Due v'.session) := ⟨h.later hlater, hlater.due⟩
  cases hmove with
  | erase i => exact hlater (later_erase v i)
  | connect | log | build | addJob | crash | begin | enter | reject => exact hlater (.of_contact rfl id)
  | wait task hwaits =>
    cases hwaits with
    | lines rest => exact hlater (later_suspend v rfl)
    | share share wait rest => exact hlater (later_suspend v rfl)
    | template authorization purpose hserves =>
      have hgiven : Due v.session := hdue (h₀.due_of_serves hserves)
      exact ⟨⟨h.subscribed, h.authorized, h.suggested, h.initialized, fun _ ↦ hgiven, h.inOrder⟩,
        id⟩
  | write message after rest hopen hwrites => exact h.writes rest h₀ hdue hopen hwrites
  | announce => exact hlater (later_send v rfl)
  | disconnect | destroySocket | endSocket | unwritable =>
    refine hlater (.of_contact rfl fun _ ↦ ?_)
    simp [View.update, View.endSocket, Session.isSocketClosed]
  | halt => exact hlater (later_halt v)
  | adjust f hprofile => exact hlater (later_adjust v hprofile)
  | create authorization subscription =>
    have hwaits : Later v.session
        (v.suspend (.insertClient (newRow v.session authorization subscription))).session :=
      later_suspend v rfl
    exact hlater (hwaits.trans (.of_contact rfl id))
  | subscribe subscription rest =>
    constructor
    · refine introduced_write rest rfl rfl (fun _ ↦ .inr rfl)
        (fun hauthorization ↦ .inl (h.authorized hauthorization))
        (fun hsuggested ↦ .inl (h.suggested hsuggested)) (fun hinitialized ↦ ?_)
        (fun hworks ↦ h.works hworks) h.inOrder
      exact ⟨Option.some_ne_none _, (h.initialized hinitialized).2⟩
    · exact fun hgiven ↦ (later_write (v.update _) rest rfl rfl).due hgiven
  | authorize authorization rest =>
    constructor
    · refine introduced_write rest rfl rfl (fun hsubscription ↦ .inl (h.subscribed hsubscription))
        (fun _ ↦ .inr rfl) (fun hsuggested ↦ .inl (h.suggested hsuggested))
        (fun hinitialized ↦ ?_) (fun hworks ↦ h.works hworks) h.inOrder
      exact ⟨(h.initialized hinitialized).1, Option.some_ne_none _⟩
    · exact fun hgiven ↦ (later_write (v.update _) rest rfl rfl).due hgiven
  | suggest suggestedDifficulty rest =>
    constructor
    · exact introduced_write rest rfl rfl
        (fun hsubscription ↦ .inl (h.subscribed hsubscription))
        (fun hauthorization ↦ .inl (h.authorized hauthorization)) (fun _ ↦ .inr rfl)
        (fun hinitialized ↦ h.initialized hinitialized) (fun hworks ↦ h.works hworks) h.inOrder
    · exact fun hgiven ↦ (later_write (v.update _) rest rfl rfl).due hgiven
  | initStratum hsubscription hauthorization =>
    exact ⟨⟨h.subscribed, h.authorized, h.suggested, fun _ ↦ ⟨hsubscription, hauthorization⟩,
      fun hworks ↦ ⟨rfl, (h.works hworks).2⟩, h.inOrder⟩, fun hgiven ↦ ⟨rfl, hgiven.2⟩⟩
  | start hstart =>
    have hgiven : Due v.session := by
      rcases hstart with ⟨hinitialized, hsuggested⟩ | ⟨rest, hresumed⟩
      · exact ⟨hinitialized, h.suggested hsuggested⟩
      · apply hdue
        exact h₀.works (.inr (.inr (.inr ⟨_, mem_of_resumed hresumed, rfl⟩)))
    exact ⟨⟨h.subscribed, h.authorized, h.suggested, h.initialized, fun _ ↦ hgiven, h.inOrder⟩, id⟩
  | cache jobTemplate clear hserves =>
    have hgiven : Due v.session := hdue (h₀.due_of_serves hserves)
    exact ⟨⟨h.subscribed, h.authorized, h.suggested, h.initialized, fun _ ↦ hgiven, h.inOrder⟩, id⟩

theorem Introduced.trace (h₀ : Introduced v₀.session) (h : Trace cfg v₀ e v₀ v) :
    Introduced v.session ∧ (Due v₀.session → Due v.session) := by
  induction h with
  | refl => exact ⟨h₀, id⟩
  | tail _ hmove ih =>
    obtain ⟨hintroduced, hdue⟩ := ih.1.move h₀ ih.2 hmove
    exact ⟨hintroduced, hdue ∘ ih.2⟩

end Moves

theorem introduced_kept :
    Kept cfg (fun _ ↦ True) (fun _ _ ↦ True) fun v ↦ Introduced v.session :=
  .of_session fun _ _ _ _ h _ hact ↦ (h.trace (.of_act hact)).1

theorem introduced_start (now : ℕ) (id : SessionId) :
    Introduced ((Pool.start now).view id).session where
  subscribed h := absurd rfl h
  authorized h := absurd rfl h
  suggested h := absurd rfl h
  initialized h := by cases h
  works := by
    rintro (h | h | h | ⟨task, h, -⟩)
    · cases h
    · cases h
    · exact absurd rfl h
    · exact absurd h List.not_mem_nil
  inOrder later params earlier h := by cases later <;> cases h

/-- In every run, every job that was written to a miner comes after the answer to a
subscription, the answer to an authorization and a difficulty; and no session is given
work before it is subscribed, authorized and initialised. -/
theorem told_of_reachable (cfg : Config) (now : ℕ) (pool : Pool)
    (h : Reachable (Pool.step cfg) (Pool.start now) pool) (id : SessionId) :
    InOrder (pool.sessions id).wire ∧
      (Works (pool.sessions id) → (pool.sessions id).stratumInitialized = true ∧
        (pool.sessions id).clientSubscription ≠ none ∧
        (pool.sessions id).clientAuthorization ≠ none) := by
  have hintroduced : Introduced (pool.sessions id) :=
    introduced_kept.reach (fun _ _ _ ↦ trivial) (introduced_start now) (reachable_of_reach h)
      id
  refine ⟨hintroduced.inOrder, fun hworks ↦ ?_⟩
  obtain ⟨hinitialized, -⟩ := hintroduced.works hworks
  exact ⟨hinitialized, hintroduced.initialized hinitialized⟩

section Sample

open Reference

theorem told_of_reachable_run :
    ∃ pool, Reachable (Pool.step settings) (Pool.start 1700000000000) pool ∧
      (pool.sessions 0).sentJobs.length = 2 ∧ InOrder (pool.sessions 0).wire := by
  obtain ⟨pool, hpool, hp⟩ := Reachable.of_any (Pool.step settings) (Pool.start 1700000000000)
    (opening 0 alice ++ working 0 (answer 101 (hashOf 7)) ++ working 0 (answer 102 (hashOf 8)))
    (fun pool ↦ (pool.sessions 0).sentJobs.length = 2) (by decide +kernel)
  have htold := told_of_reachable settings 1700000000000 pool hpool 0
  exact ⟨pool, hpool, of_decide_eq_true hp, htold.1⟩

end Sample

end ElektronPool.Introduction
