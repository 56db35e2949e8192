import ElektronPool.DestroyedSession
import ElektronPool.Model.Stores
import ElektronPool.Shares.Passage

namespace ElektronPool.ClientRows

open Lib Lib.Runs Model Model.View Work Shares Talk

variable {cfg : Config} {v v' : View} {e : SessionEvent} {share : Share} {a a' : Account}
  {now n : ℕ}

structure World where
  pool : Pool
  clients : List ClientRow
  deleted : List SessionId

inductive Occurrence
  | pool (event : Event)
  | deleted (id : SessionId)

def heartbeatKey : Call → Option (String × String × String)
  | .heartbeat address clientName sessionId _ _ => some (address, clientName, sessionId)
  | _ => none

/-- The table with the write whose end an event reports; there is none when the
store would have refused it. -/
def stored (pool : Pool) (clients : List ClientRow) : Event → Option (List ClientRow)
  | .session id (.resume i outcome) =>
    match (pool.sessions id).tasks[i]?, outcome with
    | some (.insertClient partialClient), .inserted _ => ClientService.insert clients partialClient
    | some (.share share (.heartbeat _) _), .done =>
      match lastCall pool.history share heartbeatKey with
      | some (address, clientName, sessionId) =>
        some (ClientService.heartbeat clients address clientName sessionId)
      | none => some clients
    | _, _ => some clients
  | _ => some clients

/-- The session id with which `destroy` of a session has called `delete`. -/
def deleting (pool : Pool) (id : SessionId) : Option String :=
  if (pool.sessions id).destroyCalled then
    pool.history.findSome? fun
      | .call session none (.deleteClient sessionId) => if session = id then some sessionId else none
      | _ => none
  else none

namespace World

variable (cfg : Config) (world : World)

def start (now : ℕ) (clients : List ClientRow) : World := ⟨Pool.start now, clients, []⟩

def step : Occurrence → Option World
  | .pool event => do
    let clients ← stored world.pool world.clients event
    let pool ← world.pool.step cfg event
    return { world with pool, clients }
  | .deleted id =>
    if id ∈ world.deleted then none
    else
      (deleting world.pool id).map fun sessionId ↦
        { world with
          clients := ClientService.delete world.clients sessionId
          deleted := id :: world.deleted }

end World

/-- A task that can still put the row of its session into the table, or back into
it: a share before its heartbeat, unless it waits for an insert that was refused. -/
def revives (entity : Option ClientEntity) (creatingEntity : Option CreatingEntity) : Task → Bool
  | .insertClient _ => true
  | .share _ wait _ =>
    decide (stage wait ≤ 8) &&
      !(decide (stage wait ≤ 5) && entity.isNone && decide (creatingEntity = some .rejected))
  | _ => false

/-- When the soft delete of a session is done, nothing of it can still revive its row. -/
def Settled (world : World) : Occurrence → Prop
  | .pool _ => True
  | .deleted id => ∀ task ∈ (world.pool.sessions id).tasks,
    revives (world.pool.sessions id).entity (world.pool.sessions id).creatingEntity task = false

instance (world : World) (occurrence : Occurrence) : Decidable (Settled world occurrence) :=
  match occurrence with
  | .pool _ => .isTrue trivial
  | .deleted _ => inferInstanceAs (Decidable (∀ _ ∈ _, _))

def Live (clients : List ClientRow) (address clientName sessionId : String) : Prop :=
  ∃ row ∈ clients, row.hasKey address clientName sessionId = true ∧ row.deleted = false

instance (clients : List ClientRow) (address clientName sessionId : String) :
    Decidable (Live clients address clientName sessionId) :=
  inferInstanceAs (Decidable (∃ _ ∈ _, _))

/-- No step of a session whose soft delete is done brings a row to life. -/
def StaysDead (cfg : Config) (world : World) : Prop :=
  ∀ id ∈ world.deleted, ∀ e world', world.step cfg (.pool (.session id e)) = some world' →
    ∀ address clientName sessionId, Live world'.clients address clientName sessionId →
      Live world.clients address clientName sessionId

section Idle

def Idle (a : Account) : Prop :=
  ∀ task ∈ a.tokens, revives a.entity a.creatingEntity task = false

variable {task : Task} {wait : ShareWait} {outcome : Outcome} {rest : List Line}

theorem Idle.push (h : Idle a) (htask : revives a.entity a.creatingEntity task = false) :
    Idle (a.push task) := by
  intro task' hmem
  rcases List.mem_append.mp hmem with hmem | hmem
  · exact h task' hmem
  · rw [List.mem_singleton.mp hmem]
    exact htask

theorem Idle.pop (h : Idle (account v)) (e : SessionEvent) : Idle (account (pop v e)) := by
  rw [account_pop]
  intro task hmem
  exact h task (List.filter_subset _ (pop_session_tasks v e) hmem)

theorem late_or_refused (h : revives a.entity a.creatingEntity (.share share wait rest) = false) :
    9 ≤ stage wait ∨ stage wait ≤ 5 ∧ a.entity = none ∧ a.creatingEntity = some .rejected := by
  simp only [revives, Bool.and_eq_false_iff, decide_eq_false_iff_not, Bool.not_eq_false',
    Bool.and_eq_true, decide_eq_true_eq, Option.isNone_iff_eq_none] at h
  rcases h with h | ⟨⟨hstage, hentity⟩, hcreating⟩
  · exact .inl (not_le.mp h)
  · exact .inr ⟨hstage, hentity, hcreating⟩

theorem revives_of_late (entity : Option ClientEntity) (creatingEntity : Option CreatingEntity)
    (h : 9 ≤ stage wait) : revives entity creatingEntity (.share share wait rest) = false := by
  have hlate : ¬ stage wait ≤ 8 := not_le.mpr h
  simp only [revives, hlate, decide_false, Bool.false_and]

theorem revives_map (f : ClientEntity → ClientEntity) (entity : Option ClientEntity)
    (creatingEntity : Option CreatingEntity) :
    revives (entity.map f) creatingEntity task = revives entity creatingEntity task := by
  cases task <;> simp only [revives, Option.isNone_map]

theorem replied_of_closed (h : v.session.isSocketClosed = true) (e : SessionEvent) :
    replied v e = none := by
  rw [replied.eq_def]
  split
  · split
    · exact if_pos h
    · rfl
  · rfl

theorem idle_of_course (h : Course cfg share now n a a') (ha : Idle a) (hentity : a.entity = none)
    (hcreating : a.creatingEntity = some .rejected) : Idle a' := by
  cases h with
  | waits wait rest _ hunpaid h =>
    refine h ▸ ha.push ?_
    simp [revives, hunpaid, hentity, hcreating]
  | queued _ _ _ hnone =>
    rw [hcreating] at hnone
    cases hnone
  | suspended entity _ _ _ _ _ hsome =>
    rw [hentity] at hsome
    cases hsome
  | credited entity _ _ hsome =>
    rw [hentity] at hsome
    cases hsome

theorem idle_of_goes (h : Goes cfg share now a a' wait outcome) (ha : Idle a)
    (hwait : revives a.entity a.creatingEntity (.share share wait rest) = false) : Idle a' := by
  have hwhere := late_or_refused hwait
  cases h with
  | threw _ h => exact h ▸ ha
  | course hunpaid h =>
    obtain ⟨-, hentity, hcreating⟩ := hwhere.resolve_left (by omega)
    exact idle_of_course h ha hentity hcreating
  | moved => simp [stage] at hwhere
  | @saved wait => cases wait <;> simp [stage] at hwhere
  | @unsaved wait => cases wait <;> simp [stage] at hwhere
  | beaten => simp [stage] at hwhere
  | unbeaten => simp [stage] at hwhere
  | raised _ _ _ rest h =>
    have hraised : Idle (a.raise (share.submissionDifficulty cfg.js)) := by
      intro task hmem
      rw [Account.raise, revives_map]
      exact ha task hmem
    exact h ▸ hraised.push (revives_of_late _ _ (by simp [stage]))
  | unraised h => exact h ▸ ha
  | closed h => exact h ▸ ha

theorem idle_of_passage (h : Passage cfg v e v') (hclosed : v.session.isSocketClosed = true)
    (ha : Idle (account v)) : Idle (account v') := by
  have hpop := ha.pop e
  have hpopped {task : Task} (hpopped : popped v e = some task) (htoken : isToken task = true) :
      revives (account v).entity (account v).creatingEntity task = false :=
    ha task (List.mem_filter.mpr ⟨mem_of_popped hpopped, htoken⟩)
  cases h with
  | same _ h => exact h ▸ hpop
  | subscribed _ _ _ _ h => exact h ▸ hpop
  | authorized _ _ _ _ h => exact h ▸ hpop
  | accepted share rest _ h => exact h ▸ hpop.push rfl
  | unanswered _ _ _ _ h => exact h ▸ hpop
  | answered share rest _ hreplied =>
    rw [replied_of_closed hclosed] at hreplied
    cases hreplied
  | continued share wait rest i outcome _ htask h =>
    have hwait := hpopped htask rfl
    have hpopwait : revives (account (pop v e)).entity (account (pop v e)).creatingEntity
        (.share share wait rest) = false := by
      rw [account_pop]
      exact hwait
    exact idle_of_goes h hpop hpopwait
  | inserted partialClient _ _ _ htask => cases hpopped htask rfl
  | rejected partialClient _ _ htask => cases hpopped htask rfl

end Idle

section Runs

variable {world world' world₀ : World} {occurrence : Occurrence} {clients clients' : List ClientRow}
  {pool pool' : Pool} {id : SessionId}

theorem World.step_cases (h : world.step cfg occurrence = some world') :
    (∃ event pool' clients', occurrence = .pool event ∧ world.pool.step cfg event = some pool' ∧
      stored world.pool world.clients event = some clients' ∧
      world' = { world with pool := pool', clients := clients' }) ∨
    ∃ id sessionId, occurrence = .deleted id ∧ deleting world.pool id = some sessionId ∧
      world' = { world with
        clients := ClientService.delete world.clients sessionId
        deleted := id :: world.deleted } := by
  cases occurrence with
  | pool event =>
    obtain ⟨clients', hstored, h⟩ := Option.bind_eq_some_iff.mp h
    obtain ⟨pool', hpool, h⟩ := Option.bind_eq_some_iff.mp h
    exact .inl ⟨event, pool', clients', rfl, hpool, hstored, (Option.some.inj h).symm⟩
  | deleted id =>
    obtain ⟨-, h⟩ := Option.ite_none_left_eq_some.mp h
    obtain ⟨sessionId, hdeleting, rfl⟩ := Option.map_eq_some_iff.mp h
    exact .inr ⟨id, sessionId, rfl, hdeleting, rfl⟩

theorem pool_of_world {G : World → Occurrence → Prop} (h : Reach (World.step cfg) G world₀ world) :
    Reachable (Pool.step cfg) world₀.pool world.pool := by
  apply h.project World.pool
  intro world occurrence world' _ hstep
  obtain ⟨event, pool', clients', rfl, hpool, -, rfl⟩ | ⟨id, sessionId, rfl, -, rfl⟩ :=
    World.step_cases hstep
  · exact .inr ⟨event, trivial, hpool⟩
  · exact .inl rfl

def Shut (session : Session) : Prop :=
  session.destroyCalled = true → session.isSocketClosed = true

theorem shut_of_turn (h : Shut v.session) (hturn : Turn cfg v e v') : Shut v'.session := by
  cases hcalled : v.session.destroyCalled with
  | true => exact fun _ ↦ hturn.closed (h hcalled)
  | false =>
    have hlive {p : Prop} (h : v.session.destroyCalled = true) : p := by
      rw [hcalled] at h
      cases h
    have hinert := DestroyedSession.inert_of_turn (fun h ↦ hlive h) (fun h ↦ hlive h) hturn
    exact fun h ↦ by simp [Session.isSocketClosed, (hinert h).1]

theorem shut_kept : Kept cfg (fun v ↦ Ready v.session) (fun _ _ ↦ True) fun v ↦ Shut v.session :=
  .of_session fun _ _ _ hready h _ hact ↦ shut_of_turn h (turn_of_act hready hact)

theorem shut_of_reachable (h : Reachable (Pool.step cfg) (Pool.start now) pool) (id : SessionId) :
    Shut (pool.sessions id) := by
  refine shut_kept.reach (fun _ hpool ↦ ready_of_reachable hpool) (fun _ hcalled ↦ ?_)
    (reachable_of_reach h) id
  cases hcalled

/-- A session whose soft delete is done is closed, and nothing of it can revive its row. -/
def Gone (deleted : List SessionId) (v : View) : Prop :=
  v.self ∈ deleted → v.session.isSocketClosed = true ∧ Idle (account v)

theorem gone_kept (deleted : List SessionId) :
    Kept cfg (fun v ↦ Ready v.session ∧ Enrolled (account v)) (fun _ _ ↦ True) (Gone deleted) where
  tick _ _ h := h
  act v e v' hJ h _ hact hmem := by
    obtain ⟨hready, henrolled⟩ := hJ
    rw [(extends_of_act hact).self] at hmem
    obtain ⟨hclosed, hidle⟩ := h hmem
    exact ⟨(turn_of_act hready hact).closed hclosed,
      idle_of_passage (passage_of_act hready henrolled hact) hclosed hidle⟩
  other _ _ _ _ _ _ _ h _ _ _ := h

theorem gone_of_settled (h : Reach (World.step cfg) Settled (World.start now clients) world)
    (id : SessionId) : Gone world.deleted (world.pool.view id) := by
  refine h.invariant_of (I := fun world ↦ ∀ id, Gone world.deleted (world.pool.view id))
    (J := fun world ↦ Reachable (Pool.step cfg) (Pool.start now) world.pool)
    (fun world hworld ↦ pool_of_world hworld) (fun id hmem ↦ by cases hmem)
    (fun world occurrence world' hpool hgone hguard hstep ↦ ?_) id
  obtain ⟨event, pool', clients', rfl, hevent, -, rfl⟩ | ⟨id', sessionId, rfl, hdeleting, rfl⟩ :=
    World.step_cases hstep
  · refine (gone_kept world.deleted).step (fun id ↦ ?_) hgone ?_ hevent
    · exact ⟨ready_of_reachable hpool id, enrolled_of_reachable hpool id⟩
    · cases event <;> trivial
  · intro id hmem
    rcases List.mem_cons.mp hmem with hid | hmem
    · -- the delete is called by `destroy`, which ends the connection
      obtain rfl : id = id' := hid
      obtain ⟨hcalled, -⟩ := Option.ite_none_right_eq_some.mp hdeleting
      refine ⟨shut_of_reachable hpool id hcalled, ?_⟩
      intro task htask
      exact hguard task (List.mem_filter.mp htask).1
    · exact hgone id hmem

theorem stored_of_idle (h : Idle (account (pool.view id)))
    (hstored : stored pool clients (.session id e) = some clients') : clients' = clients := by
  have hrevives {i : ℕ} {task : Task} (htask : (pool.sessions id).tasks[i]? = some task)
      (htoken : isToken task = true) : revives _ _ task = false :=
    h task (List.mem_filter.mpr ⟨List.mem_of_getElem? htask, htoken⟩)
  rw [stored.eq_def] at hstored
  split at hstored
  case h_1 i outcome heq =>
    cases heq
    split at hstored
    case h_1 htask => cases hrevives htask rfl
    case h_2 htask => cases hrevives htask rfl
    case h_3 => exact (Option.some.inj hstored).symm
  case h_2 => exact (Option.some.inj hstored).symm

/-- In every run in which a soft delete is done only once no share of its session can
still come to its heartbeat and no insert of its row is pending, deleted rows stay dead. -/
theorem staysDead_of_settled (cfg : Config) (now : ℕ) (clients : List ClientRow) (world : World)
    (h : Reach (World.step cfg) Settled (World.start now clients) world) :
    StaysDead cfg world := by
  intro id hid e world' hstep address clientName sessionId hlive
  obtain ⟨-, hidle⟩ := gone_of_settled h id hid
  obtain ⟨event, pool', clients', hevent, -, hstored, rfl⟩ | ⟨_, _, hevent, -⟩ :=
    World.step_cases hstep
  · cases hevent
    rw [stored_of_idle hidle hstored] at hlive
    exact hlive
  · cases hevent

end Runs

section Sample

open Reference

def credited : List Event :=
  easyOpening 0 alice ++ working 0 (answer 101 (hashOf 7)) ++
    crediting 0 ⟨"3", "1", "", "6553f105", "00000003", "00000000"⟩

def queued : List Event :=
  easyOpening 0 alice ++ working 0 (answer 101 (hashOf 7)) ++
    submitting 0 ⟨"3", "1", "", "6553f105", "00000003", "00000000"⟩ ++ resumes 0 1

def ending : List Occurrence := [.pool (.session 0 .socketClose), .deleted 0]

theorem staysDead_of_settled_run :
    ∃ world, Reach (World.step settings) Settled (World.start 1700000000000 []) world ∧
      world.deleted = [0] ∧ world.clients = [⟨alice, "worker", "aabbccdd", true⟩] ∧
      StaysDead settings world := by
  obtain ⟨world, hworld, hp⟩ := Reach.of_any (World.step settings) Settled
    (World.start 1700000000000 []) (credited.map .pool ++ ending)
    (fun world ↦ world.deleted = [0] ∧ world.clients = [⟨alice, "worker", "aabbccdd", true⟩])
    (by decide +kernel) (by decide +kernel)
  obtain ⟨hdeleted, hclients⟩ := of_decide_eq_true hp
  exact ⟨world, hworld, hdeleted, hclients,
    staysDead_of_settled settings 1700000000000 [] world hworld⟩

/-- The queued insert is carried out after the soft delete, and the row is live. -/
theorem not_staysDead_of_queued_insert :
    ¬ ∀ (cfg : Config) (now : ℕ) (clients : List ClientRow) (world : World),
      Reachable (World.step cfg) (World.start now clients) world → StaysDead cfg world := by
  intro h
  obtain ⟨world, hworld, hp⟩ := Reachable.of_any (World.step settings)
    (World.start 1700000000000 []) (queued.map .pool ++ ending)
    (fun world ↦ world.deleted = [0] ∧ world.clients = [] ∧
      (world.step settings (.pool (.session 0 (.resume 0 (.inserted none))))).any fun world' ↦
        Live world'.clients alice "worker" "aabbccdd")
    (by decide +kernel)
  obtain ⟨hdeleted, hclients, hlive⟩ := of_decide_eq_true hp
  obtain ⟨world', hstep, hlive⟩ := (Option.any_eq_true _ _).mp hlive
  have hdead := h settings 1700000000000 [] world hworld 0 (hdeleted ▸ List.mem_singleton_self 0)
    _ world' hstep alice "worker" "aabbccdd" (of_decide_eq_true hlive)
  obtain ⟨row, hrow, -⟩ := hdead
  rw [hclients] at hrow
  cases hrow

end Sample

end ElektronPool.ClientRows
