import ElektronPool.Found.World

namespace ElektronPool.Found

open Lib Lib.Runs Lib.JavaScript Model Model.View Work Shares

variable {cfg : Config} {v v' : View} {share : Share} {wait : ShareWait} {rest : List Line}
  {outcome : Outcome} {block : Block Number} {blockHex : Bytes} {pool pool' : Pool} {event : Event}
  {world : World} {sends : List String}

def Saves (history : List Entry) (share : Share) (blockHex : Bytes) : Prop :=
  ∃ minerAddress worker sessionId,
    Entry.call share.session (some share) (.saveBlock share.jobTemplate.blockData.height minerAddress
      worker sessionId blockHex) ∈ history

def Saved (world : World) (share : Share) (block : Block Number) (blockHex : Bytes) : Prop :=
  Saves world.pool.history share blockHex ∧
    ∃ savedAt, (share, .saveBlock block, savedAt) ∈ world.ended

def Calls (pool : Pool) (share : Share) (call : Call) : Prop :=
  Entry.call share.session (some share) call ∈ pool.history

/-- How far the records of an accepted block are. -/
inductive Stage (world : World) (share : Share) (block : Block Number) (blockHex : Bytes) :
    ℕ → Prop
  | saving (hsaves : Saves world.pool.history share blockHex)
      (hwaits : Waits world.pool share (.saveBlock block)) : Stage world share block blockHex 0
  | notifying (hsaved : Saved world share block blockHex) (address : String) (height : ℕ)
      (hnotifies : Calls world.pool share (.notifySubscribersBlockFound address height))
      (hwaits : Waits world.pool share (.notifySubscribers block)) :
    Stage world share block blockHex 1
  | resetting (hsaved : Saved world share block blockHex)
      (hresets : Calls world.pool share .resetBestDifficultyAndShares)
      (hwaits : Waits world.pool share (.resetBest block)) : Stage world share block blockHex 2
  | reported (hsaved : Saved world share block blockHex)
      (hresets : Calls world.pool share .resetBestDifficultyAndShares)
      (hreports : Calls world.pool share (.reportBlockFound block)) (foundAt : ℕ)
      (hended : (share, .resetBest block, foundAt) ∈ world.ended) :
    Stage world share block blockHex 3

def waitAt (block : Block Number) : ℕ → ShareWait
  | 0 => .saveBlock block
  | 1 => .notifySubscribers block
  | _ => .resetBest block

theorem waits_suspend (v : View) :
    Waits (pool.put share.session (v.suspend (.share share wait rest))) share wait := by
  refine ⟨rest, ?_⟩
  rw [Pool.sessions_put_self]
  exact List.mem_append_right _ (List.mem_singleton_self _)

theorem ended_subset (event : Event) (pool' : Pool) (sends : List String) :
    world.ended ⊆ (world.after cfg event pool' sends).ended :=
  List.subset_append_right _ _

theorem mem_ended_of_succeeded {pool' : Pool}
    (h : succeeded world.pool event = some (share, wait)) :
    (share, wait, world.pool.now) ∈ (world.after cfg event pool' sends).ended := by
  refine List.mem_append_left _ ?_
  rw [h]
  exact List.mem_singleton_self _

theorem succeeded_of_done {id : SessionId} {i : ℕ}
    (htask : (pool.sessions id).tasks[i]? = some (.share share wait rest))
    (hwait : ∀ block blockHex, wait ≠ .submitBlock block blockHex) :
    succeeded pool (.session id (.resume i .done)) = some (share, wait) := by
  rw [succeeded, resumed_of_task htask, Option.bind_some]
  refine if_pos ?_
  cases wait with
  | submitBlock block blockHex => exact absurd rfl (hwait block blockHex)
  | _ => rfl

theorem Saves.step (h : Saves pool.history share blockHex)
    (hstep : pool.step cfg event = some pool') : Saves pool'.history share blockHex := by
  obtain ⟨minerAddress, worker, sessionId, hcall⟩ := h
  exact ⟨minerAddress, worker, sessionId, history_of_step hstep hcall⟩

theorem Saved.after (h : Saved world share block blockHex)
    (hstep : world.pool.step cfg event = some pool') (sends : List String) :
    Saved (world.after cfg event pool' sends) share block blockHex := by
  obtain ⟨hsaves, savedAt, hended⟩ := h
  exact ⟨hsaves.step hstep, savedAt, ended_subset event pool' sends hended⟩

theorem Calls.step {call : Call} (h : Calls pool share call)
    (hstep : pool.step cfg event = some pool') :
    Calls pool' share call :=
  history_of_step hstep h

variable {i n : ℕ}

theorem Stage.advance (h : Stage world share block blockHex n) (hn : n < 3)
    (htask : (world.pool.sessions share.session).tasks[i]? =
      some (.share share (waitAt block n) rest))
    (hauthorized : ∃ authorization,
      (world.pool.sessions share.session).clientAuthorization = some authorization)
    (hstep : world.pool.step cfg (.session share.session (.resume i .done)) = some pool') :
    Stage (world.after cfg (.session share.session (.resume i .done)) pool' sends) share block
      blockHex (n + 1) := by
  obtain ⟨v', hresume, rfl⟩ := resumeShare_of_step hstep htask
  have hended {wait : ShareWait} (hwait : waitAt block n = wait)
      (hblock : ∀ block blockHex, wait ≠ .submitBlock block blockHex) :
      (share, wait, world.pool.now) ∈ (world.after cfg (.session share.session (.resume i .done))
        (world.pool.put share.session v') sends).ended :=
    mem_ended_of_succeeded (succeeded_of_done (hwait ▸ htask) hblock)
  cases h with
  | saving hsaves hwaits =>
    obtain ⟨authorization, hauthorization⟩ := hauthorized
    have hauthorization : (pop (world.pool.view share.session)
        (.resume i .done)).session.clientAuthorization = some authorization := hauthorization
    simp only [waitAt, resumeShare, afterSaveBlock, hauthorization, Option.some.injEq] at hresume
    have hsaves := hsaves.step hstep
    subst hresume
    exact .notifying ⟨hsaves, world.pool.now, hended rfl (by simp)⟩ _ _ List.mem_cons_self
      (waits_suspend _)
  | notifying hsaved _ _ _ hwaits =>
    have hsaved := hsaved.after hstep sends
    simp only [waitAt, resumeShare, Option.some.injEq] at hresume
    subst hresume
    exact .resetting hsaved List.mem_cons_self (waits_suspend _)
  | resetting hsaved hresets hwaits =>
    have hsaved := hsaved.after hstep sends
    have hresets := hresets.step hstep
    simp only [waitAt, resumeShare, Option.some.injEq] at hresume
    subst hresume
    exact .reported hsaved hresets List.mem_cons_self world.pool.now (hended rfl (by simp))
  | reported => exact absurd hn (lt_irrefl 3)

theorem done_of_resumeShare (h : v.resumeShare cfg share rest wait outcome = some v')
    (hwait : isRecording wait = true) (hfailed : outcome ≠ .failed) : outcome = .done := by
  cases outcome with
  | done => rfl
  | failed => exact absurd rfl hfailed
  | answered | submitted | inserted =>
    cases wait with
    | saveBlock | notifySubscribers | resetBest => cases h
    | _ => cases hwait

/-- A block stays at its stage until its call succeeds. -/
theorem Stage.after (h : Stage world share block blockHex n)
    (hpool : ∃ now, Reachable (Pool.step cfg) (Pool.start now) world.pool)
    (hstep : world.pool.step cfg event = some pool') (hfails : fails share world.pool event = false)
    (sends : List String) :
    Stage (world.after cfg event pool' sends) share block blockHex n ∨
      Stage (world.after cfg event pool' sends) share block blockHex (n + 1) := by
  obtain ⟨now, hpool⟩ := hpool
  have hnext {wait : ShareWait} (hn : n < 3) (hwait : waitAt block n = wait)
      (hrecording : isRecording wait = true) (hwaits : Waits world.pool share wait) :
      Waits pool' share wait ∨
        Stage (world.after cfg event pool' sends) share block blockHex (n + 1) := by
    refine (waits_of_step hstep hwaits).imp_right ?_
    rintro ⟨i, outcome, rest, rfl, htask⟩
    obtain ⟨v', hresume, -⟩ := resumeShare_of_step hstep htask
    have hfailed : outcome ≠ .failed := by
      rintro rfl
      simp [fails, resumed_of_task htask, hrecording] at hfails
    obtain rfl := done_of_resumeShare hresume hrecording hfailed
    subst hwait
    exact h.advance hn htask (authorized_of_waits hpool (List.mem_of_getElem? htask)) hstep
  cases h with
  | saving hsaves hwaits =>
    refine (hnext (by decide) rfl rfl hwaits).imp_left fun hwaits ↦ ?_
    exact .saving (hsaves.step hstep) hwaits
  | notifying hsaved address height hnotifies hwaits =>
    refine (hnext (by decide) rfl rfl hwaits).imp_left fun hwaits ↦ ?_
    exact .notifying (hsaved.after hstep sends) address height (hnotifies.step hstep) hwaits
  | resetting hsaved hresets hwaits =>
    refine (hnext (by decide) rfl rfl hwaits).imp_left fun hwaits ↦ ?_
    exact .resetting (hsaved.after hstep sends) (hresets.step hstep) hwaits
  | reported hsaved hresets hreports foundAt hended =>
    exact .inl (.reported (hsaved.after hstep sends) (hresets.step hstep) (hreports.step hstep) foundAt
      (ended_subset event pool' sends hended))

theorem saving_of_accepted {id : SessionId} {response : String}
    (hpool : ∃ now, Reachable (Pool.step cfg) (Pool.start now) world.pool)
    (hstep : world.pool.step cfg (.session id (.resume i (.submitted response))) = some pool')
    (htask : (world.pool.sessions id).tasks[i]? =
      some (.share share (.submitBlock block blockHex) rest)) (hresponse : response = "SUCCESS!") :
    Stage (world.after cfg (.session id (.resume i (.submitted response))) pool' sends) share block
      blockHex 0 := by
  obtain ⟨now, hpool⟩ := hpool
  obtain ⟨howner, -⟩ := (ledger_of_reachable hpool id).followed _ _ _ (List.mem_of_getElem? htask)
  obtain rfl : share.session = id := howner
  obtain ⟨authorization, hauthorization⟩ :=
    authorized_of_waits hpool (List.mem_of_getElem? htask)
  have hauthorization : (pop (world.pool.view share.session)
      (.resume i (.submitted response))).session.clientAuthorization = some authorization :=
    hauthorization
  obtain ⟨v', hresume, rfl⟩ := resumeShare_of_step hstep htask
  simp only [resumeShare, afterSubmitBlock, hauthorization, if_pos hresponse,
    Option.some.injEq] at hresume
  subst hresume
  exact .saving ⟨_, _, _, List.mem_cons_self⟩ (waits_suspend _)

theorem Stage.congr {world' : World} (h : Stage world share block blockHex n)
    (hpool : world'.pool = world.pool) (hended : world'.ended = world.ended) :
    Stage world' share block blockHex n := by
  obtain ⟨pool, _, _, _, ended⟩ := world
  obtain ⟨pool', _, _, _, ended'⟩ := world'
  obtain rfl : pool' = pool := hpool
  obtain rfl : ended' = ended := hended
  cases h with
  | saving hsaves hwaits => exact .saving hsaves hwaits
  | notifying hsaved address height hnotifies hwaits =>
    exact .notifying hsaved address height hnotifies hwaits
  | resetting hsaved hresets hwaits => exact .resetting hsaved hresets hwaits
  | reported hsaved hresets hreports foundAt hended =>
    exact .reported hsaved hresets hreports foundAt hended

end ElektronPool.Found
