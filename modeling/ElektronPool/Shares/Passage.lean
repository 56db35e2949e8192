import ElektronPool.Shares.Course
import ElektronPool.Talk.Turn

namespace ElektronPool.Shares

open Lib Lib.Runs Lib.JavaScript Model Model.View Work Talk

variable {cfg : Config} {v v' w : View} {e : SessionEvent} {a a' : Account}

def Account.enrol (a : Account) (message : SubscriptionMessage) (now : ℕ) (stray : Bool) : Account :=
  { a with
    clientSubscription := some message
    statistics := if a.unstarted then some { submissionCacheStart := now } else a.statistics
    unstarted := false
    stray }

def PopsNone (v : View) (e : SessionEvent) : Prop := ∀ task ∈ popped v e, isToken task = false

/-- What an event does to the account of a session and to its shares. -/
inductive Passage (cfg : Config) (v : View) (e : SessionEvent) (v' : View) : Prop
  | same (hpopped : PopsNone v e) (h : account v' = account (pop v e))
  | subscribed (message : SubscriptionMessage) (stray : Bool) (hpopped : PopsNone v e)
      (hstray : (account v).stray = false → stray = false)
      (h : account v' = (account (pop v e)).enrol message v.now stray)
  | authorized (message : AuthorizationMessage) (stray : Bool) (hpopped : PopsNone v e)
      (hstray : (account v).stray = false → stray = false)
      (h : account v' =
        { account (pop v e) with clientAuthorization := some message, stray := stray })
  | accepted (share : Share) (rest : List Line) (hpopped : PopsNone v e)
      (h : account v' = (account (pop v e)).push (.write (.accepted share) rest))
  | unanswered (share : Share) (rest : List Line)
      (hpopped : popped v e = some (.write (.accepted share) rest)) (hreplied : replied v e = none)
      (h : account v' = account (pop v e))
  | answered (share : Share) (rest : List Line)
      (hpopped : popped v e = some (.write (.accepted share) rest))
      (hreplied : replied v e = some share)
      (h : Answered cfg share v.now ((account (pop v e)).book (.acknowledged share)) (account v'))
  | continued (share : Share) (wait : ShareWait) (rest : List Line) (i : ℕ) (outcome : Outcome)
      (he : e = .resume i outcome) (hpopped : popped v e = some (.share share wait rest))
      (h : Goes cfg share v.now (account (pop v e)) (account v') wait outcome)
  | inserted (partialClient : ClientEntity) (i : ℕ) (updatedAt : Option ℕ)
      (he : e = .resume i (.inserted updatedAt))
      (hpopped : popped v e = some (.insertClient partialClient))
      (h : account v' = { account (pop v e) with entity := some { partialClient with updatedAt } })
  | rejected (partialClient : ClientEntity) (i : ℕ) (he : e = .resume i .failed)
      (hpopped : popped v e = some (.insertClient partialClient))
      (h : account v' = { account (pop v e) with creatingEntity := some .rejected })

/-- What holds of every account: an initialised session has its parties and its
statistics, and its row once a share of it is credited. -/
structure Enrolled (a : Account) : Prop where
  stray : a.stray = false
  started : a.clientSubscription.isSome = true → a.unstarted = false
  statistics : a.unstarted = false → a.statistics.isSome = true
  housed : ∀ share wait rest, Task.share share wait rest ∈ a.tokens → 6 ≤ stage wait →
    a.entity.isSome = true

theorem account_pop (v : View) (e : SessionEvent) :
    account (pop v e) = { account v with tokens := (pop v e).session.tasks.filter isToken } := by
  cases e <;> rfl

theorem PopsNone.of_popped {task : Task} (hpopped : popped v e = some task)
    (h : isToken task = false) : PopsNone v e := by
  intro task' htask
  rw [hpopped] at htask
  cases htask
  exact h

theorem Enrolled.subscribed (h : Enrolled (account v))
    (hinitialized : v.session.stratumInitialized = true) :
    v.session.clientSubscription.isSome = true ∧ v.session.clientAuthorization.isSome = true := by
  have hstray := h.stray
  simpa only [account, hinitialized, Bool.true_and, Bool.not_eq_false', Bool.and_eq_true] using hstray

theorem Enrolled.unstarted (h : Enrolled (account v))
    (hinitialized : v.session.stratumInitialized = true) : (account v).unstarted = false :=
  h.started (h.subscribed hinitialized).1

theorem Enrolled.parties (h : Enrolled (account v))
    (hinitialized : v.session.stratumInitialized = true) :
    ∃ authorization statistics, v.session.clientAuthorization = some authorization ∧
      v.session.statistics = some statistics := by
  have hstatistics := h.statistics (h.unstarted hinitialized)
  exact ⟨_, _, (Option.some_get (h.subscribed hinitialized).2).symm,
    (Option.some_get hstatistics).symm⟩

section Act

theorem passage_subscribe {message : SubscriptionMessage} {rest : List Line}
    (hpopped : PopsNone v e) : Passage cfg v e ((pop v e).subscribe cfg rest message) := by
  simp only [View.subscribe]
  split
  · exact .same hpopped ((account_nextLines rest).trans account_closeSocket)
  · refine .subscribed message (v.session.stratumInitialized &&
      !v.session.clientAuthorization.isSome) hpopped (fun hstray ↦ ?_) ?_
    · simp only [account, Bool.and_eq_false_iff, Bool.not_eq_false', Bool.and_eq_true] at hstray ⊢
      exact hstray.imp_right And.right
    · rw [account_write _ rest rfl]
      have hpop := popped_pop v e
      have hinitialized := pop_session_stratumInitialized v e
      cases hstart : (pop v e).session.sessionStart with
      | none =>
        simp [account, Account.enrol, View.update, hstart, hinitialized, hpop.clientAuthorization,
          hpop.now]
      | some start =>
        simp [account, Account.enrol, View.update, hstart, hinitialized, hpop.clientAuthorization]

theorem passage_authorize {message : AuthorizationMessage} {rest : List Line}
    (hpopped : PopsNone v e) : Passage cfg v e ((pop v e).authorize cfg rest message) := by
  simp only [View.authorize]
  split
  · refine .authorized message (v.session.stratumInitialized &&
      !(pop v e).session.clientSubscription.isSome) hpopped (fun hstray ↦ ?_) ?_
    · have hsame : (pop v e).session.clientSubscription = v.session.clientSubscription := by
        cases e <;> rfl
      rw [hsame]
      simp only [account, Bool.and_eq_false_iff, Bool.not_eq_false', Bool.and_eq_true] at hstray ⊢
      exact hstray.imp_right And.left
    · rw [account_write _ rest rfl]
      have hinitialized := pop_session_stratumInitialized v e
      simp [account, View.update, View.authorized, hinitialized]
  · exact .same hpopped (account_write _ rest rfl)

theorem passage_handleMiningSubmission {submission : MiningSubmitMessage} {rest : List Line}
    (hpopped : PopsNone v e) :
    Passage cfg v e ((pop v e).handleMiningSubmission cfg rest submission) := by
  simp only [View.handleMiningSubmission]
  split
  · exact .same hpopped (account_write _ rest rfl)
  · split
    · exact .same hpopped (account_write _ rest rfl)
    · split
      · exact .same hpopped (account_write _ rest rfl)
      · split
        · exact .same hpopped (account_throw rest)
        · simp only [View.judge]
          split
          · rw [View.write]
            split
            · exact .same hpopped (account_nextLines rest)
            · exact .accepted _ rest hpopped (account_token rfl)
          · exact .same hpopped (account_write _ rest rfl)

theorem passage_handleLines {lines : List Line} (hpopped : PopsNone v e) :
    Passage cfg v e ((pop v e).handleLines cfg lines) := by
  cases lines with
  | nil => exact .same hpopped rfl
  | cons line rest =>
    rw [handleLines]
    split
    · exact .same hpopped rfl
    · cases line with
      | malformed => exact .same hpopped (account_throw rest)
      | throws method =>
        simp only [handleMessage]
        split
        · exact .same hpopped (account_nextLines rest)
        · exact .same hpopped (account_throw rest)
      | invalid method id =>
        simp only [handleMessage]
        split
        · exact .same hpopped (account_nextLines rest)
        · split
          · exact .same hpopped (account_throw rest)
          · exact .same hpopped (account_invalid rest method id)
      | subscribe message => exact passage_subscribe hpopped
      | configure id => exact .same hpopped (account_write _ rest rfl)
      | authorize message => exact passage_authorize hpopped
      | suggestDifficulty id suggestedDifficulty =>
        simp only [handleMessage]
        split
        · exact .same hpopped (account_nextLines rest)
        · exact .same hpopped (account_suggestDifficulty rest suggestedDifficulty)
      | submit submission =>
        simp only [handleMessage]
        split
        · exact .same hpopped (account_throw rest)
        · exact passage_handleMiningSubmission hpopped
      | other => exact .same hpopped (account_finishMessage cfg rest)

theorem passage_resumeWrite {after : AfterWrite} {rest : List Line} {outcome : Outcome} {i : ℕ}
    (he : e = .resume i outcome) (hpopped : popped v e = some (.write after rest))
    (hstatistics : isShare (.write after rest) = true →
      ∃ statistics, v.session.statistics = some statistics)
    (h : (pop v e).resumeWrite cfg after rest outcome = some v') : Passage cfg v e v' := by
  have htask : v.session.tasks[i]? = some (.write after rest) := by
    rw [← hpopped, he]
    rfl
  have hsame (hclosed : v.session.isSocketClosed = true ∨ outcome ≠ .done)
      (hv' : account v' = account (pop v e)) : Passage cfg v e v' := by
    cases hafter : isToken (.write after rest) with
    | false => exact .same (.of_popped hpopped hafter) hv'
    | true =>
      cases after with
      | accepted share =>
        refine .unanswered share rest hpopped ?_ hv'
        subst he
        rcases hclosed with hclosed | hne
        · cases outcome <;> simp [replied, htask, hclosed]
        · cases outcome <;> first | rfl | exact absurd rfl hne
      | _ => cases hafter
  cases outcome with
  | done =>
    simp only [View.resumeWrite] at h
    split at h
    case isTrue hclosed =>
      cases h
      have hclosed : v.session.isSocketClosed = true := by
        rw [← hclosed, he]
        rfl
      exact hsame (.inl hclosed) (account_nextLines rest)
    case isFalse hopen =>
      cases h
      cases after with
      | reply => exact .same (.of_popped hpopped rfl) (account_finishMessage cfg rest)
      | suggested => exact .same (.of_popped hpopped rfl) (account_finishMessage cfg rest)
      | invalidSubmit =>
        exact .same (.of_popped hpopped rfl) ((account_nextLines rest).trans account_closeSocket)
      | accepted share =>
        have hnow := (popped_pop v e).now
        obtain ⟨statistics, hstatistics⟩ := hstatistics rfl
        have hstatistics : (pop v e).session.statistics = some statistics := by
          rw [← hstatistics, he]
          rfl
        have hanswered := answered_afterReply cfg share rest hstatistics
        rw [hnow] at hanswered
        refine .answered share rest hpopped ?_ hanswered
        subst he
        have hopen : ¬ v.session.isSocketClosed = true := hopen
        simp only [replied, htask, if_neg hopen]
      | setDifficulty => exact .same (.of_popped hpopped rfl) (account_startWork rest)
      | notified timestamp => exact .same (.of_popped hpopped rfl) (account_nextLines rest)
  | failed =>
    cases h
    refine hsame (.inr (by simp)) ?_
    rw [account_nextLines]
    exact account_destroy
  | answered | submitted | inserted => cases h

theorem passage_resume {i : ℕ} {outcome : Outcome} (hready : Ready v.session)
    (henrolled : Enrolled (account v)) (he : e = .resume i outcome) (h : v.act cfg e = some v') :
    Passage cfg v e v' := by
  have hpopped : popped v e = v.session.tasks[i]? := by rw [he, popped]
  have hact : v.act cfg e = v.session.tasks[i]?.bind fun task ↦
      (pop v e).resumeTask cfg task outcome := by rw [he, act]; rfl
  rw [hact, Option.bind_eq_some_iff] at h
  obtain ⟨task, htask, h⟩ := h
  rw [htask] at hpopped
  have hmem := List.mem_of_getElem? htask
  have hpop := popped_pop v e
  rw [resumeTask.eq_def] at h
  split at h
  case h_1 lines =>
    cases h
    exact passage_handleLines (.of_popped hpopped rfl)
  case h_2 after rest =>
    refine passage_resumeWrite he hpopped (fun hshare ↦ ?_) h
    obtain ⟨_, statistics, -, hstatistics⟩ := henrolled.parties (hready _ hmem hshare)
    exact ⟨statistics, hstatistics⟩
  case h_3 =>
    cases h
    exact .same (.of_popped hpopped rfl) (account_receiveTemplate cfg _ _ _)
  case h_4 =>
    cases h
    exact .same (.of_popped hpopped rfl) (account_receiveTemplate cfg _ _ _)
  case h_5 share wait rest =>
    obtain ⟨message, statistics, hauthorization, hstatistics⟩ :=
      henrolled.parties (hready _ hmem rfl)
    have hstatistics : (pop v e).session.statistics = some statistics := by
      rw [← hstatistics, he]
      rfl
    have hgoes := goes_resumeShare cfg share rest h
      (hpop.clientAuthorization.trans hauthorization) hstatistics fun hstage ↦ by
        have hhoused := henrolled.housed share wait rest (List.mem_filter.mpr ⟨hmem, rfl⟩) hstage
        rw [hpop.entity]
        exact Option.isSome_iff_exists.mp hhoused
    exact .continued share wait rest i outcome he hpopped (hpop.now ▸ hgoes)
  case h_6 partialClient updatedAt =>
    cases h
    exact .inserted partialClient i updatedAt he hpopped rfl
  case h_7 partialClient =>
    cases h
    exact .rejected partialClient i he hpopped rfl
  case h_8 => cases h

/-- Everything an event of a session can do to its account. -/
theorem passage_of_act (hready : Ready v.session) (henrolled : Enrolled (account v))
    (h : v.act cfg e = some v') : Passage cfg v e v' := by
  have hsame {w : View} (hnone : popped v e = none) (haccount : account w = account (pop v e)) :
      Passage cfg v e w :=
    .same (fun task htask ↦ by rw [hnone] at htask; cases htask) haccount
  cases acts_of_act h with
  | connect => exact hsame rfl rfl
  | data lines => exact hsame rfl (account_nextLines lines)
  | newBlock => exact hsame rfl (account_refreshMiningJob .newBlock)
  | refreshTimer => exact hsame rfl (account_refreshMiningJob .refreshTimer)
  | localTimer => exact hsame rfl (account_refreshLocalMiningWork cfg)
  | difficultyTimer => exact hsame rfl (account_checkDifficulty cfg)
  | socketEnd => exact hsame rfl rfl
  | socketClose => exact hsame rfl account_closeSocket
  | socketUnwritable => exact hsame rfl rfl
  | resume => exact passage_resume hready henrolled rfl h

end Act

section Enrolled

variable {share : Share} {now n : ℕ} {task : Task}

theorem Enrolled.push (h : Enrolled a)
    (htask : ∀ share wait rest, task = .share share wait rest → 6 ≤ stage wait →
      a.entity.isSome = true) : Enrolled (a.push task) where
  stray := h.stray
  started := h.started
  statistics := h.statistics
  housed share wait rest hmem hstage := by
    rcases List.mem_append.mp hmem with hmem | hmem
    · exact h.housed share wait rest hmem hstage
    · exact htask share wait rest (List.mem_singleton.mp hmem).symm hstage

theorem Enrolled.of_tokens (h : Enrolled a) {tokens : List Task} (htokens : tokens ⊆ a.tokens) :
    Enrolled { a with tokens } where
  stray := h.stray
  started := h.started
  statistics := h.statistics
  housed share wait rest hmem := h.housed share wait rest (htokens hmem)

theorem Enrolled.pop (h : Enrolled (account v)) (e : SessionEvent) :
    Enrolled (account (pop v e)) := by
  rw [account_pop]
  exact h.of_tokens (List.filter_subset _ (pop_session_tasks v e))

theorem Enrolled.keep (h : Enrolled a) (statistics : StratumV1ClientStatistics) :
    Enrolled (a.keep statistics) :=
  ⟨h.stray, h.started, fun _ ↦ rfl, h.housed⟩

theorem Enrolled.book (h : Enrolled a) (entry : Entry) : Enrolled (a.book entry) :=
  ⟨h.stray, h.started, h.statistics, h.housed⟩

theorem Enrolled.map (h : Enrolled a) (f : ClientEntity → ClientEntity) :
    Enrolled { a with entity := a.entity.map f } where
  stray := h.stray
  started := h.started
  statistics := h.statistics
  housed share wait rest hmem hstage := by
    rw [Option.isSome_map]
    exact h.housed share wait rest hmem hstage

theorem Tail.enrolled (h : Tail cfg share n a a') (ha : Enrolled a)
    (hentity : a.entity.isSome = true) : Enrolled a' := by
  cases h with
  | through _ _ _ h => exact h ▸ ha
  | waits _ _ _ h => exact h ▸ ha.push fun _ _ _ _ _ ↦ hentity

theorem Course.enrolled (h : Course cfg share now n a a') (ha : Enrolled a) : Enrolled a' := by
  cases h with
  | waits wait rest _ hunpaid h =>
    apply h ▸ ha.push
    intro share' wait' rest' htask hstage
    cases htask
    exact absurd (hunpaid.trans_lt' hstage) (lt_irrefl _)
  | queued partialClient rest _ _ h =>
    rw [h]
    have hpending : Enrolled { a with creatingEntity := some .pending } :=
      ⟨ha.stray, ha.started, ha.statistics, ha.housed⟩
    refine (hpending.push fun _ _ _ htask ↦ by cases htask).push fun _ _ _ htask hstage ↦ ?_
    cases htask
    exact absurd hstage (by decide)
  | suspended _ _ statistics' _ _ _ hentity _ _ h =>
    refine h ▸ ((ha.book _).keep statistics').push fun _ _ _ _ _ ↦ ?_
    exact Option.isSome_of_eq_some hentity
  | credited _ _ statistics' hentity _ _ h =>
    exact h.enrolled ((ha.book _).keep statistics') (Option.isSome_of_eq_some hentity)

theorem Goes.enrolled {wait : ShareWait} {outcome : Outcome}
    (h : Goes cfg share now a a' wait outcome) (ha : Enrolled a)
    (hentity : 6 ≤ stage wait → a.entity.isSome = true) : Enrolled a' := by
  cases h with
  | threw _ h => exact h ▸ ha
  | course _ h => exact h.enrolled ha
  | moved _ _ _ _ statistics' _ _ _ _ h =>
    exact h ▸ (ha.keep statistics').push fun _ _ _ _ _ ↦ hentity (by simp [stage])
  | saved statistics hlate _ h =>
    exact h.enrolled (ha.keep _) (hentity hlate.le)
  | @unsaved wait h => exact h.enrolled ha (hentity (by cases wait <;> simp [stage]))
  | beaten h =>
    refine h.enrolled (ha.map _) ?_
    rw [Account.beat, Option.isSome_map]
    exact hentity (by simp [stage])
  | unbeaten h => exact h.enrolled ha (hentity (by simp [stage]))
  | raised _ _ _ _ h =>
    refine h ▸ ((ha.map _).book _).push fun _ _ _ _ _ ↦ ?_
    rw [Account.book, Option.isSome_map]
    exact hentity (by simp [stage])
  | unraised h => exact h ▸ ha
  | closed h => exact h ▸ ha

theorem Enrolled.entity_pop (h : Enrolled (account v)) {wait : ShareWait} {rest : List Line}
    (hpopped : popped v e = some (.share share wait rest)) (hstage : 6 ≤ stage wait) :
    (account (Shares.pop v e)).entity.isSome = true := by
  rw [account_pop]
  exact h.housed share wait rest (List.mem_filter.mpr ⟨mem_of_popped hpopped, rfl⟩) hstage

theorem Passage.enrolled (h : Passage cfg v e v') (hv : Enrolled (account v)) :
    Enrolled (account v') := by
  have hpop := hv.pop e
  have hstray : (account (Shares.pop v e)).stray = (account v).stray := by
    rw [account_pop]
  cases h with
  | same _ h => exact h ▸ hpop
  | subscribed message stray _ hstray h =>
    rw [h]
    refine ⟨hstray hv.stray, fun _ ↦ rfl, fun _ ↦ ?_, hpop.housed⟩
    rw [Account.enrol]
    split
    · rfl
    case isFalse hstarted => exact hpop.statistics (Bool.eq_false_of_not_eq_true hstarted)
  | authorized message stray _ hstray h =>
    exact h ▸ ⟨hstray hv.stray, hpop.started, hpop.statistics, hpop.housed⟩
  | accepted share rest _ h => exact h ▸ hpop.push fun _ _ _ htask ↦ by cases htask
  | unanswered _ _ _ _ h => exact h ▸ hpop
  | answered share rest _ _ h =>
    have hbooked := hpop.book (.acknowledged share)
    cases h with
    | course _ _ h => exact h.enrolled hbooked
    | block block blockHex rest _ h =>
      apply h ▸ hbooked.push
      intro _ _ _ htask hstage
      cases htask
      exact absurd hstage (by simp [stage])
    | threw _ _ h => exact h ▸ hbooked
  | continued share wait rest i outcome he hpopped h => exact h.enrolled hpop (hv.entity_pop hpopped)
  | inserted partialClient i updatedAt _ _ h =>
    exact h ▸ ⟨hpop.stray, hpop.started, hpop.statistics, fun _ _ _ _ _ ↦ rfl⟩
  | rejected partialClient i _ _ h =>
    exact h ▸ ⟨hpop.stray, hpop.started, hpop.statistics, hpop.housed⟩

theorem enrolled_kept : Kept cfg (fun v ↦ Ready v.session) (fun _ _ ↦ True)
    fun v ↦ Enrolled (account v) where
  tick _ _ h := h
  act _ _ _ hready h _ hact := (passage_of_act hready h hact).enrolled h
  other _ _ _ _ _ _ _ h _ _ _ := ⟨h.stray, h.started, h.statistics, h.housed⟩

theorem enrolled_of_reachable {pool : Pool}
    (h : Reachable (Pool.step cfg) (Pool.start now) pool) (id : SessionId) :
    Enrolled (account (pool.view id)) := by
  refine enrolled_kept.reach (fun _ hpool ↦ ready_of_reachable hpool) (fun _ ↦ ?_)
    (reachable_of_reach h) id
  constructor
  · rfl
  · intro h
    cases h
  · intro h
    cases h
  · intro _ _ _ hmem
    cases hmem

end Enrolled

end ElektronPool.Shares
