import ElektronPool.Model.Stores
import ElektronPool.Reference
import ElektronPool.Shares.Passage

namespace ElektronPool.BestDifficulty

open Lib Lib.Runs Model Model.View Work Shares Talk AddressSettingsService

variable {cfg : Config} {v v' : View} {e : SessionEvent} {share : Share} {a a' : Account}
  {now n : ℕ}

/-- The settings of the addresses, and what is noted of the shares: how long the
history was at the last reset, the shares of which a call has failed, and those
whose handling has ended since the reset, each with its address. -/
structure Scores where
  settings : List AddressSettingsEntity
  resetAt : ℕ := 0
  failed : List Share := []
  ended : List (String × Share) := []

def Scores.start (settings : List AddressSettingsEntity) : Scores := { settings }

def carries (cfg : Config) (v : View) : SessionEvent → Option Share
  | .resume _ .failed => none
  | e =>
    match popped v e with
    | some (.write (.accepted _) _) => (replied v e).filter fun share ↦ ¬ share.IsBlock cfg.js
    | some (.share share _ _) => some share
    | _ => none

def isAbout (share : Share) : Task → Bool
  | .write (.accepted s) _ | .share s _ _ => s = share
  | _ => false

def ends (cfg : Config) (v : View) (e : SessionEvent) : Option Share :=
  (carries cfg v e).filter fun share ↦ (v.act cfg e).any fun v' ↦
    v'.session.tasks.all fun task ↦ !isAbout share task

def addressBest : Call → Option (String × Difficulty × String)
  | .updateAddressBest address bestDifficulty userAgent => some (address, bestDifficulty, userAgent)
  | _ => none

/-- The update of an address that an event reports to be carried out, with its arguments. -/
def updates (v : View) : SessionEvent → Option (Share × String × Difficulty × String)
  | .resume i .done =>
    match v.session.tasks[i]? with
    | some (.share share .addressBest _) => (lastCall v.history share addressBest).map (share, ·)
    | _ => none
  | _ => none

def resets (v : View) : SessionEvent → Bool
  | .resume i .done =>
    match v.session.tasks[i]? with
    | some (.share _ (.resetBest _) _) => true
    | _ => false
  | _ => false

def fails (v : View) : SessionEvent → Option Share
  | .resume i .failed =>
    match v.session.tasks[i]? with
    | some (.share share _ _) => some share
    | _ => none
  | _ => none

/-- A share that ends without an update of its address, though it was submitted
after the last reset and none of its calls has failed. -/
def passes (cfg : Config) (scores : Scores) (v : View) (e : SessionEvent) : Option Share :=
  match popped v e with
  | some (.share _ .addressBest _) => none
  | _ => (ends cfg v e).filter fun share ↦
    scores.resetAt ≤ share.serial ∧ share ∉ scores.failed

def addressOf (v : View) : Option String :=
  v.session.clientAuthorization.map AuthorizationMessage.address

def noteScores (cfg : Config) (scores : Scores) (v : View) (e : SessionEvent) : Scores :=
  if resets v e then
    { scores with
      settings := resetBestDifficultyAndShares scores.settings
      resetAt := v.history.length
      ended := [] }
  else
    match updates v e, passes cfg scores v e, addressOf v, fails v e with
    | some (share, address, bestDifficulty, userAgent), _, _, _ =>
      { scores with
        settings :=
          updateBestDifficultyIfHigher scores.settings address bestDifficulty userAgent
        ended := (address, share) :: scores.ended }
    | none, some share, some address, _ => { scores with ended := (address, share) :: scores.ended }
    | none, _, _, some share => { scores with failed := share :: scores.failed }
    | none, _, _, none => scores

def note (cfg : Config) (scores : Scores) (pool : Pool) : Event → Scores
  | .tick _ => scores
  | .session id e => noteScores cfg scores (pool.view id) e

/-- When a share ends without an update of its address, the best difficulty stored
for the address is not below the one its session has in memory. -/
def Backed (cfg : Config) (p : Pool × Scores) : Event → Prop
  | .tick _ => True
  | .session id e =>
    (passes cfg p.2 (p.1.view id) e).isSome = true → ∀ address ∈ addressOf (p.1.view id),
      ∀ entity ∈ (p.1.sessions id).entity,
        entity.bestDifficulty ≤ bestDifficulty p.2.settings address

instance (cfg : Config) (p : Pool × Scores) (event : Event) : Decidable (Backed cfg p event) :=
  match event with
  | .tick _ => .isTrue trivial
  | .session _ _ => inferInstanceAs (Decidable (_ → ∀ _ ∈ _, ∀ _ ∈ _, _))

/-- No share that has ended since the last reset is above the best difficulty of its address. -/
def NoneLeftBehind (js : BitcoinJs) (scores : Scores) : Prop :=
  ∀ p ∈ scores.ended, p.2.submissionDifficulty js ≤ bestDifficulty scores.settings p.1

section Calls

variable {js : BitcoinJs} {entry : Entry} {statistics : StratumV1ClientStatistics} {task : Task}

def Called (js : BitcoinJs) (a : Account) : Prop :=
  ∀ id share address bestDifficulty userAgent,
    Entry.call id (some share) (.updateAddressBest address bestDifficulty userAgent) ∈ a.bookings →
      bestDifficulty = share.submissionDifficulty js

theorem Called.book (h : Called js a)
    (hentry : ∀ id share address bestDifficulty userAgent,
      entry = .call id (some share) (.updateAddressBest address bestDifficulty userAgent) →
        bestDifficulty = share.submissionDifficulty js) : Called js (a.book entry) := by
  intro id share address bestDifficulty userAgent hmem
  rcases List.mem_cons.mp hmem with heq | hmem
  · exact hentry _ _ _ _ _ heq.symm
  · exact h _ _ _ _ _ hmem

theorem Called.of_bookings (h : Called js a) (hbookings : a'.bookings = a.bookings) :
    Called js a' := by
  intro id share address bestDifficulty userAgent hmem
  exact h _ _ _ _ _ (hbookings ▸ hmem)

theorem Called.credited (h : Called js a) (share : Share) (statistics : StratumV1ClientStatistics) :
    Called js ((a.book (.credited share)).keep statistics) :=
  (h.book fun _ _ _ _ _ heq ↦ by cases heq).of_bookings rfl

theorem Course.called (h : Course cfg share now n a a') (ha : Called cfg.js a) :
    Called cfg.js a' := by
  cases h with
  | waits _ _ _ _ h => exact ha.of_bookings (h ▸ rfl)
  | queued _ _ _ _ h => exact ha.of_bookings (h ▸ rfl)
  | suspended _ _ statistics' _ _ _ _ _ _ h =>
    exact (ha.credited share statistics').of_bookings (h ▸ rfl)
  | credited _ _ statistics' _ _ _ h =>
    exact (ha.credited share statistics').of_bookings h.bookings

theorem Goes.called {wait : ShareWait} {outcome : Outcome}
    (h : Goes cfg share now a a' wait outcome) (ha : Called cfg.js a) : Called cfg.js a' := by
  cases h with
  | threw _ h => exact h ▸ ha
  | course _ h => exact Course.called h ha
  | moved _ _ _ _ _ _ _ _ _ h => exact ha.of_bookings (h ▸ rfl)
  | saved _ _ _ h => exact ha.of_bookings h.bookings
  | unsaved h => exact ha.of_bookings h.bookings
  | beaten h => exact ha.of_bookings h.bookings
  | unbeaten h => exact ha.of_bookings h.bookings
  | raised id address userAgent rest h =>
    have hraised : Called cfg.js (a.raise (share.submissionDifficulty cfg.js)) :=
      ha.of_bookings rfl
    rw [h]
    refine (hraised.book fun _ _ _ _ _ heq ↦ ?_).of_bookings rfl
    cases heq
    rfl
  | unraised h => exact h ▸ ha
  | closed h => exact h ▸ ha

theorem Passage.called (h : Passage cfg v e v') (hv : Called cfg.js (account v)) :
    Called cfg.js (account v') := by
  have hpop : Called cfg.js (account (pop v e)) := hv.of_bookings (by rw [account_pop])
  cases h with
  | same _ h => exact h ▸ hpop
  | subscribed _ _ _ _ h => exact hpop.of_bookings (h ▸ rfl)
  | authorized _ _ _ _ h => exact hpop.of_bookings (h ▸ rfl)
  | accepted _ _ _ h => exact hpop.of_bookings (h ▸ rfl)
  | unanswered _ _ _ _ h => exact h ▸ hpop
  | answered share _ _ _ h =>
    have hbooked : Called cfg.js ((account (pop v e)).book (.acknowledged share)) :=
      hpop.book fun _ _ _ _ _ heq ↦ by cases heq
    cases h with
    | course _ _ h => exact Course.called h hbooked
    | block _ _ _ _ h => exact hbooked.of_bookings (h ▸ rfl)
    | threw _ _ h => exact h ▸ hbooked
  | continued _ _ _ _ _ _ _ h => exact Goes.called h hpop
  | inserted _ _ _ _ _ h => exact hpop.of_bookings (h ▸ rfl)
  | rejected _ _ _ _ h => exact hpop.of_bookings (h ▸ rfl)

theorem called_kept : Kept cfg (fun v ↦ Ready v.session ∧ Enrolled (account v)) (fun _ _ ↦ True)
    fun v ↦ Called cfg.js (account v) where
  tick _ _ h := h
  act _ _ _ hJ h _ hact := Passage.called (passage_of_act hJ.1 hJ.2 hact) h
  other _ _ _ _ _ _ hJ _ h _ hact :=
    (Passage.called (passage_of_act hJ.1 hJ.2 hact) h).of_bookings rfl

theorem called_of_reachable {pool : Pool}
    (h : Reachable (Pool.step cfg) (Pool.start now) pool) (id : SessionId) :
    Called cfg.js (account (pool.view id)) :=
  called_kept.reach (fun _ hpool id ↦ ⟨ready_of_reachable hpool id, enrolled_of_reachable hpool id⟩)
    (fun _ _ _ _ _ _ hmem ↦ by cases hmem) (reachable_of_reach h) id

end Calls

section Ends

theorem over_of_ends (hact : v.act cfg e = some v') (h : ends cfg v e = some share) :
    carries cfg v e = some share ∧
      ∀ wait rest, Task.share share wait rest ∉ (account v').tokens := by
  obtain ⟨hcarries, hover⟩ := Option.filter_eq_some_iff.mp h
  refine ⟨hcarries, ?_⟩
  intro wait rest hmem
  rw [hact, Option.any_some, List.all_eq_true] at hover
  have hnot := hover _ (List.mem_filter.mp hmem).1
  simp [isAbout] at hnot

theorem gate_of_tail (h : Tail cfg share n a a')
    (hover : ∀ wait rest, Task.share share wait rest ∉ a'.tokens) :
    ∃ entity, a.entity = some entity ∧
      share.submissionDifficulty cfg.js ≤ entity.bestDifficulty := by
  cases h with
  | through entity hentity hgate _ => exact ⟨entity, hentity, not_lt.mp hgate⟩
  | waits wait rest _ h =>
    refine absurd ?_ (hover wait rest)
    rw [h]
    exact List.mem_append_right _ (List.mem_singleton_self _)

theorem gate_of_course (h : Course cfg share now n a a')
    (hover : ∀ wait rest, Task.share share wait rest ∉ a'.tokens) :
    ∃ entity, a.entity = some entity ∧
      share.submissionDifficulty cfg.js ≤ entity.bestDifficulty := by
  have hpushed {b : Account} {wait : ShareWait} {rest : List Line}
      (h : a' = b.push (.share share wait rest)) : False := by
    refine hover wait rest ?_
    rw [h]
    exact List.mem_append_right _ (List.mem_singleton_self _)
  cases h with
  | waits _ _ _ _ h => exact (hpushed h).elim
  | queued _ _ _ _ h => exact (hpushed h).elim
  | suspended _ _ _ _ _ _ _ _ _ h => exact (hpushed h).elim
  | credited _ _ _ _ _ _ h =>
    obtain ⟨entity, hsome, hgate⟩ := gate_of_tail h hover
    exact ⟨entity, hsome, hgate⟩

theorem gate_of_goes {wait : ShareWait} {outcome : Outcome} (h : Goes cfg share now a a' wait outcome)
    (hdone : outcome ≠ .failed) (hupdate : wait ≠ .addressBest)
    (hover : ∀ wait rest, Task.share share wait rest ∉ a'.tokens) :
    ∃ entity, a.entity = some entity ∧
      share.submissionDifficulty cfg.js ≤ entity.bestDifficulty := by
  have hpushed {b : Account} {wait : ShareWait} {rest : List Line}
      (h : a' = b.push (.share share wait rest)) : False := by
    refine hover wait rest ?_
    rw [h]
    exact List.mem_append_right _ (List.mem_singleton_self _)
  cases h with
  | threw => exact absurd rfl hdone
  | course _ h => exact gate_of_course h hover
  | moved _ _ _ _ _ _ _ _ _ h => exact (hpushed h).elim
  | saved _ _ _ h =>
    obtain ⟨entity, hsome, hgate⟩ := gate_of_tail h hover
    exact ⟨entity, hsome, hgate⟩
  | unsaved => exact absurd rfl hdone
  | beaten h =>
    obtain ⟨entity, hbeaten, hgate⟩ := gate_of_tail h hover
    obtain ⟨entity', hsome, rfl⟩ := Option.map_eq_some_iff.mp hbeaten
    exact ⟨entity', hsome, hgate⟩
  | unbeaten => exact absurd rfl hdone
  | raised _ _ _ _ h => exact (hpushed h).elim
  | unraised => exact absurd rfl hdone
  | closed => exact absurd rfl hupdate

theorem gate_of_ends (h : Passage cfg v e v') (hact : v.act cfg e = some v')
    (hends : ends cfg v e = some share)
    (hupdate : ∀ s rest, popped v e ≠ some (.share s .addressBest rest)) :
    ∃ entity, v.session.entity = some entity ∧
      share.submissionDifficulty cfg.js ≤ entity.bestDifficulty := by
  obtain ⟨hcarries, hover⟩ := over_of_ends hact hends
  have hentity : (account (pop v e)).entity = v.session.entity := (popped_pop v e).entity
  rw [carries.eq_def] at hcarries
  split at hcarries
  case h_1 => cases hcarries
  case h_2 hdone =>
    have hnone (hpopped : PopsNone v e) : False := by
      split at hcarries
      case h_1 htask => cases hpopped _ htask
      case h_2 htask => cases hpopped _ htask
      case h_3 => cases hcarries
    cases h with
    | same hpopped => exact (hnone hpopped).elim
    | subscribed _ _ hpopped => exact (hnone hpopped).elim
    | authorized _ _ hpopped => exact (hnone hpopped).elim
    | accepted _ _ hpopped => exact (hnone hpopped).elim
    | unanswered s rest hpopped hreplied =>
      rw [hpopped, hreplied] at hcarries
      cases hcarries
    | answered s rest hpopped hreplied h =>
      rw [hpopped, hreplied] at hcarries
      obtain ⟨heq, hblock⟩ := Option.filter_eq_some_iff.mp hcarries
      cases heq
      have hblock : ¬ share.IsBlock cfg.js := of_decide_eq_true hblock
      cases h with
      | course _ _ h =>
        obtain ⟨entity, hsome, hgate⟩ := gate_of_course h hover
        exact ⟨entity, hentity ▸ hsome, hgate⟩
      | block _ _ _ h => exact absurd h hblock
      | threw h => exact absurd h hblock
    | continued s wait rest i outcome he hpopped h =>
      rw [hpopped] at hcarries hupdate
      cases hcarries
      exact hentity ▸ gate_of_goes h (fun houtcome ↦ hdone i (houtcome ▸ he))
        (fun hwait ↦ hupdate share rest (by rw [hwait])) hover
    | inserted _ _ _ _ hpopped =>
      rw [hpopped] at hcarries
      cases hcarries
    | rejected _ _ _ hpopped =>
      rw [hpopped] at hcarries
      cases hcarries

theorem gate_of_passes {scores : Scores} (h : Passage cfg v e v') (hact : v.act cfg e = some v')
    (hpasses : passes cfg scores v e = some share) :
    ∃ entity, v.session.entity = some entity ∧
      share.submissionDifficulty cfg.js ≤ entity.bestDifficulty := by
  rw [passes.eq_def] at hpasses
  split at hpasses
  case h_1 => cases hpasses
  case h_2 hupdate =>
    obtain ⟨hends, -⟩ := Option.filter_eq_some_iff.mp hpasses
    exact gate_of_ends h hact hends hupdate

end Ends

section Runs

variable {pool pool' : Pool} {scores : Scores} {event : Event}

theorem difficulty_of_updates {address userAgent : String} {d : Difficulty}
    (h : updates v e = some (share, address, d, userAgent)) (hcalled : Called cfg.js (account v)) :
    d = share.submissionDifficulty cfg.js := by
  rw [updates.eq_def] at h
  split at h
  case h_1 =>
    split at h
    case h_1 =>
      obtain ⟨args, hcall, heq⟩ := Option.map_eq_some_iff.mp h
      cases heq
      obtain ⟨id, call, hmem, hselect⟩ := mem_of_lastCall hcall
      cases call <;> cases hselect
      exact hcalled _ _ _ _ _ (List.mem_filter.mpr ⟨hmem, rfl⟩)
    case h_2 => cases h
  case h_2 => cases h

theorem noneLeftBehind_of_act (h : NoneLeftBehind cfg.js scores) (hpassage : Passage cfg v e v')
    (hact : v.act cfg e = some v') (hcalled : Called cfg.js (account v))
    (hbacked : (passes cfg scores v e).isSome = true → ∀ address ∈ addressOf v,
      ∀ entity ∈ v.session.entity,
        entity.bestDifficulty ≤ bestDifficulty scores.settings address) :
    NoneLeftBehind cfg.js (noteScores cfg scores v e) := by
  rw [noteScores]
  split
  · intro p hmem
    cases hmem
  · cases hupdates : updates v e with
    | some update =>
      obtain ⟨share, address, d, userAgent⟩ := update
      intro p hmem
      rcases List.mem_cons.mp hmem with rfl | hmem
      · rw [← difficulty_of_updates hupdates hcalled]
        exact updateBestDifficultyIfHigher_ge _ _ _ _
      · exact (h p hmem).trans (le_updateBestDifficultyIfHigher _ _ _ _ _)
    | none =>
      cases hpasses : passes cfg scores v e with
      | none => cases fails v e <;> exact h
      | some share =>
        cases haddress : addressOf v with
        | none => cases fails v e <;> exact h
        | some address =>
          intro p hmem
          rcases List.mem_cons.mp hmem with rfl | hmem
          · obtain ⟨entity, hentity, hgate⟩ := gate_of_passes hpassage hact hpasses
            rw [hpasses] at hbacked
            exact hgate.trans (hbacked rfl address haddress entity hentity)
          · exact h p hmem

end Runs

section Sample

open Reference

def first (outcome : Outcome) : List Event :=
  easyOpening 0 alice ++ working 0 (answer 101 (hashOf 7)) ++
    submitting 0 ⟨"3", "1", "", "6553f105", "00000005", "00000000"⟩ ++ resumes 0 1 ++
    .session 0 (.resume 0 (.inserted none)) :: resumes 0 4 ++ [.session 0 (.resume 0 outcome)]

def lower : List Event :=
  submitting 0 ⟨"3", "1", "", "6553f105", "00000003", "00000000"⟩ ++ resumes 0 1

end Sample

end ElektronPool.BestDifficulty
