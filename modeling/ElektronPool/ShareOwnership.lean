import ElektronPool.Shares.Records

namespace ElektronPool.ShareOwnership

open Lib Lib.Runs Model Model.View Work Shares Payout

variable {cfg : Config} {v v' : View} {e : SessionEvent} {P : String → Prop} {pool : Pool}
  {id : SessionId} {output : Bytes}

/-- Every address of the session has a property: those it has now, and those of its
records and of the jobs it was sent. -/
structure Names (cfg : Config) (P : String → Prop) (v : View) : Prop where
  known : ∀ address, Known v address → P address
  inserts : ∀ partialClient, Task.insertClient partialClient ∈ v.session.tasks →
    P partialClient.address
  records : ∀ share call address, Entry.call v.self (some share) call ∈ v.history →
    recordAddress call = some address → P address
  jobs : ∀ job t, Entry.job v.self job t ∈ v.history → ∃ address, P address ∧ PaysTo cfg job address

theorem Names.act (h : Names cfg P v) (hsound : Sound cfg v)
    (hguard : ∀ message, authorizes cfg v e = some message → P message.address)
    (hact : v.act cfg e = some v') : Names cfg P v' := by
  have hdeal := deal_of_act hact
  have hself : v'.self = v.self := (extends_of_act hact).self
  refine ⟨fun address hknown ↦ ?_, fun partialClient hmem ↦ ?_,
    fun share call address hmem haddress ↦ ?_, fun job t hmem ↦ ?_⟩
  · obtain hold | ⟨message, he, rfl⟩ | ⟨partialClient, hmem, rfl⟩ := hdeal.known hknown
    · exact h.known address hold
    · exact hguard message he
    · exact h.inserts partialClient hmem
  · by_cases hold : Task.insertClient partialClient ∈ v.session.tasks
    · exact h.inserts partialClient hold
    · exact h.known _ (hdeal.entered.insert_of_new hmem hold)
  · rw [hself] at hmem
    by_cases hold : Entry.call v.self (some share) call ∈ v.history
    · exact h.records share call address hold haddress
    · exact h.known address ((hdeal.entered.known_of_new hmem hold).2 address haddress)
  · rw [hself] at hmem
    rcases (step_of_act hact).delivers.job _ job t hmem with hold | ⟨-, hbuilt, -⟩
    · exact h.jobs job t hold
    · obtain ⟨message, network, jobId, template, now, hauthorization, hnetwork, hjob⟩ := hbuilt
      refine ⟨message.address, h.known _ (.inl (by rw [hauthorization]; rfl)), ?_⟩
      exact paysTo_of_new hnetwork (hsound.held.valid message hauthorization) hjob

theorem Names.other {self : SessionId} {session : Session}
    (h : Names cfg P (View.of v self session)) (hne : self ≠ v.self)
    (hact : v.act cfg e = some v') : Names cfg P (View.of v' self session) := by
  refine ⟨h.known, h.inserts, fun share call address hmem haddress ↦ ?_, fun job t hmem ↦ ?_⟩
  · by_cases hold : Entry.call self (some share) call ∈ v.history
    · exact h.records share call address hold haddress
    · exact absurd ((deal_of_act hact).entered.known_of_new hmem hold).1 hne
  · rcases (step_of_act hact).delivers.job _ job t hmem with hold | ⟨hself, -⟩
    · exact h.jobs job t hold
    · exact absurd hself hne

/-- Every authorization the session accepts names an address with this property. -/
def Authorizes (cfg : Config) (id : SessionId) (P : String → Prop) (v : View) (e : SessionEvent) :
    Prop :=
  v.self = id → ∀ message ∈ authorizes cfg v e, P message.address

instance [DecidablePred P] : Decidable (Authorizes cfg id P v e) :=
  inferInstanceAs (Decidable (_ → ∀ _ ∈ _, P _))

theorem names_kept (id : SessionId) : Kept cfg (Sound cfg) (Authorizes cfg id P)
    fun v ↦ v.self = id → Names cfg P v where
  tick _ _ h hself := { h hself with }
  act _ _ _ hsound h hguard hact hself := by
    have hself := (extends_of_act hact).self.symm.trans hself
    exact (h hself).act hsound (hguard hself) hact
  other _ _ _ self session hne _ hother _ _ hact hself := by
    have hnames := (hother hself).other hne hact
    exact hnames

theorem names_of_reach {now : ℕ}
    (h : Reach (Pool.step cfg) (onSession (Authorizes cfg id P)) (Pool.start now) pool) :
    Names cfg P (pool.view id) := by
  refine (names_kept id).reach (fun _ hpool ↦ sound_of_reachable hpool) (fun id' _ ↦ ?_) h id rfl
  constructor <;> simp [Pool.start, Pool.view, Known]

def SentTo (pool : Pool) (id : SessionId) (job : MiningJob) : Prop :=
  ∃ sent ∈ (pool.sessions id).sentJobs, sent.job = job

instance (id : SessionId) (job : MiningJob) : Decidable (SentTo pool id job) :=
  inferInstanceAs (Decidable (∃ _ ∈ _, _))

/-- An accepted share is for a job that was sent to some session. If its own session is only ever
authorized with addresses of one script, its records are made under that script,
which is the one the job pays when it was sent to that session. -/
theorem records_of_accepted (cfg : Config) (now : ℕ) (pool : Pool)
    (h : Reachable (Pool.step cfg) (Pool.start now) pool) (share : Share)
    (haccepted : Entry.acknowledged share ∈ pool.history) :
    (∃ owner, SentTo pool owner share.job) ∧
      ∀ output, Reach (Pool.step cfg)
        (onSession (Authorizes cfg share.session fun address ↦ script cfg address = some output))
        (Pool.start now) pool →
      ∀ recorder call address, Entry.call recorder (some share) call ∈ pool.history →
        recordAddress call = some address →
          recorder = share.session ∧ script cfg address = some output ∧
            (SentTo pool share.session share.job → PaysTo cfg share.job address) := by
  have hledger := ledger_of_reachable h share.session
  constructor
  · obtain ⟨owner, t, hjob⟩ :=
      (grounds_of_reachable h (hledger.evaluated_of_acknowledged rfl haccepted)).job
    exact ⟨owner, sent_of_reachable h hjob⟩
  · intro output hreach recorder call address hcall haddress
    have hnames := names_of_reach hreach
    obtain ⟨hrecorder, -⟩ := hledger.called recorder share call hcall
    obtain rfl : recorder = share.session := hrecorder
    have hscript := hnames.records share call address hcall haddress
    refine ⟨rfl, hscript, fun ⟨sent, hsent, hjob⟩ ↦ ?_⟩
    obtain ⟨hmem, -⟩ := (sound_of_reachable h share.session).held.sent sent hsent
    obtain ⟨payee, hpayee, paid, hpaid, houts⟩ :=
      hnames.jobs sent.job sent.jobTemplate (List.mem_of_mem_filter hmem)
    obtain rfl := Option.some.inj (hpaid.symm.trans hpayee)
    exact ⟨paid, hscript, hjob ▸ houts⟩

section Sample

open Reference

def guessedShare : MiningSubmitMessage := ⟨"3", "1", "", "6553f105", "00000003", "00000000"⟩

def isOwnRecord (pool : Pool) : Entry → Bool
  | .call id (some share) call =>
    id = 0 && share.session = 0 && recordAddress call = some alice &&
      decide (Entry.acknowledged share ∈ pool.history) && decide (SentTo pool 0 share.job)
  | _ => false

def isForeignRecord (pool : Pool) : Entry → Bool
  | .call _ (some share) call =>
    decide (Entry.acknowledged share ∈ pool.history) && recordAddress call = some bob &&
      share.job.coinbaseTransaction.outs.head?.map TxOut.script = script settings alice
  | _ => false

theorem records_of_accepted_run :
    ∃ pool share call, Reachable (Pool.step settings) (Pool.start 1700000000000) pool ∧
      Entry.acknowledged share ∈ pool.history ∧
      Entry.call 0 (some share) call ∈ pool.history ∧ recordAddress call = some alice ∧
      PaysTo settings share.job alice := by
  obtain ⟨pool, hpool, hp⟩ := Reach.of_any (Pool.step settings)
    (onSession (Authorizes settings 0 fun address ↦
      script settings address = some (0x00 :: 0x14 :: List.replicate 20 0x11)))
    (Pool.start 1700000000000)
    (easyOpening 0 alice ++ working 0 (answer 101 (hashOf 7)) ++ crediting 0 guessedShare)
    (fun pool ↦ pool.history.any (isOwnRecord pool)) (by decide +kernel) (by decide +kernel)
  obtain ⟨entry, hentry, hrecord⟩ := List.any_eq_true.mp hp
  rw [isOwnRecord.eq_def] at hrecord
  split at hrecord
  case h_1 id share call =>
    simp only [Bool.and_eq_true, decide_eq_true_eq] at hrecord
    obtain ⟨⟨⟨⟨rfl, hsession⟩, haddress⟩, haccepted⟩, hsent⟩ := hrecord
    rw [← hsession] at hpool hsent
    have hrecords := (records_of_accepted settings 1700000000000 pool hpool.reachable share
      haccepted).2 _ hpool 0 call alice hentry haddress
    exact ⟨pool, share, call, hpool.reachable, haccepted, hentry, haddress, hrecords.2.2 hsent⟩
  case h_2 => cases hrecord

/-- A session submits a share for a job that was sent to another one, and is credited for it. -/
theorem not_sent_of_guessed_job :
    ¬ ∀ (cfg : Config) (now : ℕ) (pool : Pool), Reachable (Pool.step cfg) (Pool.start now) pool →
      ∀ share, Entry.acknowledged share ∈ pool.history →
        SentTo pool share.session share.job ∧
          ∀ recorder call address, Entry.call recorder (some share) call ∈ pool.history →
            recordAddress call = some address → PaysTo cfg share.job address := by
  intro h
  obtain ⟨pool, hpool, hp⟩ := Reachable.of_any (Pool.step settings) (Pool.start 1700000000000)
    (opening 0 alice ++ working 0 (answer 101 (hashOf 7)) ++ easyOpening 1 bob ++
      crediting 1 guessedShare)
    (fun pool ↦ pool.history.any (isForeignRecord pool)) (by decide +kernel)
  obtain ⟨entry, hentry, hrecord⟩ := List.any_eq_true.mp hp
  rw [isForeignRecord.eq_def] at hrecord
  split at hrecord
  case h_1 recorder share call =>
    simp only [Bool.and_eq_true, decide_eq_true_eq] at hrecord
    obtain ⟨⟨haccepted, haddress⟩, hpays⟩ := hrecord
    obtain ⟨output, houtput, houts⟩ :=
      (h settings 1700000000000 pool hpool share haccepted).2 recorder call bob hentry haddress
    have hsame : script settings bob = script settings alice :=
      houtput.trans (houts.symm.trans hpays)
    exact absurd hsame (by decide)
  case h_2 => cases hrecord

end Sample

end ElektronPool.ShareOwnership
