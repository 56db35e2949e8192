import ElektronPool.Work.Sessions

namespace ElektronPool.Work

open Lib Lib.JavaScript Model Model.View

variable {cfg : Config} {v v' : View} {e : SessionEvent} {jobTemplate : IJobTemplate} {sent : SentJob}

def retargets (cfg : Config) (v : View) : Bool :=
  v.session.statistics.any fun statistics ↦
    match statistics.getSuggestedDifficulty cfg.stack v.session.sessionDifficulty v.now with
    | .ok (some targetDiff) => targetDiff ≠ v.session.sessionDifficulty
    | _ => false

/-- The ntime of a re-send is one the session was not sent before. -/
def resendTimestamp (v : View) (jobTemplate : IJobTemplate) : ℕ :=
  max (max jobTemplate.block.timestamp (v.now / 1000))
    (v.session.lastSentMiningJobTimestamp.getD 0 + 1)

/-- The work a timer sends again from the cached template. -/
def renews (cfg : Config) (v : View) : SessionEvent → Option IJobTemplate
  | .localTimer =>
    if v.session.isSocketClosed || decide (v.now - v.session.lastLocalWorkSentAt < 350) then none
    else v.session.currentJobTemplate.map fun jobTemplate ↦
      retimedJobTemplate jobTemplate (max jobTemplate.block.timestamp (v.now / 1000)) false
  | .difficultyTimer =>
    if v.session.isSocketClosed || !retargets cfg v then none
    else v.session.currentJobTemplate.map fun jobTemplate ↦
      retimedJobTemplate jobTemplate (resendTimestamp v jobTemplate) true
  | _ => none

def brings (cfg : Config) (v : View) (e : SessionEvent) : Option IJobTemplate :=
  if v.session.isSocketClosed then none
  else (receives v e).bind fun (address, purpose, blockTemplate) ↦
    (v.jobsService.buildTemplateFor cfg.js address blockTemplate v.now).2.map fun jobTemplate ↦
      if purpose = .vardiff then retimedJobTemplate jobTemplate (resendTimestamp v jobTemplate) true
      else jobTemplate

/-- The work an event sends the miner, if a job can be built from it. -/
def offers (cfg : Config) (v : View) (e : SessionEvent) : Option IJobTemplate :=
  (renews cfg v e).or (brings cfg v e)

def SendsOnly (v v' : View) (jobTemplate : IJobTemplate) : Prop :=
  v'.session.sentJobs = v.session.sentJobs ∨
    ∃ sent, v'.session.sentJobs = sent :: v.session.sentJobs ∧ v.session.isSocketClosed = false ∧
      sent.jobTemplate = jobTemplate ∧ sent.rotationState = v.rotationState jobTemplate

theorem SendsOnly.before {w : View} (h : SendsOnly w v' jobTemplate)
    (hsent : w.session.sentJobs = v.session.sentJobs)
    (hclosed : w.session.isSocketClosed = false → v.session.isSocketClosed = false)
    (hcounter : w.session.elektronPoolVersionCounter = v.session.elektronPoolVersionCounter) :
    SendsOnly v v' jobTemplate := by
  rcases h with h | ⟨sent, h, hopen, htemplate, hrotation⟩
  · exact .inl (h.trans hsent)
  · refine .inr ⟨sent, h.trans (congrArg _ hsent), hclosed hopen, htemplate, ?_⟩
    rw [hrotation, rotationState, rotationState, hcounter]

theorem sendsOnly_sendNewMiningJob (cfg : Config) (v : View) (jobTemplate : IJobTemplate) :
    SendsOnly v (v.sendNewMiningJob cfg jobTemplate).1 jobTemplate := by
  have hcopy : v.copyHashRate.session.sentJobs = v.session.sentJobs ∧
      v.copyHashRate.session.isSocketClosed = v.session.isSocketClosed ∧
      v.copyHashRate.session.elektronPoolVersionCounter =
        v.session.elektronPoolVersionCounter := by
    rw [copyHashRate]
    split <;> exact ⟨rfl, rfl, rfl⟩
  obtain ⟨hsent, hclosed, hcounter⟩ := hcopy
  simp only [sendNewMiningJob]
  generalize v.copyHashRate = w at hsent hclosed hcounter
  split
  · exact .inl rfl
  case isFalse hopen =>
    have hopen : v.session.isSocketClosed = false := by simpa using hopen
    have hrotation : w.rotationState jobTemplate = v.rotationState jobTemplate := by
      rw [rotationState, rotationState, hcounter]
    split
    · split
      · exact .inl hsent
      · refine .inr ⟨?_, ?_, hopen, ?_, ?_⟩
        rotate_left
        · rw [View.write, if_neg]
          · exact congrArg (_ :: ·) hsent
          · change ¬ w.session.isSocketClosed = true
            simp [hclosed, hopen]
        · rfl
        · exact hrotation
    · exact .inl hsent

theorem sendsOnly_catchRefresh (purpose : Purpose) {r : View × Bool}
    (h : SendsOnly v r.1 jobTemplate) : SendsOnly v (catchRefresh purpose r) jobTemplate := by
  rw [SendsOnly, (quiet_catchRefresh purpose r).sentJobs]
  exact h

theorem sendsOnly_resendMiningJob (cfg : Config) (v : View) (jobTemplate : IJobTemplate) :
    SendsOnly v (v.resendMiningJob cfg jobTemplate).1
      (retimedJobTemplate jobTemplate (resendTimestamp v jobTemplate) true) :=
  (sendsOnly_sendNewMiningJob cfg (v.cacheTemplate jobTemplate false) _).before rfl id rfl

def Offers (cfg : Config) (v : View) (e : SessionEvent) (v' : View) : Prop :=
  v'.session.sentJobs = v.session.sentJobs ∨
    ∃ sent, v'.session.sentJobs = sent :: v.session.sentJobs ∧
      offers cfg v e = some sent.jobTemplate ∧
      sent.rotationState = v.rotationState sent.jobTemplate

theorem SendsOnly.offers (h : SendsOnly v v' jobTemplate)
    (hoffers : v.session.isSocketClosed = false → offers cfg v e = some jobTemplate) :
    Offers cfg v e v' := by
  refine h.imp_right ?_
  rintro ⟨sent, hcons, hopen, rfl, hrotation⟩
  exact ⟨sent, hcons, hoffers hopen, hrotation⟩

theorem offers_refreshLocalMiningWork :
    Offers cfg v .localTimer (v.refreshLocalMiningWork cfg) := by
  simp only [refreshLocalMiningWork]
  split
  · exact .inl rfl
  · split
    · exact .inl rfl
    case h_2 baseTemplate hcache =>
      split
      · exact .inl rfl
      case isFalse hlate =>
        refine (sendsOnly_sendNewMiningJob cfg v _).offers fun hopen ↦ ?_
        simp [offers, renews, brings, receives, hopen, hcache, hlate]

theorem offers_checkDifficulty : Offers cfg v .difficultyTimer (v.checkDifficulty cfg) := by
  simp only [checkDifficulty]
  split
  · exact .inl rfl
  case h_2 statistics hstatistics =>
    split
    · exact .inl rfl
    · exact .inl rfl
    case h_3 targetDiff hsuggested =>
      split
      · exact .inl rfl
      case isFalse hne =>
        have hretargets : retargets cfg v = true := by
          simp [retargets, hstatistics, hsuggested, hne]
        have hsame : ((v.update fun s ↦ { s with sessionDifficulty := targetDiff }).sendUnchecked
            (.setDifficulty targetDiff)).now = v.now ∧
            ∃ wire, ((v.update fun s ↦ { s with sessionDifficulty := targetDiff }).sendUnchecked
              (.setDifficulty targetDiff)).session =
              { v.session with sessionDifficulty := targetDiff, wire } := by
          rw [sendUnchecked]
          split <;> exact ⟨rfl, _, rfl⟩
        obtain ⟨hnow, wire, hsession⟩ := hsame
        generalize (v.update _).sendUnchecked _ = w at hnow hsession
        have hclosed : w.session.isSocketClosed = v.session.isSocketClosed := by
          rw [hsession]
          rfl
        split
        case h_1 jobTemplate hcache =>
          have htime : resendTimestamp w jobTemplate = resendTimestamp v jobTemplate := by
            rw [resendTimestamp, resendTimestamp, hnow, hsession]
          refine sendsOnly_catchRefresh .vardiff ((sendsOnly_resendMiningJob cfg w jobTemplate).before
            ?_ ?_ ?_) |>.offers fun hopen ↦ ?_
          · rw [hsession]
          · exact fun hopen ↦ hclosed ▸ hopen
          · rw [hsession]
          · have hcache : v.session.currentJobTemplate = some jobTemplate := by
              simpa only [hsession] using hcache
            simp [offers, renews, brings, receives, hopen, hretargets, hcache, htime]
        · exact .inl (by simp only [suspend, View.update, hsession])
        · exact .inl (by simp only [hsession])

theorem offers_receiveTemplate {address : String} {purpose : Purpose}
    {blockTemplate : IBlockTemplate} (he : receives v e = some (address, purpose, blockTemplate))
    (hrenews : renews cfg v e = none) {w : View} (hnow : w.now = v.now)
    (hservice : w.jobsService = v.jobsService) {tasks : List Task}
    (hsession : w.session = { v.session with tasks }) :
    Offers cfg v e (w.receiveTemplate cfg address purpose (some blockTemplate)) := by
  have hclosed : w.session.isSocketClosed = v.session.isSocketClosed := by
    rw [hsession]
    rfl
  have hbuild : w.jobsService.buildTemplateFor cfg.js address blockTemplate w.now =
      v.jobsService.buildTemplateFor cfg.js address blockTemplate v.now := by
    rw [hservice, hnow]
  simp only [receiveTemplate, hbuild]
  split
  · refine .inl ?_
    rw [(quiet_catchRefresh purpose _).sentJobs, hsession]
  case h_2 jobsService jobTemplate hbuilt =>
    have hbrings (hopen : v.session.isSocketClosed = false) : offers cfg v e =
        some (if purpose = .vardiff then
          retimedJobTemplate jobTemplate (resendTimestamp v jobTemplate) true else jobTemplate) := by
      simp [offers, hrenews, brings, hopen, he, hbuilt]
    have hrefresh (hpurpose : purpose ≠ .vardiff) : Offers cfg v e (catchRefresh purpose
        ((({ w with jobsService }.log (.template address jobTemplate)).cacheTemplate jobTemplate
          jobTemplate.blockData.clearJobs).sendNewMiningJob cfg jobTemplate)) := by
      refine (sendsOnly_catchRefresh purpose
        ((sendsOnly_sendNewMiningJob cfg _ jobTemplate).before ?_ ?_ ?_)).offers fun hopen ↦ ?_
      · simp only [View.cacheTemplate, View.update, View.log, hsession]
      · exact fun hopen ↦ hclosed ▸ hopen
      · simp only [View.cacheTemplate, View.update, View.log, hsession]
      · rw [hbrings hopen, if_neg hpurpose]
    cases purpose with
    | newBlock => exact hrefresh (by simp)
    | refreshTimer => exact hrefresh (by simp)
    | vardiff =>
      have htime : resendTimestamp ({ w with jobsService }.log (.template address jobTemplate))
          jobTemplate = resendTimestamp v jobTemplate := by
        simp only [resendTimestamp, View.log, hnow, hsession]
      refine (sendsOnly_catchRefresh .vardiff ((sendsOnly_resendMiningJob cfg
        ({ w with jobsService }.log (.template address jobTemplate)) jobTemplate).before
          ?_ ?_ ?_)).offers fun hopen ↦ ?_
      · simp only [View.log, hsession]
      · exact fun hopen ↦ hclosed ▸ hopen
      · simp only [View.log, hsession]
      · rw [hbrings hopen, if_pos rfl, htime]

theorem offers_of_act (hact : v.act cfg e = some v') : Offers cfg v e v' := by
  have hrest (hlocal : e ≠ .localTimer) (hdifficulty : e ≠ .difficultyTimer)
      (hreceives : receives v e = none) : Offers cfg v e v' := by
    cases step_of_act hact with
    | quiet h => exact .inl h.sentJobs
    | authorized _ _ h => exact .inl h.sentJobs
    | requested _ _ _ h => exact .inl h.sentJobs
    | threw _ _ _ _ he | refreshed _ _ _ _ _ he | retargeted _ _ _ _ _ he =>
      rw [hreceives] at he
      cases he
    | renewed _ _ he => exact absurd he hlocal
    | resent _ _ he => exact absurd he hdifficulty
  cases e with
  | localTimer =>
    obtain ⟨-, h⟩ := Option.ite_none_right_eq_some.mp hact
    cases h
    exact offers_refreshLocalMiningWork
  | difficultyTimer =>
    obtain ⟨-, h⟩ := Option.ite_none_right_eq_some.mp hact
    cases h
    exact offers_checkDifficulty
  | resume i outcome =>
    cases hreceives : receives v (.resume i outcome) with
    | none => exact hrest (by simp) (by simp) hreceives
    | some r =>
      obtain ⟨address, purpose, blockTemplate⟩ := r
      have hreceived := hreceives
      rw [receives.eq_def] at hreceives
      split at hreceives
      case h_1 i answered heq =>
        cases heq
        split at hreceives
        case h_1 address purpose htask =>
          cases hreceives
          simp only [act, htask, Option.bind_some, resumeTask, Option.some.injEq] at hact
          subst hact
          exact offers_receiveTemplate hreceived rfl rfl rfl rfl
        · cases hreceives
      · cases hreceives
  | _ => exact hrest (by simp) (by simp) rfl

section Sending

def isMintable (cfg : Config) (v : View) (jobTemplate : IJobTemplate) : Bool :=
  match v.session.clientAuthorization, cfg.network with
  | some authorization, some network =>
    (MiningJob.new cfg.js network "" [⟨authorization.address, 100⟩]
      (versionedJobTemplate jobTemplate (v.rotationState jobTemplate)) v.now).isSome
  | _, _ => false

theorem parties_of_isMintable (h : isMintable cfg v jobTemplate = true) :
    ∃ authorization network, v.session.clientAuthorization = some authorization ∧
      cfg.network = some network ∧
      (MiningJob.new cfg.js network "" [⟨authorization.address, 100⟩]
        (versionedJobTemplate jobTemplate (v.rotationState jobTemplate)) v.now).isSome = true := by
  rw [isMintable.eq_def] at h
  split at h
  case h_1 authorization network hauthorization hnetwork =>
    exact ⟨authorization, network, hauthorization, hnetwork, h⟩
  case h_2 => cases h

theorem isSome_new (js : BitcoinJs) (network : Network) (jobId jobId' : String)
    (payoutInformation : List AddressObject) (jobTemplate : IJobTemplate) (now now' : ℕ) :
    (MiningJob.new js network jobId payoutInformation jobTemplate now).isSome =
      (MiningJob.new js network jobId' payoutInformation jobTemplate now').isSome := by
  simp only [MiningJob.new]
  split
  · rfl
  · cases js.transactionNoWitness (MiningJob.coinbaseTransactionOf js network payoutInformation
      jobTemplate) <;> rfl

theorem isMintable_congr {w : View}
    (hauthorization : w.session.clientAuthorization = v.session.clientAuthorization)
    (hcounter : w.session.elektronPoolVersionCounter = v.session.elektronPoolVersionCounter)
    (cfg : Config) (jobTemplate : IJobTemplate) :
    isMintable cfg w jobTemplate = isMintable cfg v jobTemplate := by
  simp only [isMintable, View.rotationState, hauthorization, hcounter]
  split
  · exact isSome_new ..
  · rfl

theorem sent_sendNewMiningJob (hopen : v.session.isSocketClosed = false)
    (hmintable : isMintable cfg v jobTemplate = true) :
    (v.sendNewMiningJob cfg jobTemplate).1.session.sentJobs ≠ v.session.sentJobs := by
  obtain ⟨hcopy, -, hclosed⟩ := quiet_copyHashRate v
  have hcounter : v.copyHashRate.session.elektronPoolVersionCounter =
      v.session.elektronPoolVersionCounter := by
    rw [copyHashRate]
    split <;> rfl
  have hmintable := (isMintable_congr hcopy.clientAuthorization hcounter cfg jobTemplate).trans
    hmintable
  have hsent := hcopy.sentJobs
  simp only [sendNewMiningJob, hopen, Bool.false_eq_true, if_false]
  generalize v.copyHashRate = w at hclosed hmintable hsent
  obtain ⟨authorization, network, hauthorization, hnetwork, hmintable⟩ :=
    parties_of_isMintable hmintable
  simp only [hauthorization, hnetwork]
  split
  case h_1 hnone =>
    have hsome := (isSome_new cfg.js network "" w.jobsService.getNextId _ _ w.now w.now).symm.trans
      hmintable
    change MiningJob.new cfg.js network w.jobsService.getNextId _ _ w.now = none at hnone
    rw [hnone] at hsome
    cases hsome
  case h_2 job _ =>
    have hopen : ¬ ((w.countJob (w.rotationState jobTemplate)).addJob
        { params := job.response (versionedJobTemplate jobTemplate (w.rotationState jobTemplate)),
          job, jobTemplate, rotationState := w.rotationState jobTemplate,
          submissionHashes := (w.countJob (w.rotationState
            jobTemplate)).session.miningSubmissionHashes }).session.isSocketClosed = true := by
      change ¬ w.session.isSocketClosed = true
      rw [hclosed, hopen]
      exact Bool.false_ne_true
    rw [View.write, if_neg hopen]
    change _ :: w.session.sentJobs ≠ _
    rw [hsent]
    exact List.cons_ne_self _ _

theorem sent_receiveTemplate {address : String} {purpose : Purpose} {blockTemplate : IBlockTemplate}
    {jobsService : JobsService} (hopen : v.session.isSocketClosed = false)
    (hbuild : v.jobsService.buildTemplateFor cfg.js address blockTemplate v.now =
      (jobsService, some jobTemplate))
    (hmintable : isMintable cfg v (if purpose = .vardiff then
      retimedJobTemplate jobTemplate (resendTimestamp v jobTemplate) true else jobTemplate) = true) :
    (v.receiveTemplate cfg address purpose (some blockTemplate)).session.sentJobs ≠
      v.session.sentJobs := by
  have hcached (clear : Bool) (sent : IJobTemplate) (h : isMintable cfg v sent = true) :
      ((({ v with jobsService }.log (.template address jobTemplate)).cacheTemplate jobTemplate
        clear).sendNewMiningJob cfg sent).1.session.sentJobs ≠ v.session.sentJobs := by
    refine sent_sendNewMiningJob (v := ({ v with jobsService }.log
      (.template address jobTemplate)).cacheTemplate jobTemplate clear) hopen ?_
    exact (isMintable_congr rfl rfl cfg sent).trans h
  simp only [receiveTemplate, hbuild]
  cases purpose with
  | newBlock =>
    rw [(quiet_catchRefresh .newBlock _).sentJobs]
    exact hcached _ _ hmintable
  | refreshTimer =>
    rw [(quiet_catchRefresh .refreshTimer _).sentJobs]
    exact hcached _ _ hmintable
  | vardiff =>
    rw [(quiet_catchRefresh .vardiff _).sentJobs]
    exact hcached false _ hmintable

end Sending

/-- The job that goes out with a template is built from it for the payee of the session. -/
def Mints (cfg : Config) (v : View) (sent : SentJob) : Prop :=
  ∃ authorization network jobId, v.session.clientAuthorization = some authorization ∧
    cfg.network = some network ∧
    MiningJob.new cfg.js network jobId [⟨authorization.address, 100⟩]
      (versionedJobTemplate sent.jobTemplate sent.rotationState) v.now = some sent.job

theorem Sends.mints {w : View} (h : Sends cfg w jobTemplate v')
    (hsent : w.session.sentJobs = v.session.sentJobs)
    (hauthorization : w.session.clientAuthorization = v.session.clientAuthorization)
    (hnow : w.now = v.now) : v'.session.sentJobs = v.session.sentJobs ∨
      ∃ sent, v'.session.sentJobs = sent :: v.session.sentJobs ∧ Mints cfg v sent := by
  cases h with
  | nothing h => exact .inl (h.sentJobs.trans hsent)
  | issued sent hissues h =>
    obtain ⟨authorization, network, ha, hnetwork, hjob⟩ := hissues.built
    rw [hauthorization] at ha
    rw [← hissues.template, hnow] at hjob
    exact .inr ⟨sent, h.sentJobs.trans (congrArg _ hsent), authorization, network, _, ha, hnetwork,
      hjob⟩

theorem minted_of_act (hact : v.act cfg e = some v') : v'.session.sentJobs = v.session.sentJobs ∨
    ∃ sent, v'.session.sentJobs = sent :: v.session.sentJobs ∧ Mints cfg v sent := by
  cases step_of_act hact with
  | quiet h => exact .inl h.sentJobs
  | authorized _ _ h => exact .inl h.sentJobs
  | requested _ _ _ h => exact .inl h.sentJobs
  | threw _ _ _ _ _ _ h => exact .inl h.sentJobs
  | refreshed _ _ _ _ _ _ _ _ h => exact h.mints rfl rfl rfl
  | retargeted _ _ _ _ _ _ _ h => exact h.mints rfl rfl rfl
  | renewed _ _ _ _ h => exact h.mints rfl rfl rfl
  | resent _ _ _ _ h => exact h.mints rfl rfl rfl

end ElektronPool.Work
