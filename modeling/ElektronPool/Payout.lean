import ElektronPool.Reference
import ElektronPool.Work.Provenance

namespace ElektronPool.Payout

open Lib Lib.Runs Model Model.View Work

variable {cfg : Config} {v v' : View} {e : SessionEvent} {work work' : List Entry}
  {address : String} {jobTemplate : IJobTemplate} {job : MiningJob} {sent : SentJob}

def script (cfg : Config) (address : String) : Option Bytes :=
  cfg.network.bind fun network ↦ cfg.js.toOutputScript network address

def PaysTo (cfg : Config) (job : MiningJob) (address : String) : Prop :=
  ∃ output, script cfg address = some output ∧
    job.coinbaseTransaction.outs.head?.map TxOut.script = some output

def Pays (cfg : Config) (history : List Entry) : Prop :=
  ∀ session job jobTemplate, Entry.job session job jobTemplate ∈ history →
    ∃ address base, Entry.template address base ∈ history ∧
      base.blockData.id = job.jobTemplateId ∧ PaysTo cfg job address

def isFetch : Task → Bool
  | .template _ _ => true
  | _ => false

/-- A new authorization finds neither a template nor a fetch of the session, or
its address has the same script as the last one. -/
def KeepsPayee (cfg : Config) (v : View) (e : SessionEvent) : Prop :=
  (authorizes cfg v e).all (fun message ↦
    v.session.currentJobTemplate.isNone && !v.session.tasks.any isFetch ||
      v.session.clientAuthorization.any fun last ↦
        decide (script cfg last.address = script cfg message.address)) = true

instance (cfg : Config) (v : View) (e : SessionEvent) : Decidable (KeepsPayee cfg v e) :=
  inferInstanceAs (Decidable (_ = _))

def Owes (cfg : Config) (session : Session) (address : String) : Prop :=
  ∀ message, session.clientAuthorization = some message →
    script cfg address = script cfg message.address

/-- The work a session keeps or waits for is for the script it is authorized with. -/
structure Faithful (cfg : Config) (v : View) : Prop where
  cached : ∀ t, v.session.currentJobTemplate = some t →
    ∃ a, Entry.template a t ∈ v.history.filter isWork ∧ Owes cfg v.session a
  fetches : ∀ a purpose, Task.template a purpose ∈ v.session.tasks → Owes cfg v.session a
  pays : ∀ s j t, Entry.job s j t ∈ v.history.filter isWork →
    ∃ a, Stems (v.history.filter isWork) a t ∧ PaysTo cfg j a

theorem Owes.congr {session session' : Session}
    (h : session'.clientAuthorization = session.clientAuthorization)
    (howes : Owes cfg session address) : Owes cfg session' address := by
  rw [Owes, h]
  exact howes

theorem Faithful.quiet (h : Faithful cfg v) (hquiet : Quiet v v') : Faithful cfg v' where
  cached t ht := by
    rw [hquiet.work]
    rcases hquiet.currentJobTemplate with hcache | hcache
    · obtain ⟨a, ha, howes⟩ := h.cached t (hcache ▸ ht)
      exact ⟨a, ha, howes.congr hquiet.clientAuthorization⟩
    · simp [hcache] at ht
  fetches a purpose hmem :=
    (h.fetches a purpose (hquiet.fetches a purpose hmem)).congr hquiet.clientAuthorization
  pays := by
    rw [hquiet.work]
    exact h.pays

theorem paysTo_of_new {network : Network} {jobId : String} {now : ℕ}
    (hnetwork : cfg.network = some network) (hvalid : cfg.isBitcoinAddress address = true)
    (hjob : MiningJob.new cfg.js network jobId [⟨address, 100⟩] jobTemplate now = some job) :
    PaysTo cfg job address := by
  simp only [Config.isBitcoinAddress, hnetwork, Option.any_some] at hvalid
  obtain ⟨output, houtput⟩ := Option.isSome_iff_exists.mp hvalid
  refine ⟨output, by simpa only [script, hnetwork, Option.bind_some] using houtput, ?_⟩
  rw [(MiningJob.new_eq_some hjob).1]
  simp [MiningJob.coinbaseTransactionOf, MiningJob.createCoinbaseTransaction,
    MiningJob.getPaymentScript, houtput]

theorem Faithful.issue (h : Faithful cfg v) (hsound : Sound cfg v)
    (hissues : Issues cfg v jobTemplate sent)
    (hstems : Stems (v.history.filter isWork) address jobTemplate)
    (howes : Owes cfg v.session address) : Faithful cfg (Work.issue v sent) where
  cached t ht := by
    obtain ⟨a, ha, howes⟩ := h.cached t ht
    exact ⟨a, List.mem_cons_of_mem _ ha, howes⟩
  fetches := h.fetches
  pays s j t hmem := by
    rcases List.mem_cons.mp hmem with hmem | hmem
    · obtain ⟨authorization, network, hauthorization, hnetwork, hjob⟩ := hissues.built
      have hpays := paysTo_of_new hnetwork (hsound.held.valid authorization hauthorization) hjob
      cases hmem
      obtain ⟨output, houtput, houts⟩ := hpays
      rw [hissues.template]
      exact ⟨address, hstems.mono (List.subset_cons_self _ _), output,
        (howes authorization hauthorization).trans houtput, houts⟩
    · obtain ⟨a, ha, hpays⟩ := h.pays s j t hmem
      exact ⟨a, ha.mono (List.subset_cons_self _ _), hpays⟩

theorem Faithful.sends (h : Faithful cfg v) (hsound : Sound cfg v)
    (hstems : Stems (v.history.filter isWork) address jobTemplate)
    (howes : Owes cfg v.session address) (hsends : Sends cfg v jobTemplate v') :
    Faithful cfg v' := by
  cases hsends with
  | nothing hquiet => exact h.quiet hquiet
  | issued sent hissues hquiet => exact (h.issue hsound hissues hstems howes).quiet hquiet

theorem Faithful.cacheTemplate (h : Faithful cfg v)
    (hmem : Entry.template address jobTemplate ∈ v.history.filter isWork)
    (howes : Owes cfg v.session address) (clear : Bool) :
    Faithful cfg (v.cacheTemplate jobTemplate clear) where
  cached t ht := by
    cases ht
    exact ⟨address, hmem, howes⟩
  fetches := h.fetches
  pays := h.pays

theorem Faithful.template (h : Faithful cfg v) (jobsService : JobsService) :
    Faithful cfg ({ v with jobsService }.log (.template address jobTemplate)) where
  cached t ht := by
    obtain ⟨a, ha, howes⟩ := h.cached t ht
    exact ⟨a, List.mem_cons_of_mem _ ha, howes⟩
  fetches := h.fetches
  pays s j t hmem := by
    rcases List.mem_cons.mp hmem with hmem | hmem
    · cases hmem
    · obtain ⟨a, ha, hpays⟩ := h.pays s j t hmem
      exact ⟨a, ha.mono (List.subset_cons_self _ _), hpays⟩

theorem mem_tasks_of_receives {purpose : Purpose} {blockTemplate : IBlockTemplate}
    (h : receives v e = some (address, purpose, blockTemplate)) :
    Task.template address purpose ∈ v.session.tasks := by
  rw [receives.eq_def] at h
  split at h
  case h_1 i _ =>
    split at h
    case h_1 htask =>
      cases h
      exact List.mem_of_getElem? htask
    · cases h
  · cases h

theorem Faithful.authorize (h : Faithful cfg v) {message : AuthorizationMessage}
    (hauthorizes : authorizes cfg v e = some message) (hguard : KeepsPayee cfg v e) :
    Faithful cfg (v.update fun s ↦ { s with clientAuthorization := some message }) := by
  rw [KeepsPayee, hauthorizes, Option.all_some, Bool.or_eq_true, Bool.and_eq_true,
    Option.isNone_iff_eq_none, Option.any_eq_true] at hguard
  rcases hguard with ⟨hcache, hfetch⟩ | ⟨last, hlast, hscript⟩
  · refine ⟨fun t ht ↦ ?_, fun a purpose hmem ↦ ?_, h.pays⟩
    · rw [show v.session.currentJobTemplate = some t from ht] at hcache
      cases hcache
    · simp only [Bool.not_eq_true', List.any_eq_false] at hfetch
      exact absurd rfl (hfetch _ hmem)
  · have howes {a : String} (howes : Owes cfg v.session a) :
        Owes cfg { v.session with clientAuthorization := some message } a := by
      intro m hm
      cases hm
      exact (howes last hlast).trans (of_decide_eq_true hscript)
    refine ⟨fun t ht ↦ ?_, fun a purpose hmem ↦ howes (h.fetches a purpose hmem), h.pays⟩
    obtain ⟨a, ha, hcached⟩ := h.cached t ht
    exact ⟨a, ha, howes hcached⟩

theorem Faithful.step (h : Faithful cfg v) (hsound : Sound cfg v) (hguard : KeepsPayee cfg v e)
    (hstep : Step cfg v e v') : Faithful cfg v' := by
  cases hstep with
  | quiet hquiet => exact h.quiet hquiet
  | authorized message he hquiet => exact (h.authorize he hguard).quiet hquiet
  | requested message purpose hauthorization hquiet =>
    refine Faithful.quiet (v := v.suspend _) ⟨h.cached, fun a p hmem ↦ ?_, h.pays⟩ hquiet
    rcases List.mem_append.mp hmem with hmem | hmem
    · exact h.fetches a p hmem
    · cases List.mem_singleton.mp hmem
      intro m hm
      rw [show v.session.clientAuthorization = some m from hm] at hauthorization
      cases hauthorization
      rfl
  | threw address purpose blockTemplate jobsService he hbuild hquiet =>
    exact Faithful.quiet (v := { v with jobsService }) ⟨h.cached, h.fetches, h.pays⟩ hquiet
  | refreshed address purpose blockTemplate jobsService jobTemplate he hpurpose hbuild hsends =>
    have howes := h.fetches address purpose (mem_tasks_of_receives he)
    exact ((h.template jobsService).cacheTemplate List.mem_cons_self howes _).sends
      ((hsound.build (JobsService.builds_of_buildTemplateFor hbuild)).cacheTemplate
        List.mem_cons_self _) (.of_mem List.mem_cons_self) howes hsends
  | retargeted address blockTemplate jobsService jobTemplate timestamp he hbuild hsends =>
    have howes := h.fetches address .vardiff (mem_tasks_of_receives he)
    exact ((h.template jobsService).cacheTemplate List.mem_cons_self howes _).sends
      ((hsound.build (JobsService.builds_of_buildTemplateFor hbuild)).cacheTemplate
        List.mem_cons_self _) (.retimed List.mem_cons_self timestamp true) howes hsends
  | renewed jobTemplate timestamp he hcache hsends =>
    obtain ⟨address, hmem, howes⟩ := h.cached jobTemplate hcache
    exact h.sends hsound (.retimed hmem timestamp false) howes hsends
  | resent jobTemplate timestamp he hcache hsends =>
    obtain ⟨address, hmem, howes⟩ := h.cached jobTemplate hcache
    exact (h.cacheTemplate hmem howes false).sends (hsound.cacheTemplate hmem false)
      (.retimed hmem timestamp true) howes hsends

theorem faithful_kept : Kept cfg (Sound cfg) (KeepsPayee cfg) (Faithful cfg) where
  tick _ _ h := ⟨h.cached, h.fetches, h.pays⟩
  act _ _ _ hsound h hguard hact := h.step hsound hguard (step_of_act hact)
  other _ _ _ _ _ _ hsound hother h hguard hact :=
    { cached := fun t ht ↦ by
        obtain ⟨a, ha, howes⟩ := hother.cached t ht
        exact ⟨a, (extends_of_act hact).work ha, howes⟩
      fetches := hother.fetches
      pays := (h.step hsound hguard (step_of_act hact)).pays }

theorem faithful_start (now : ℕ) (id : SessionId) : Faithful cfg ((Pool.start now).view id) := by
  constructor <;> simp [Pool.start, Pool.view]

/-- In every run in which no authorization changes the payee of work that a
session already has, every job pays the address its template was fetched for. -/
theorem pays_of_keepsPayee (cfg : Config) (now : ℕ) (pool : Pool)
    (h : Reach (Pool.step cfg) (onSession (KeepsPayee cfg)) (Pool.start now) pool) :
    Pays cfg pool.history := by
  intro session job jobTemplate hmem
  have hfaithful := faithful_kept.reach (fun _ hpool ↦ sound_of_reachable hpool)
    (faithful_start now) h 0
  have hregistry := (sound_of_reachable h.reachable 0).registry
  have hwork : Entry.job session job jobTemplate ∈ pool.history.filter isWork :=
    List.mem_filter.mpr ⟨hmem, rfl⟩
  obtain ⟨address, ⟨base, timestamp, clearJobs, hbase, rfl⟩, hpays⟩ := hfaithful.pays _ _ _ hwork
  obtain ⟨network, payee, rotationState, -, -, hnew⟩ := (hregistry.built _ _ _ hwork).made
  obtain ⟨-, -, -, -, hid, -⟩ := MiningJob.new_eq_some hnew
  exact ⟨address, base, List.mem_of_mem_filter hbase, hid.symm, hpays⟩

section Sample

open Reference

def reauthorizing (address : String) : List Event :=
  opening 0 alice ++ working 0 (answer 101 (hashOf 7)) ++
    .session 0 (.data [authorizing address]) :: resumes 0 2 ++
    [.tick 1000, .session 0 .localTimer]

def isJob : Entry → Bool
  | .job _ _ _ => true
  | _ => false

theorem pays_of_keepsPayee_run :
    ∃ pool, Reach (Pool.step settings) (onSession (KeepsPayee settings)) (Pool.start 1700000000000)
        pool ∧
      (pool.history.filter isJob).length = 2 ∧ Pays settings pool.history := by
  obtain ⟨pool, hpool, hp⟩ := Reach.of_any (Pool.step settings) (onSession (KeepsPayee settings))
    (Pool.start 1700000000000) (reauthorizing alice)
    (fun pool ↦ (pool.history.filter isJob).length = 2) (by decide +kernel) (by decide +kernel)
  exact ⟨pool, hpool, of_decide_eq_true hp, pays_of_keepsPayee settings 1700000000000 pool hpool⟩

/-- The miner authorizes with another address, and the cached template of the
first one is sent again as a job that pays the second. -/
theorem not_pays_of_reauthorization :
    ¬ ∀ (cfg : Config) (now : ℕ) (pool : Pool),
      Reachable (Pool.step cfg) (Pool.start now) pool → Pays cfg pool.history := by
  intro h
  obtain ⟨pool, hpool, hp⟩ := Reachable.of_any (Pool.step settings) (Pool.start 1700000000000)
    (reauthorizing bob)
    (fun pool ↦ pool.history.all (fun
        | .template address _ => address = alice
        | _ => true) &&
      pool.history.any fun
        | .job _ job _ => job.coinbaseTransaction.outs.head?.map TxOut.script = script settings bob
        | _ => false)
    (by decide +kernel)
  simp only [Bool.and_eq_true, List.all_eq_true, List.any_eq_true] at hp
  obtain ⟨htemplates, entry, hentry, hjob⟩ := hp
  cases entry with
  | job session job jobTemplate =>
    obtain ⟨address, base, hbase, -, output, hscript, houts⟩ := h settings _ pool hpool _ _ _ hentry
    have haddress : address = alice := of_decide_eq_true (htemplates _ hbase)
    have hpaid : script settings alice = script settings bob := by
      rw [← haddress, hscript, ← houts]
      exact of_decide_eq_true hjob
    exact absurd hpaid (by decide)
  | _ => cases hjob

end Sample

end ElektronPool.Payout
