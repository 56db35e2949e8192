import ElektronPool.Work.Step

namespace ElektronPool.Work

open Lib.Runs Lib.JavaScript Model Model.View

variable {cfg : Config} {v v' : View} {e : SessionEvent} {jobTemplate : IJobTemplate}
  {pool pool' : Pool} {event : Event} {now : ℕ}

/-- What every event leaves in place; the history of the work only grows. -/
structure Extends (v v' : View) : Prop where
  now : v'.now = v.now
  self : v'.self = v.self
  work : v.history.filter isWork ⊆ v'.history.filter isWork

theorem Quiet.extends (h : Quiet v v') : Extends v v' := ⟨h.now, h.self, fun _ hmem ↦ h.work ▸ hmem⟩

theorem Extends.trans {v'' : View} (h : Extends v v') (h' : Extends v' v'') : Extends v v'' :=
  ⟨h'.now.trans h.now, h'.self.trans h.self, fun _ hmem ↦ h'.work (h.work hmem)⟩

theorem extends_issue (v : View) (sent : SentJob) : Extends v (issue v sent) :=
  ⟨rfl, rfl, List.subset_cons_self _ _⟩

theorem Sends.extends (h : Sends cfg v jobTemplate v') : Extends v v' := by
  cases h with
  | nothing h => exact h.extends
  | issued sent _ h => exact (extends_issue v sent).trans h.extends

theorem extends_template (v : View) (jobsService : JobsService) (address : String)
    (cached : IJobTemplate) (clear : Bool) :
    Extends v (({ v with jobsService }.log (.template address jobTemplate)).cacheTemplate
      cached clear) :=
  ⟨rfl, rfl, List.subset_cons_self _ _⟩

theorem Step.extends (h : Step cfg v e v') : Extends v v' := by
  cases h with
  | quiet h => exact h.extends
  | authorized _ _ h => exact ⟨h.now, h.self, h.extends.work⟩
  | requested _ _ _ h => exact ⟨h.now, h.self, h.extends.work⟩
  | threw _ _ _ _ _ _ h => exact ⟨h.now, h.self, h.extends.work⟩
  | refreshed _ _ _ _ _ _ _ _ h => exact (extends_template v _ _ _ _).trans h.extends
  | retargeted _ _ _ _ _ _ _ h => exact (extends_template v _ _ _ _).trans h.extends
  | renewed _ _ _ _ h => exact h.extends
  | resent _ _ _ _ h =>
    have h := h.extends
    exact ⟨h.now, h.self, h.work⟩

theorem extends_of_act (h : v.act cfg e = some v') : Extends v v' := (step_of_act h).extends

section Registered

variable {id : String}

theorem Sends.registered (h : Sends cfg v jobTemplate v')
    (hid : (v'.jobsService.jobs id).isSome) :
    (v.jobsService.jobs id).isSome ∨ id = v.jobsService.getNextId := by
  cases h with
  | nothing hquiet => exact .inl (hquiet.jobsService ▸ hid)
  | issued sent hissues hquiet =>
    obtain ⟨authorization, network, -, -, hjob⟩ := hissues.built
    obtain ⟨-, -, -, -, -, -, hjobId⟩ := MiningJob.new_eq_some hjob
    by_cases hnext : id = sent.job.jobId
    · exact .inr (hnext.trans hjobId)
    · rw [hquiet.jobsService] at hid
      change ((v.jobsService.addJob sent.job).jobs id).isSome at hid
      rw [JobsService.jobs_addJob_of_ne hnext] at hid
      exact .inl hid

theorem registered_of_build {address : String} {blockTemplate : IBlockTemplate}
    {service service' : JobsService} {now : ℕ}
    (hbuild : service.buildTemplateFor cfg.js address blockTemplate now =
      (service', some jobTemplate))
    (hid : (service'.jobs id).isSome ∨ id = service'.getNextId) :
    (service.jobs id).isSome ∨ id = service.getNextId := by
  have hbuilds := JobsService.builds_of_buildTemplateFor hbuild
  rcases hid with hid | hid
  · obtain ⟨job, hjob⟩ := Option.isSome_iff_exists.mp hid
    rw [hbuilds.service'] at hjob
    exact .inl (Option.isSome_iff_exists.mpr ⟨job, (JobsService.jobs_keep.mp hjob).2.1⟩)
  · rw [hbuilds.service', JobsService.getNextId] at hid
    exact .inr (hid.trans (congrArg (fun n : ℕ ↦ toString16 n) JobsService.latestJobId_keep))

theorem Step.registered (h : Step cfg v e v') (hid : (v'.jobsService.jobs id).isSome) :
    (v.jobsService.jobs id).isSome ∨ id = v.jobsService.getNextId := by
  cases h with
  | quiet hquiet => exact .inl (hquiet.jobsService ▸ hid)
  | authorized _ _ hquiet => exact .inl (hquiet.jobsService ▸ hid)
  | requested _ _ _ hquiet => exact .inl (hquiet.jobsService ▸ hid)
  | threw address purpose blockTemplate jobsService _ hbuild hquiet =>
    rw [hquiet.jobsService] at hid
    change (jobsService.jobs id).isSome at hid
    rw [JobsService.eq_of_buildTemplateFor_none hbuild] at hid
    exact .inl hid
  | refreshed _ _ _ _ _ _ _ hbuild hsends => exact registered_of_build hbuild (hsends.registered hid)
  | retargeted _ _ _ _ _ _ hbuild hsends => exact registered_of_build hbuild (hsends.registered hid)
  | renewed _ _ _ _ hsends => exact hsends.registered hid
  | resent _ _ _ _ hsends => exact hsends.registered hid

end Registered

def View.of (v : View) (self : SessionId) (session : Session) : View := { v with self, session }

theorem view_put_self {id : SessionId} (h : Extends (pool.view id) v') :
    (pool.put id v').view id = v' := by
  obtain ⟨now, self, jobsService, session, history, crashed⟩ := v'
  have hnow : now = pool.now := h.now
  have hself : self = id := h.self
  subst hnow hself
  simp [Pool.put, Pool.view]

theorem view_put_of_ne {id id' : SessionId} (hne : id' ≠ id) (h : Extends (pool.view id) v') :
    (pool.put id v').view id' = View.of v' id' (pool.sessions id') := by
  have hnow : v'.now = pool.now := h.now
  simp [Pool.put, Pool.view, View.of, Function.update_of_ne hne, hnow]

theorem step_cases (h : pool.step cfg event = some pool') :
    (∃ milliseconds, event = .tick milliseconds ∧
      pool' = { pool with now := pool.now + milliseconds }) ∨
    ∃ id e v', event = .session id e ∧ (pool.view id).act cfg e = some v' ∧
      pool' = pool.put id v' := by
  obtain ⟨-, h⟩ := Option.ite_none_left_eq_some.mp h
  cases event with
  | tick milliseconds => exact .inl ⟨milliseconds, rfl, (Option.some.inj h).symm⟩
  | session id e =>
    obtain ⟨v', hact, rfl⟩ := Option.map_eq_some_iff.mp h
    exact .inr ⟨id, e, v', rfl, hact, rfl⟩

def onSession (G : View → SessionEvent → Prop) (pool : Pool) : Event → Prop
  | .tick _ => True
  | .session id e => G (pool.view id) e

instance (G : View → SessionEvent → Prop) [∀ v e, Decidable (G v e)] (pool : Pool)
    (event : Event) : Decidable (onSession G pool event) :=
  match event with
  | .tick _ => inferInstanceAs (Decidable True)
  | .session _ _ => inferInstanceAs (Decidable (G _ _))

/-- What a session keeps in its own steps, and in those of every other session,
where `J` is known of the session that takes the step. -/
structure Kept (cfg : Config) (J : View → Prop) (G : View → SessionEvent → Prop)
    (I : View → Prop) : Prop where
  tick : ∀ v milliseconds, I v → I { v with now := v.now + milliseconds }
  act : ∀ v e v', J v → I v → G v e → v.act cfg e = some v' → I v'
  other : ∀ v e v' self session, self ≠ v.self → J v → I (View.of v self session) → I v → G v e →
    v.act cfg e = some v' → I (View.of v' self session)

variable {J I : View → Prop} {G : View → SessionEvent → Prop} {pool₀ : Pool}

theorem Kept.of_session {P : Session → Prop}
    (hact : ∀ v e v', J v → P v.session → G v e → v.act cfg e = some v' → P v'.session) :
    Kept cfg J G fun v ↦ P v.session where
  tick _ _ h := h
  act := hact
  other _ _ _ _ _ _ _ h _ _ _ := h

theorem Kept.step (hkept : Kept cfg J G I) (hJ : ∀ id, J (pool.view id))
    (h : ∀ id, I (pool.view id)) (hguard : onSession G pool event)
    (hstep : pool.step cfg event = some pool') (id : SessionId) : I (pool'.view id) := by
  obtain ⟨milliseconds, rfl, rfl⟩ | ⟨id', e, v', rfl, hact, rfl⟩ := step_cases hstep
  · exact hkept.tick _ milliseconds (h id)
  · have hextends := extends_of_act hact
    by_cases hid : id = id'
    · subst hid
      rw [view_put_self hextends]
      exact hkept.act _ e v' (hJ id) (h id) hguard hact
    · rw [view_put_of_ne hid hextends]
      exact hkept.other (pool.view id') e v' id _ hid (hJ id') (h id) (h id') hguard hact

/-- What every session keeps holds of all of them in every state of a run. -/
theorem Kept.reach (hkept : Kept cfg J G I)
    (hJ : ∀ pool, Reachable (Pool.step cfg) pool₀ pool → ∀ id, J (pool.view id))
    (hstart : ∀ id, I (pool₀.view id)) (h : Reach (Pool.step cfg) (onSession G) pool₀ pool) :
    ∀ id, I (pool.view id) :=
  h.invariant_of (I := fun pool ↦ ∀ id, I (pool.view id)) hJ hstart
    fun _ _ _ hJ hI hguard hstep id ↦ hkept.step hJ hI hguard hstep id

section Noted

variable {α : Type} {note : α → View → SessionEvent → α} {self : SessionId} {a₀ a : α}

def ofSession (self : SessionId) (note : α → View → SessionEvent → α) (a : α) (pool : Pool) :
    Event → α
  | .tick _ => a
  | .session id e => if id = self then note a (pool.view id) e else a

abbrev Noted (cfg : Config) (G : View → SessionEvent → Prop) (self : SessionId)
    (note : α → View → SessionEvent → α) : Pool × α → Pool × α → Prop :=
  Reach (noted (Pool.step cfg) (ofSession self note)) fun p event ↦ onSession G p.1 event

/-- What a session and its notes keep in its own steps, and in those of every other
session, holds in every run. -/
theorem Noted.keeps_view {P : View → α → Prop}
    (hJ : ∀ pool, Reachable (Pool.step cfg) pool₀ pool → ∀ id, J (pool.view id))
    (hstart : P (pool₀.view self) a₀)
    (htick : ∀ v a milliseconds, P v a → P { v with now := v.now + milliseconds } a)
    (hact : ∀ v a e v', v.self = self → J v → P v a → G v e → v.act cfg e = some v' →
      P v' (note a v e))
    (hother : ∀ v a e v' session, self ≠ v.self → J v → P (View.of v self session) a →
      v.act cfg e = some v' → P (View.of v' self session) a)
    (h : Noted cfg G self note (pool₀, a₀) (pool, a)) : P (pool.view self) a := by
  refine Reach.noted_invariant (I := fun pool a ↦ P (pool.view self) a)
    (J := fun pool ↦ ∀ id, J (pool.view id)) hJ hstart
    (fun pool a event pool' hJ hP hguard hstep ↦ ?_) h
  obtain ⟨milliseconds, rfl, rfl⟩ | ⟨id, e, v', rfl, hv', rfl⟩ := step_cases hstep
  · exact htick _ a milliseconds hP
  · have hextends := extends_of_act hv'
    by_cases hid : id = self
    · subst hid
      rw [view_put_self hextends]
      simp only [ofSession, if_pos]
      exact hact _ a e v' rfl (hJ id) hP hguard hv'
    · rw [view_put_of_ne (Ne.symm hid) hextends]
      simp only [ofSession, if_neg hid]
      exact hother (pool.view id) a e v' _ (Ne.symm hid) (hJ id) hP hv'

/-- What the own steps of a session keep of it and of its notes holds in every run. -/
theorem Noted.keeps {P : Session → α → Prop}
    (hJ : ∀ pool, Reachable (Pool.step cfg) pool₀ pool → J (pool.view self))
    (hstart : P (pool₀.sessions self) a₀)
    (hact : ∀ v a e v', J v → P v.session a → G v e → v.act cfg e = some v' →
      P v'.session (note a v e))
    (h : Noted cfg G self note (pool₀, a₀) (pool, a)) : P (pool.sessions self) a := by
  refine Noted.keeps_view (J := fun v ↦ v.self = self → J v) (P := fun v a ↦ P v.session a)
    (fun pool hpool id hid ↦ ?_) hstart (fun _ _ _ hP ↦ hP) (fun v a e v' hself hJ ↦ ?_)
    (fun _ _ _ _ _ _ _ hP _ ↦ hP) h
  · obtain rfl : id = self := hid
    exact hJ pool hpool
  · exact hact v a e v' (hJ hself)

end Noted

theorem work_of_step (h : pool.step cfg event = some pool') :
    pool.history.filter isWork ⊆ pool'.history.filter isWork := by
  obtain ⟨milliseconds, -, rfl⟩ | ⟨id, e, v', -, hact, rfl⟩ := step_cases h
  · exact fun _ hmem ↦ hmem
  · exact (extends_of_act hact).work

theorem work_of_reach {G : Pool → Event → Prop} (h : Reach (Pool.step cfg) G pool pool') :
    pool.history.filter isWork ⊆ pool'.history.filter isWork :=
  h.relates (R := fun pool pool' ↦ pool.history.filter isWork ⊆ pool'.history.filter isWork)
    (fun _ ↦ List.Subset.refl _) (fun _ _ _ ↦ List.Subset.trans)
    fun _ _ _ _ hstep ↦ work_of_step hstep

theorem reachable_of_reach {G : Pool → Event → Prop} {pool₀ : Pool}
    (h : Reach (Pool.step cfg) G pool₀ pool) :
    Reach (Pool.step cfg) (onSession fun _ _ ↦ True) pool₀ pool := by
  apply h.mono
  intro pool event _
  cases event <;> trivial

end ElektronPool.Work
