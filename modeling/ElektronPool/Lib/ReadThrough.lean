import ElektronPool.Lib.Runs
import Mathlib.Data.List.Forall2
import Mathlib.Data.List.Pairwise
import Mathlib.Order.Lattice

namespace ElektronPool.Lib.ReadThrough

open Runs

variable {σ ε C α : Type*}

structure Cache (C α : Type*) where
  empty : C
  get : C → ℕ → Option α
  set : C → α → (ttl now : ℕ) → C

/-- Only what was set last comes back, until it expires, and not again when it is gone. -/
structure Cache.Lawful (cache : Cache C α) : Prop where
  get_empty : ∀ now, cache.get cache.empty now = none
  get_set : ∀ c value ttl now time value', cache.get (cache.set c value ttl now) time = some value' →
    value' = value ∧ time ≤ now + ttl
  get_later : ∀ c now time, now ≤ time → cache.get c now = none → cache.get c time = none

structure Kept (α : Type*) where
  value : α
  expires : ℕ

/-- A cache that keeps a value until it expires. -/
def Cache.timed : Cache (Option (Kept α)) α where
  empty := none
  get kept now := (kept.filter fun kept ↦ decide (now ≤ kept.expires)).map Kept.value
  set _ value ttl now := some ⟨value, now + ttl⟩

theorem Cache.lawful_timed : (Cache.timed : Cache (Option (Kept α)) α).Lawful where
  get_empty _ := rfl
  get_set _ value ttl now time value' h := by
    obtain ⟨kept, hkept, rfl⟩ := Option.map_eq_some_iff.mp h
    obtain ⟨hset, hle⟩ := Option.filter_eq_some_iff.mp hkept
    cases hset
    exact ⟨rfl, of_decide_eq_true hle⟩
  get_later kept now time hle h := by
    rw [Cache.timed, Option.map_eq_none_iff] at h ⊢
    rw [Option.filter_eq_none_iff] at h ⊢
    intro value hvalue hkept
    exact h value hvalue (decide_eq_true (hle.trans (of_decide_eq_true hkept)))

/-- A request that found nothing kept: its query is still to be made, or was answered. -/
inductive Request (α : Type*)
  | asked
  | read (value : α) (time : ℕ)

def Request.OnTime (delay now : ℕ) : Request α → Prop
  | .asked => True
  | .read _ time => now ≤ time + delay

instance (delay now : ℕ) : ∀ request : Request α, Decidable (request.OnTime delay now)
  | .asked => inferInstanceAs (Decidable True)
  | .read _ time => inferInstanceAs (Decidable (now ≤ time + delay))

structure Answer (α : Type*) where
  value : α
  time : ℕ
deriving DecidableEq

/-- A system, and a cache in front of a query of it. -/
structure State (σ C α : Type*) where
  world : σ
  now : ℕ
  cached : C
  requests : List (Request α)
  answers : List (Answer α)

inductive Event (ε : Type*)
  | world (event : ε)
  | ask (now : ℕ)
  | read (i now : ℕ)
  | store (i now : ℕ)

namespace State

variable (cache : Cache C α)

def init (world : σ) (now : ℕ) : State σ C α := ⟨world, now, cache.empty, [], []⟩

def ask (s : State σ C α) (now : ℕ) : State σ C α :=
  match cache.get s.cached now with
  | some value => { s with now, answers := ⟨value, now⟩ :: s.answers }
  | none => { s with now, requests := s.requests ++ [.asked] }

def read (query : σ → ℕ → Option α) (s : State σ C α) (i now : ℕ) : State σ C α :=
  match query s.world now with
  | some value => { s with now, requests := s.requests.set i (.read value now) }
  | none => { s with now, requests := s.requests.eraseIdx i }

def store (ttl : ℕ) (s : State σ C α) (i now : ℕ) (value : α) : State σ C α where
  world := s.world
  now := now
  cached := cache.set s.cached value ttl now
  requests := s.requests.eraseIdx i
  answers := ⟨value, now⟩ :: s.answers

end State

section Step

variable (cache : Cache C α) (stepWorld : σ → ε → Option σ) (clock : σ → ℕ)
  (query : σ → ℕ → Option α) (ttl : ℕ)

def step (s : State σ C α) : Event ε → Option (State σ C α)
  | .world e => (stepWorld s.world e).bind fun world ↦
      if s.now ≤ clock world then some { s with world, now := clock world } else none
  | .ask now => if s.now ≤ now then some (s.ask cache now) else none
  | .read i now =>
    match s.requests[i]? with
    | some .asked => if s.now ≤ now then some (s.read query i now) else none
    | _ => none
  | .store i now =>
    match s.requests[i]? with
    | some (.read value _) => if s.now ≤ now then some (s.store cache ttl i now value) else none
    | _ => none

def Prompt (G : σ → ε → Prop) (delay : ℕ) (s : State σ C α) : Event ε → Prop
  | .world e => G s.world e
  | .store i now => ∀ request ∈ s.requests[i]?, request.OnTime delay now
  | .ask _ => True
  | .read _ _ => True

instance (G : σ → ε → Prop) [∀ w e, Decidable (G w e)] (delay : ℕ) (s : State σ C α) :
    ∀ e : Event ε, Decidable (Prompt G delay s e)
  | .world e => inferInstanceAs (Decidable (G s.world e))
  | .store i now =>
    inferInstanceAs (Decidable (∀ request ∈ s.requests[i]?, request.OnTime delay now))
  | .ask _ => inferInstanceAs (Decidable True)
  | .read _ _ => inferInstanceAs (Decidable True)

end Step

variable {cache : Cache C α} {stepWorld : σ → ε → Option σ} {clock : σ → ℕ}
  {query : σ → ℕ → Option α} {ttl delay : ℕ} {G : σ → ε → Prop} {w₀ w : σ} {s s' : State σ C α}
  {e : Event ε} {value : α} {time now i : ℕ}

/-- What a step does, with what enables it. -/
inductive Steps (cache : Cache C α) (stepWorld : σ → ε → Option σ) (clock : σ → ℕ)
    (query : σ → ℕ → Option α) (ttl : ℕ) (s : State σ C α) : Event ε → State σ C α → Prop
  | world (e : ε) (world : σ) (hworld : stepWorld s.world e = some world)
      (hnow : s.now ≤ clock world) :
      Steps cache stepWorld clock query ttl s (.world e) { s with world, now := clock world }
  | ask (now : ℕ) (hnow : s.now ≤ now) :
      Steps cache stepWorld clock query ttl s (.ask now) (s.ask cache now)
  | read (i now : ℕ) (hrequest : s.requests[i]? = some .asked) (hnow : s.now ≤ now) :
      Steps cache stepWorld clock query ttl s (.read i now) (s.read query i now)
  | store (i now : ℕ) (value : α) (time : ℕ)
      (hrequest : s.requests[i]? = some (.read value time)) (hnow : s.now ≤ now) :
      Steps cache stepWorld clock query ttl s (.store i now) (s.store cache ttl i now value)

theorem steps_of_step (h : step cache stepWorld clock query ttl s e = some s') :
    Steps cache stepWorld clock query ttl s e s' := by
  cases e with
  | world e =>
    simp only [step, Option.bind_eq_some_iff, Option.ite_none_right_eq_some,
      Option.some.injEq] at h
    obtain ⟨world, hworld, hnow, rfl⟩ := h
    exact .world e world hworld hnow
  | ask now =>
    simp only [step, Option.ite_none_right_eq_some, Option.some.injEq] at h
    obtain ⟨hnow, rfl⟩ := h
    exact .ask now hnow
  | read i now =>
    rw [step] at h
    split at h
    case h_1 hrequest =>
      simp only [Option.ite_none_right_eq_some, Option.some.injEq] at h
      obtain ⟨hnow, rfl⟩ := h
      exact .read i now hrequest hnow
    case h_2 => cases h
  | store i now =>
    rw [step] at h
    split at h
    case h_1 value time hrequest =>
      simp only [Option.ite_none_right_eq_some, Option.some.injEq] at h
      obtain ⟨hnow, rfl⟩ := h
      exact .store i now value time hrequest hnow
    case h_2 => cases h

/-- The events of the system from a time on. -/
def Since (stepWorld : σ → ε → Option σ) (clock : σ → ℕ) (G : σ → ε → Prop) (time : ℕ) (w : σ)
    (e : ε) : Prop :=
  G w e ∧ ∀ w', stepWorld w e = some w' → time ≤ clock w'

theorem Since.of_le {w : σ} {e : ε} (hle : time ≤ now) (h : Since stepWorld clock G now w e) :
    Since stepWorld clock G time w e :=
  ⟨h.1, fun w' hw' ↦ hle.trans (h.2 w' hw')⟩

/-- The value was the answer of the query at this time of the run, in the state that the system
was in then. -/
structure Seen (stepWorld : σ → ε → Option σ) (clock : σ → ℕ) (query : σ → ℕ → Option α)
    (G : σ → ε → Prop) (w₀ world : σ) (now : ℕ) (value : α) (time : ℕ) (w : σ) : Prop where
  before : Reach stepWorld G w₀ w
  after : Reach stepWorld (Since stepWorld clock G time) w world
  clock_le : clock w ≤ time
  le_now : time ≤ now
  query : query w time = some value

theorem Seen.later {world world' : σ} {now' : ℕ}
    (h : Seen stepWorld clock query G w₀ world now value time w)
    (hworld : Reach stepWorld (Since stepWorld clock G now) world world') (hnow : now ≤ now') :
    Seen stepWorld clock query G w₀ world' now' value time w :=
  ⟨h.before, h.after.trans (hworld.mono fun _ _ hsince ↦ hsince.of_le h.le_now), h.clock_le,
    h.le_now.trans hnow, h.query⟩

/-- What comes back from the cache was seen, and not long before. -/
def Fresh (cache : Cache C α) (stepWorld : σ → ε → Option σ) (clock : σ → ℕ)
    (query : σ → ℕ → Option α) (G : σ → ε → Prop) (w₀ world : σ) (now late : ℕ) (c : C) : Prop :=
  ∀ time' value, cache.get c time' = some value →
    ∃ time w, Seen stepWorld clock query G w₀ world now value time w ∧ time' ≤ time + late

/-- What is on its way, kept or answered was seen, and not long before. -/
structure Sound (cache : Cache C α) (stepWorld : σ → ε → Option σ) (clock : σ → ℕ)
    (query : σ → ℕ → Option α) (ttl delay : ℕ) (G : σ → ε → Prop) (w₀ : σ) (s : State σ C α) :
    Prop where
  world : Reach stepWorld G w₀ s.world
  clock_le : clock s.world ≤ s.now
  requests : ∀ value time, Request.read value time ∈ s.requests →
    ∃ w, Seen stepWorld clock query G w₀ s.world s.now value time w
  cached : Fresh cache stepWorld clock query G w₀ s.world s.now (delay + ttl) s.cached
  answers : ∀ answer ∈ s.answers, ∃ time w,
    Seen stepWorld clock query G w₀ s.world s.now answer.value time w ∧
      time ≤ answer.time ∧ answer.time ≤ time + (delay + ttl)

theorem Sound.later (h : Sound cache stepWorld clock query ttl delay G w₀ s)
    (hworld : Reach stepWorld (Since stepWorld clock G s.now) s.world s'.world)
    (hclock : clock s'.world ≤ s'.now) (hnow : s.now ≤ s'.now)
    (hrequests : ∀ value time, Request.read value time ∈ s'.requests →
      Request.read value time ∈ s.requests)
    (hcached : s'.cached = s.cached) (hanswers : s'.answers = s.answers) :
    Sound cache stepWorld clock query ttl delay G w₀ s' where
  world := h.world.trans (hworld.mono fun _ _ hsince ↦ hsince.1)
  clock_le := hclock
  requests value time hmem := by
    obtain ⟨w, hseen⟩ := h.requests value time (hrequests value time hmem)
    exact ⟨w, hseen.later hworld hnow⟩
  cached time' value hget := by
    rw [hcached] at hget
    obtain ⟨time, w, hseen, hlate⟩ := h.cached time' value hget
    exact ⟨time, w, hseen.later hworld hnow, hlate⟩
  answers answer hanswer := by
    obtain ⟨time, w, hseen, htimes⟩ := h.answers answer (hanswers ▸ hanswer)
    exact ⟨time, w, hseen.later hworld hnow, htimes⟩

theorem Sound.init (hcache : cache.Lawful) (hclock : clock w₀ ≤ now) :
    Sound cache stepWorld clock query ttl delay G w₀ (State.init cache w₀ now) where
  world := .refl
  clock_le := hclock
  requests _ _ hmem := absurd hmem List.not_mem_nil
  cached time' value hget := by
    rw [State.init, hcache.get_empty] at hget
    cases hget
  answers _ hanswer := absurd hanswer List.not_mem_nil

theorem Sound.answer (h : Sound cache stepWorld clock query ttl delay G w₀ s)
    (hseen : Seen stepWorld clock query G w₀ s.world s.now value time w) (htime : time ≤ now)
    (hlate : now ≤ time + (delay + ttl)) :
    Sound cache stepWorld clock query ttl delay G w₀
      { s with answers := ⟨value, now⟩ :: s.answers } where
  world := h.world
  clock_le := h.clock_le
  requests := h.requests
  cached := h.cached
  answers answer hanswer := by
    rcases List.mem_cons.mp hanswer with rfl | hold
    · exact ⟨time, w, hseen, htime, hlate⟩
    · exact h.answers answer hold

theorem Sound.ask (h : Sound cache stepWorld clock query ttl delay G w₀ s) (hnow : s.now ≤ now) :
    Sound cache stepWorld clock query ttl delay G w₀ (s.ask cache now) := by
  have hlater : Sound cache stepWorld clock query ttl delay G w₀ { s with now } :=
    h.later .refl (h.clock_le.trans hnow) hnow (fun _ _ hmem ↦ hmem) rfl rfl
  rw [State.ask]
  split
  case h_1 value hget =>
    obtain ⟨time, w, hseen, hlate⟩ := hlater.cached now value hget
    exact hlater.answer hseen hseen.le_now hlate
  case h_2 =>
    refine hlater.later .refl hlater.clock_le le_rfl ?_ rfl rfl
    intro value time hmem
    rcases List.mem_append.mp hmem with hold | hnew
    · exact hold
    · cases List.mem_singleton.mp hnew

theorem Sound.read (h : Sound cache stepWorld clock query ttl delay G w₀ s) (hnow : s.now ≤ now) :
    Sound cache stepWorld clock query ttl delay G w₀ (s.read query i now) := by
  have hlater : Sound cache stepWorld clock query ttl delay G w₀ { s with now } :=
    h.later .refl (h.clock_le.trans hnow) hnow (fun _ _ hmem ↦ hmem) rfl rfl
  rw [State.read]
  split
  case h_1 value hquery =>
    have hseen : Seen stepWorld clock query G w₀ s.world now value now s.world :=
      ⟨h.world, .refl, h.clock_le.trans hnow, le_rfl, hquery⟩
    refine ⟨hlater.world, hlater.clock_le, fun value' time hmem ↦ ?_, hlater.cached,
      hlater.answers⟩
    rcases List.mem_or_eq_of_mem_set hmem with hold | hnew
    · exact hlater.requests value' time hold
    · cases hnew
      exact ⟨s.world, hseen⟩
  case h_2 =>
    refine hlater.later .refl hlater.clock_le le_rfl ?_ rfl rfl
    intro value time hmem
    exact List.mem_of_mem_eraseIdx hmem

theorem Sound.store (hcache : cache.Lawful) (h : Sound cache stepWorld clock query ttl delay G w₀ s)
    (hnow : s.now ≤ now) (hmem : Request.read value time ∈ s.requests)
    (hprompt : now ≤ time + delay) :
    Sound cache stepWorld clock query ttl delay G w₀ (s.store cache ttl i now value) := by
  have hlater : Sound cache stepWorld clock query ttl delay G w₀
      { s with now, requests := s.requests.eraseIdx i } := by
    refine h.later .refl (h.clock_le.trans hnow) hnow ?_ rfl rfl
    intro value time hmem
    exact List.mem_of_mem_eraseIdx hmem
  obtain ⟨w, hold⟩ := h.requests value time hmem
  have hseen : Seen stepWorld clock query G w₀ s.world now value time w := hold.later .refl hnow
  have hlate : now + ttl ≤ time + (delay + ttl) := by omega
  have hanswered := hlater.answer hseen hseen.le_now ((Nat.le_add_right now ttl).trans hlate)
  refine ⟨hanswered.world, hanswered.clock_le, hanswered.requests, fun time' value' hget ↦ ?_,
    hanswered.answers⟩
  obtain ⟨rfl, hexpires⟩ := hcache.get_set _ _ _ _ _ _ hget
  exact ⟨time, w, hseen, hexpires.trans hlate⟩

theorem Sound.step (hcache : cache.Lawful) (h : Sound cache stepWorld clock query ttl delay G w₀ s)
    (hprompt : Prompt G delay s e) (hstep : step cache stepWorld clock query ttl s e = some s') :
    Sound cache stepWorld clock query ttl delay G w₀ s' := by
  cases steps_of_step hstep with
  | world e world hworld hnow =>
    have hsince : Since stepWorld clock G s.now s.world e := by
      refine ⟨hprompt, fun w' hw' ↦ ?_⟩
      rw [hworld] at hw'
      exact Option.some.inj hw' ▸ hnow
    exact h.later (.single hsince hworld) le_rfl hnow (fun _ _ hmem ↦ hmem) rfl rfl
  | ask now hnow => exact h.ask hnow
  | read i now _ hnow => exact h.read hnow
  | store i now value time hrequest hnow =>
    exact h.store hcache hnow (List.mem_of_getElem? hrequest) (hprompt _ hrequest)

/-- In every run of the system with its cache, what was answered had been the answer of the
query not long before. -/
theorem sound_of_reach (hcache : cache.Lawful) (hclock : clock w₀ ≤ now)
    (h : Reach (step cache stepWorld clock query ttl) (Prompt G delay) (State.init cache w₀ now) s) :
    Sound cache stepWorld clock query ttl delay G w₀ s :=
  h.invariant (Sound.init hcache hclock) fun _ _ _ hsound hprompt hstep ↦
    hsound.step hcache hprompt hstep

section Order

def Alone (cache : Cache C α) (G : σ → ε → Prop) (s : State σ C α) : Event ε → Prop
  | .world e => G s.world e
  | .ask now => cache.get s.cached now = none → s.requests = []
  | .read _ _ => True
  | .store _ _ => True

instance (G : σ → ε → Prop) [∀ w e, Decidable (G w e)] (s : State σ C α) :
    ∀ e : Event ε, Decidable (Alone cache G s e)
  | .world e => inferInstanceAs (Decidable (G s.world e))
  | .ask now => inferInstanceAs (Decidable (cache.get s.cached now = none → s.requests = []))
  | .read _ _ => inferInstanceAs (Decidable True)
  | .store _ _ => inferInstanceAs (Decidable True)

/-- One moment of a run, with its state, is no later than another. -/
structure NoLater (stepWorld : σ → ε → Option σ) (G : σ → ε → Prop) (moment moment' : ℕ × σ) :
    Prop where
  time : moment.1 ≤ moment'.1
  state : Reach stepWorld G moment.2 moment'.2

/-- The answers were seen at these moments, the newest first, and nothing older than these is on
its way or kept. -/
structure Ordered (cache : Cache C α) (stepWorld : σ → ε → Option σ) (clock : σ → ℕ)
    (query : σ → ℕ → Option α) (G : σ → ε → Prop) (w₀ : σ) (s : State σ C α)
    (moments : List (ℕ × σ)) : Prop where
  world : Reach stepWorld G w₀ s.world
  clock_le : clock s.world ≤ s.now
  seen : List.Forall₂ (fun answer moment ↦ moment.1 ≤ answer.time ∧
    Seen stepWorld clock query G w₀ s.world s.now answer.value moment.1 moment.2) s.answers moments
  sorted : moments.Pairwise fun later earlier ↦ NoLater stepWorld G earlier later
  noLater : ∀ moment ∈ moments, NoLater stepWorld G moment (s.now, s.world)
  cached : (∀ now, cache.get s.cached now = none) ∨ ∃ value moment,
    Seen stepWorld clock query G w₀ s.world s.now value moment.1 moment.2 ∧
      (∀ earlier ∈ moments, NoLater stepWorld G earlier moment) ∧
      ∀ now value', cache.get s.cached now = some value' → value' = value
  requests : s.requests = [] ∨ ∃ request, s.requests = [request] ∧
    cache.get s.cached s.now = none ∧ ∀ value time, request = .read value time →
      ∃ w, Seen stepWorld clock query G w₀ s.world s.now value time w ∧
        ∀ earlier ∈ moments, NoLater stepWorld G earlier (time, w)

variable {moments : List (ℕ × σ)} {moment : ℕ × σ}

theorem NoLater.trans {moment' moment'' : ℕ × σ} (h : NoLater stepWorld G moment moment')
    (h' : NoLater stepWorld G moment' moment'') : NoLater stepWorld G moment moment'' :=
  ⟨h.time.trans h'.time, h.state.trans h'.state⟩

theorem Ordered.init (hcache : cache.Lawful) (hclock : clock w₀ ≤ now) :
    Ordered cache stepWorld clock query G w₀ (State.init cache w₀ now) [] where
  world := .refl
  clock_le := hclock
  seen := .nil
  sorted := .nil
  noLater _ hmem := absurd hmem List.not_mem_nil
  cached := .inl hcache.get_empty
  requests := .inl rfl

theorem Ordered.later (hcache : cache.Lawful)
    (h : Ordered cache stepWorld clock query G w₀ s moments)
    (hworld : Reach stepWorld (Since stepWorld clock G s.now) s.world s'.world)
    (hclock : clock s'.world ≤ s'.now) (hnow : s.now ≤ s'.now) (hcached : s'.cached = s.cached)
    (hanswers : s'.answers = s.answers) (hrequests : s'.requests = s.requests ∨ s'.requests = []) :
    Ordered cache stepWorld clock query G w₀ s' moments := by
  have hreach : Reach stepWorld G s.world s'.world := hworld.mono fun _ _ hsince ↦ hsince.1
  constructor
  · exact h.world.trans hreach
  · exact hclock
  · rw [hanswers]
    exact h.seen.imp fun answer moment hseen ↦ ⟨hseen.1, hseen.2.later hworld hnow⟩
  · exact h.sorted
  · exact fun moment hmem ↦ (h.noLater moment hmem).trans ⟨hnow, hreach⟩
  · rw [hcached]
    refine h.cached.imp_right fun hkept ↦ ?_
    obtain ⟨value, moment, hseen, hearlier, hget⟩ := hkept
    exact ⟨value, moment, hseen.later hworld hnow, hearlier, hget⟩
  · rcases hrequests with hsame | hnone
    · rw [hsame, hcached]
      refine h.requests.imp_right fun hrequest ↦ ?_
      obtain ⟨request, hrequest, hgone, hread⟩ := hrequest
      refine ⟨request, hrequest, hcache.get_later _ _ _ hnow hgone, fun value time heq ↦ ?_⟩
      obtain ⟨w, hseen, hearlier⟩ := hread value time heq
      exact ⟨w, hseen.later hworld hnow, hearlier⟩
    · exact .inl hnone

theorem Ordered.answer (h : Ordered cache stepWorld clock query G w₀ s moments)
    (hrequests : s.requests = [])
    (hseen : Seen stepWorld clock query G w₀ s.world s.now value moment.1 moment.2)
    (htime : moment.1 ≤ now) (hearlier : ∀ earlier ∈ moments, NoLater stepWorld G earlier moment)
    (cached : C) (hcached : ∀ now value', cache.get cached now = some value' → value' = value) :
    Ordered cache stepWorld clock query G w₀
      { s with cached, answers := ⟨value, now⟩ :: s.answers } (moment :: moments) where
  world := h.world
  clock_le := h.clock_le
  seen := .cons ⟨htime, hseen⟩ h.seen
  sorted := List.pairwise_cons.mpr ⟨hearlier, h.sorted⟩
  noLater moment' hmem := by
    rcases List.mem_cons.mp hmem with rfl | hold
    · exact ⟨hseen.le_now, hseen.after.mono fun _ _ hsince ↦ hsince.1⟩
    · exact h.noLater moment' hold
  cached := by
    refine .inr ⟨value, moment, hseen, fun earlier hmem ↦ ?_, hcached⟩
    rcases List.mem_cons.mp hmem with rfl | hold
    · exact ⟨le_rfl, .refl⟩
    · exact hearlier earlier hold
  requests := .inl hrequests

theorem Ordered.ask (hcache : cache.Lawful)
    (h : Ordered cache stepWorld clock query G w₀ s moments) (hnow : s.now ≤ now)
    (halone : cache.get s.cached now = none → s.requests = []) :
    ∃ moments, Ordered cache stepWorld clock query G w₀ (s.ask cache now) moments := by
  have hlater : Ordered cache stepWorld clock query G w₀ { s with now } moments :=
    h.later hcache .refl (h.clock_le.trans hnow) hnow rfl rfl (.inl rfl)
  rw [State.ask]
  split
  case h_1 value hget =>
    rcases hlater.cached with hnone | ⟨value', moment, hseen, hearlier, hkept⟩
    · rw [hnone now] at hget
      cases hget
    · obtain rfl := hkept now value hget
      refine ⟨moment :: moments, hlater.answer ?_ hseen hseen.le_now hearlier s.cached hkept⟩
      rcases hlater.requests with hnone | ⟨request, -, hgone, -⟩
      · exact hnone
      · rw [hgone] at hget
        cases hget
  case h_2 hget =>
    refine ⟨moments, hlater.world, hlater.clock_le, hlater.seen, hlater.sorted, hlater.noLater,
      hlater.cached, .inr ⟨.asked, ?_, hget, fun _ _ hread ↦ by cases hread⟩⟩
    rw [halone hget]
    rfl

theorem Ordered.single (h : Ordered cache stepWorld clock query G w₀ s moments)
    {request : Request α} (hget : s.requests[i]? = some request) : i = 0 ∧ s.requests = [request] ∧
      cache.get s.cached s.now = none ∧ ∀ value time, request = .read value time →
        ∃ w, Seen stepWorld clock query G w₀ s.world s.now value time w ∧
          ∀ earlier ∈ moments, NoLater stepWorld G earlier (time, w) := by
  rcases h.requests with hnone | ⟨request', hrequest, hgone, hread⟩
  · rw [hnone] at hget
    cases hget
  · rw [hrequest] at hget
    cases i with
    | zero =>
      obtain rfl := Option.some.inj hget
      exact ⟨rfl, hrequest, hgone, hread⟩
    | succ i => cases hget

theorem Ordered.read (hcache : cache.Lawful)
    (h : Ordered cache stepWorld clock query G w₀ s moments) (hnow : s.now ≤ now)
    (hget : s.requests[i]? = some .asked) :
    Ordered cache stepWorld clock query G w₀ (s.read query i now) moments := by
  have hlater : Ordered cache stepWorld clock query G w₀ { s with now } moments :=
    h.later hcache .refl (h.clock_le.trans hnow) hnow rfl rfl (.inl rfl)
  obtain ⟨rfl, hrequest, hgone, -⟩ := hlater.single hget
  have hrequest' : s.requests = [.asked] := hrequest
  rw [State.read]
  split
  case h_1 value hquery =>
    refine ⟨hlater.world, hlater.clock_le, hlater.seen, hlater.sorted, hlater.noLater,
      hlater.cached, .inr ⟨.read value now, ?_, hgone, ?_⟩⟩
    · rw [hrequest', List.set_cons_zero]
    · intro value' time hread
      cases hread
      exact ⟨s.world, ⟨h.world, .refl, h.clock_le.trans hnow, le_rfl, hquery⟩, hlater.noLater⟩
  case h_2 =>
    refine hlater.later hcache .refl hlater.clock_le le_rfl rfl rfl (.inr ?_)
    rw [hrequest', List.eraseIdx_cons_zero]

theorem Ordered.store (hcache : cache.Lawful)
    (h : Ordered cache stepWorld clock query G w₀ s moments) (hnow : s.now ≤ now)
    (hget : s.requests[i]? = some (.read value time)) :
    ∃ moments, Ordered cache stepWorld clock query G w₀ (s.store cache ttl i now value) moments := by
  obtain ⟨rfl, hrequest, -, hread⟩ := h.single hget
  obtain ⟨w, hseen, hearlier⟩ := hread value time rfl
  have hnone : s.requests.eraseIdx 0 = [] := by rw [hrequest, List.eraseIdx_cons_zero]
  have hlater : Ordered cache stepWorld clock query G w₀
      { s with now, requests := s.requests.eraseIdx 0 } moments :=
    h.later hcache .refl (h.clock_le.trans hnow) hnow rfl rfl (.inr hnone)
  refine ⟨(time, w) :: moments, hlater.answer hnone (hseen.later .refl hnow)
    (hseen.le_now.trans hnow) hearlier (cache.set s.cached value ttl now) ?_⟩
  intro now' value' hget
  exact (hcache.get_set _ _ _ _ _ _ hget).1

theorem Ordered.step (hcache : cache.Lawful)
    (h : Ordered cache stepWorld clock query G w₀ s moments) (halone : Alone cache G s e)
    (hstep : step cache stepWorld clock query ttl s e = some s') :
    ∃ moments, Ordered cache stepWorld clock query G w₀ s' moments := by
  cases steps_of_step hstep with
  | world e world hworld hnow =>
    have hsince : Since stepWorld clock G s.now s.world e := by
      refine ⟨halone, fun w' hw' ↦ ?_⟩
      rw [hworld] at hw'
      exact Option.some.inj hw' ▸ hnow
    exact ⟨moments, h.later hcache (.single hsince hworld) le_rfl hnow rfl rfl (.inl rfl)⟩
  | ask now hnow => exact h.ask hcache hnow halone
  | read i now hrequest hnow => exact ⟨moments, h.read hcache hnow hrequest⟩
  | store i now value time hrequest hnow => exact h.store hcache hnow hrequest

/-- When requests do not overlap, no answer is older than the one before. -/
theorem ordered_of_reach (hcache : cache.Lawful) (hclock : clock w₀ ≤ now)
    (h : Reach (step cache stepWorld clock query ttl) (Alone cache G) (State.init cache w₀ now) s) :
    ∃ moments, Ordered cache stepWorld clock query G w₀ s moments := by
  apply Reach.invariant (I := fun s ↦ ∃ moments, Ordered cache stepWorld clock query G w₀ s moments)
    ⟨[], Ordered.init hcache hclock⟩ _ h
  intro s e s' hordered halone hstep
  obtain ⟨moments, hordered⟩ := hordered
  exact hordered.step hcache halone hstep

end Order

end ElektronPool.Lib.ReadThrough
