import ElektronPool.Model.PoolRegistry

namespace ElektronPool.BlockConfirmation

open Lib Model FoundBlocks

structure Process where
  now : ℕ
  registry : PoolRegistry
  recordings : List (String × ℕ)

inductive Event
  | tick (milliseconds : ℕ)
  | refreshRegistry (answer : Except String (Option String))
  | recordFoundBlock (blockHash : String)
  | reportBlockFound (blockHash : String)
  | wasRecentlyFound (blockHash : String)
  | poolIdentityConfirm (blockHash : Option String)

def start (now : ℕ) (localCache : Option String) : Process where
  now
  registry :=
    PoolRegistry.loadLocalCache { mempools := [], recentlyFoundBlocks := MapData.empty, localCache }
  recordings := []

variable (config : PoolIdentityConfig) (toLowerCase : String → String)

def step (process : Process) : Event → Process
  | .tick milliseconds => { process with now := process.now + milliseconds }
  | .refreshRegistry answer => { process with registry := process.registry.refreshRegistry answer }
  | .recordFoundBlock blockHash =>
    { process with
      registry := process.registry.recordFoundBlock toLowerCase blockHash process.now
      recordings := (blockHash, process.now) :: process.recordings }
  | .reportBlockFound blockHash =>
    { process with
      registry := (process.registry.reportBlockFound config toLowerCase blockHash process.now).1
      recordings := (blockHash, process.now) :: process.recordings }
  | .wasRecentlyFound blockHash =>
    { process with
      registry := (process.registry.wasRecentlyFound toLowerCase blockHash process.now).1 }
  | .poolIdentityConfirm blockHash =>
    { process with
      registry :=
        (process.registry.poolIdentityConfirm config toLowerCase blockHash process.now).1 }

def processAfter (now : ℕ) (localCache : Option String) (events : List Event) : Process :=
  events.foldl (step config toLowerCase) (start now localCache)

/-- The time of the last recording under this lower-case hash. -/
def lastRecording (recordings : List (String × ℕ)) (key : String) : Option ℕ :=
  (recordings.find? fun recording ↦ toLowerCase recording.1 = key).map Prod.snd

/-- A hash that equals this one up to case was recorded last at most 30 minutes ago. -/
def RecentlyRecorded (process : Process) (blockHash : String) : Prop :=
  ∃ foundAt, lastRecording toLowerCase process.recordings (toLowerCase blockHash) = some foundAt ∧
    (process.now : ℤ) - foundAt ≤ 30 * 60 * 1000

/-- The map holds last recordings only, and all those that are recent. -/
structure Tracks (process : Process) : Prop where
  last : ∀ key foundAt, process.registry.recentlyFoundBlocks.Holds key foundAt →
    lastRecording toLowerCase process.recordings key = some foundAt
  recent : ∀ key foundAt, lastRecording toLowerCase process.recordings key = some foundAt →
    process.now ≤ foundAt + recentBlockTtlMs →
    process.registry.recentlyFoundBlocks.Holds key foundAt

variable {config toLowerCase} {process : Process} {now foundAt : ℕ}
  {key blockHash : String}

theorem Tracks.prune (h : Tracks toLowerCase process) :
    Tracks toLowerCase
      { process with
        registry := { process.registry with
          recentlyFoundBlocks := process.registry.recentlyFoundBlocks.pruneOldEntries process.now } }
    where
  last key foundAt hholds := h.last key foundAt (holds_pruneOldEntries.mp hholds).1
  recent key foundAt hlast hrecent :=
    holds_pruneOldEntries.mpr ⟨h.recent key foundAt hlast hrecent, hrecent⟩

theorem Tracks.record (h : Tracks toLowerCase process) (blockHash : String) :
    Tracks toLowerCase
      { process with
        registry := process.registry.recordFoundBlock toLowerCase blockHash process.now
        recordings := (blockHash, process.now) :: process.recordings } := by
  have hself : lastRecording toLowerCase ((blockHash, process.now) :: process.recordings)
      (toLowerCase blockHash) = some process.now := by
    rw [lastRecording, List.find?_cons_of_pos (by simp), Option.map_some]
  have hother {key : String} (hne : key ≠ toLowerCase blockHash) :
      lastRecording toLowerCase ((blockHash, process.now) :: process.recordings) key =
        lastRecording toLowerCase process.recordings key := by
    rw [lastRecording, List.find?_cons_of_neg (by simpa using hne.symm), lastRecording]
  constructor
  · intro key foundAt hholds
    rcases holds_recordFoundBlock.mp hholds with ⟨rfl, rfl⟩ | ⟨hne, hholds, -⟩
    · exact hself
    · exact (hother hne).trans (h.last key foundAt hholds)
  · intro key foundAt hlast hrecent
    refine holds_recordFoundBlock.mpr ?_
    by_cases heq : key = toLowerCase blockHash
    · refine .inl ⟨heq, ?_⟩
      exact Option.some.inj (hlast.symm.trans (heq ▸ hself))
    · rw [hother heq] at hlast
      exact .inr ⟨heq, h.recent key foundAt hlast hrecent, hrecent⟩

theorem reportBlockFound_fst (config : PoolIdentityConfig) (registry : PoolRegistry)
    (blockHash : String) (now : ℕ) :
    (registry.reportBlockFound config toLowerCase blockHash now).1 =
      registry.recordFoundBlock toLowerCase blockHash now := by
  rw [PoolRegistry.reportBlockFound]
  split <;> rfl

theorem Tracks.confirm (h : Tracks toLowerCase process) (blockHash : Option String) :
    Tracks toLowerCase (step config toLowerCase process (.poolIdentityConfirm blockHash)) := by
  simp only [step, PoolRegistry.poolIdentityConfirm, FoundBlocks.confirmed]
  split
  · split
    · exact h.prune
    · exact h
  · exact h

theorem found_refreshRegistry (registry : PoolRegistry) (answer : Except String (Option String)) :
    (registry.refreshRegistry answer).recentlyFoundBlocks = registry.recentlyFoundBlocks := by
  cases answer with
  | error message => rfl
  | ok data =>
    simp only [PoolRegistry.refreshRegistry]
    split <;> rfl

theorem Tracks.step (h : Tracks toLowerCase process) (event : Event) :
    Tracks toLowerCase (step config toLowerCase process event) := by
  cases event with
  | tick milliseconds =>
    exact ⟨h.last, fun key foundAt hlast hrecent ↦
      h.recent key foundAt hlast ((Nat.le_add_right _ milliseconds).trans hrecent)⟩
  | refreshRegistry answer =>
    have hsame := found_refreshRegistry process.registry answer
    exact ⟨fun key foundAt hholds ↦ h.last key foundAt (hsame ▸ hholds),
      fun key foundAt hlast hrecent ↦ hsame.symm ▸ h.recent key foundAt hlast hrecent⟩
  | recordFoundBlock blockHash => exact h.record blockHash
  | reportBlockFound blockHash =>
    have hrecord := h.record blockHash
    rw [← reportBlockFound_fst config] at hrecord
    exact hrecord
  | wasRecentlyFound blockHash => exact h.prune
  | poolIdentityConfirm blockHash => exact h.confirm blockHash

theorem tracks_processAfter (now : ℕ) (localCache : Option String) (events : List Event) :
    Tracks toLowerCase (processAfter config toLowerCase now localCache events) := by
  have hstart : Tracks toLowerCase (start now localCache) := by
    have hempty : (start now localCache).registry.recentlyFoundBlocks = MapData.empty := by
      cases localCache <;> rfl
    refine ⟨fun key foundAt hholds ↦ ?_, fun key foundAt hlast ↦ by cases hlast⟩
    rw [hempty] at hholds
    cases hholds
  rw [processAfter]
  generalize start now localCache = process at hstart
  induction events generalizing process with
  | nil => exact hstart
  | cons event events ih => exact ih _ (hstart.step event)

theorem Tracks.wasRecentlyFound_iff (h : Tracks toLowerCase process) (blockHash : String) :
    (process.registry.wasRecentlyFound toLowerCase blockHash process.now).2 = true ↔
      RecentlyRecorded toLowerCase process blockHash := by
  simp only [PoolRegistry.wasRecentlyFound, FoundBlocks.wasRecentlyFound, MapData.has_iff,
    holds_pruneOldEntries, RecentlyRecorded]
  apply exists_congr
  intro foundAt
  have hclock : process.now ≤ foundAt + recentBlockTtlMs ↔
      (process.now : ℤ) - foundAt ≤ 30 * 60 * 1000 := by
    rw [recentBlockTtlMs]
    omega
  rw [← hclock]
  exact ⟨fun ⟨hholds, hrecent⟩ ↦ ⟨h.last _ _ hholds, hrecent⟩,
    fun ⟨hlast, hrecent⟩ ↦ ⟨h.recent _ _ hlast hrecent, hrecent⟩⟩

/-- In every run a hash is confirmed exactly while its last recording is recent. -/
theorem confirms_iff (config : PoolIdentityConfig) (toLowerCase : String → String) (now : ℕ)
    (localCache : Option String) (events : List Event) (blockHash : String) :
    let process := processAfter config toLowerCase now localCache events
    ((process.registry.wasRecentlyFound toLowerCase blockHash process.now).2 = true ↔
      RecentlyRecorded toLowerCase process blockHash) ∧
    ((process.registry.poolIdentityConfirm config toLowerCase (some blockHash)
      process.now).2.confirmed = true ↔
        blockHash ≠ "" ∧ RecentlyRecorded toLowerCase process blockHash) := by
  intro process
  have htracks : Tracks toLowerCase process := tracks_processAfter now localCache events
  have hanswer := htracks.wasRecentlyFound_iff blockHash
  refine ⟨hanswer, ?_⟩
  rw [← hanswer]
  by_cases hempty : blockHash = ""
  · subst hempty
    simp [PoolRegistry.poolIdentityConfirm, FoundBlocks.confirmed]
  · have hlength : 0 < blockHash.length := by
      rw [Nat.pos_iff_ne_zero, ne_eq, String.length_eq_zero_iff]
      exact hempty
    rw [PoolRegistry.poolIdentityConfirm, FoundBlocks.confirmed, if_pos hlength]
    exact (and_iff_right hempty).symm

end ElektronPool.BlockConfirmation
