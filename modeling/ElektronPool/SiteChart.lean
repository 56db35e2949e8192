import ElektronPool.Charts
import ElektronPool.Model.AppController

namespace ElektronPool.SiteChart

open Lib Lib.Runs Lib.ReadThrough Lib.Calendar Model Model.ClientStatisticsService Model.AppController
  RecentAccounting Charts

/-- The site, with the accounting behind it. -/
abbrev Site (C : Type) := ReadThrough.State World C (List ChartPoint)

variable {C : Type}

def Site.step (cacheManager : Cache C (List ChartPoint)) :
    Site C → ReadThrough.Event (Key × ShareAccounting.Event) → Option (Site C) :=
  infoChart cacheManager World.step World.now World.rows

def Site.init (cacheManager : Cache C (List ChartPoint)) (start : ℕ)
    (submissionCacheStart : Key → ℕ) : Site C :=
  State.init cacheManager (World.init start submissionCacheStart) start

/-- The accounting was in this state at this time: it came to it by then, and all that has
happened since was at that time or later. -/
structure WasAt (start : ℕ) (submissionCacheStart : Key → ℕ) (s : Site C) (time : ℕ) (w : World) :
    Prop where
  before : Reach World.step NoOverlap (World.init start submissionCacheStart) w
  now_le : w.now ≤ time
  after : Reach World.step (Since World.step World.now NoOverlap time) w s.world

theorem filter_selectsShare_pool (shares : List Accepted) :
    shares.filter (selectsShare .pool) = shares := by
  apply List.filter_eq_self.mpr
  intro share _
  rfl

/-- Whoever asks for the chart of the site, and however the requests overlap, is shown the chart
of the accounting as it was no more than ten minutes and the delay of a request before. If
the rows were up to date then, it is that of all shares accepted by then. -/
theorem shown_of_reach (cacheManager : Cache C (List ChartPoint)) (hcache : cacheManager.Lawful)
    (start delay : ℕ) (submissionCacheStart : Key → ℕ) (s : Site C)
    (h : Reach (Site.step cacheManager) (Prompt NoOverlap delay)
      (Site.init cacheManager start submissionCacheStart) s)
    (answer : Answer (List ChartPoint)) (hanswer : answer ∈ s.answers) :
    ∃ time w, WasAt start submissionCacheStart s time w ∧ time ≤ answer.time ∧
      answer.time ≤ time + (delay + 10 * 60 * 1000) ∧
      getChartDataForSite w.rows time = some answer.value ∧
      (Persisted w → time < longYears → answer.value = chartOf round w.accepted time) := by
  obtain ⟨time, w, hseen, htime, hlate⟩ :=
    (sound_of_reach hcache le_rfl h).answers answer hanswer
  refine ⟨time, w, ⟨hseen.before, hseen.clock_le, hseen.after⟩, htime, hlate, hseen.query, ?_⟩
  intro hpersisted hyear
  have hchart : getChartDataForSite w.rows time =
      some (chartOf round (w.accepted.filter (selectsShare .pool)) time) :=
    chart_eq (books_of_reach hseen.before) hpersisted hseen.clock_le hyear round
  rw [filter_selectsShare_pool] at hchart
  exact Option.some.inj (hseen.query.symm.trans hchart)

/-- When no request comes while another is on its way, the charts that are shown never go back:
each is that of the accounting at a moment no earlier than the one shown before, and of a
state that comes after it. -/
theorem showsInOrder_of_reach (cacheManager : Cache C (List ChartPoint))
    (hcache : cacheManager.Lawful) (start : ℕ) (submissionCacheStart : Key → ℕ) (s : Site C)
    (h : Reach (Site.step cacheManager) (Alone cacheManager NoOverlap)
      (Site.init cacheManager start submissionCacheStart) s) :
    ∃ moments : List (ℕ × World),
      (moments.Pairwise fun later earlier ↦
        earlier.1 ≤ later.1 ∧ Reach World.step NoOverlap earlier.2 later.2) ∧
      List.Forall₂ (fun answer moment ↦ moment.1 ≤ answer.time ∧
        WasAt start submissionCacheStart s moment.1 moment.2 ∧
          getChartDataForSite moment.2.rows moment.1 = some answer.value) s.answers moments := by
  obtain ⟨moments, hordered⟩ := ordered_of_reach hcache le_rfl h
  refine ⟨moments, hordered.sorted.imp fun hearlier ↦ ⟨hearlier.time, hearlier.state⟩, ?_⟩
  refine hordered.seen.imp fun answer moment hseen ↦ ?_
  obtain ⟨htime, hseen⟩ := hseen
  exact ⟨htime, ⟨hseen.before, hseen.clock_le, hseen.after⟩, hseen.query⟩

section Sample

def visits : List (ReadThrough.Event (Key × ShareAccounting.Event)) :=
  [.world (bitaxe, .start 1000 48), .world (nerdminer, .start 2000 2),
    .world (bitaxe, .resume 0 2000), .world (nerdminer, .resume 0 2000),
    .world (bitaxe, .start 700000 8), .world (bitaxe, .resume 0 700000),
    .world (bitaxe, .resume 0 700000), .ask 800000, .read 0 800010, .store 0 800020,
    .world (nerdminer, .start 1250000 4), .world (nerdminer, .resume 0 1250000),
    .world (nerdminer, .resume 0 1250000), .ask 1300000, .ask 1500000, .read 0 1500010,
    .store 0 1500020]

theorem shown_of_reach_visits :
    ∃ s answer, Reach (Site.step .timed) (Prompt NoOverlap 10) (Site.init .timed 0 fun _ ↦ 0) s ∧
      answer ∈ s.answers ∧ answer.time = 1300000 ∧
      ∃ time w, time ≤ 1300000 ∧ 1300000 ≤ time + (10 + 10 * 60 * 1000) ∧
        WasAt 0 (fun _ ↦ 0) s time w ∧ getChartDataForSite w.rows time = some answer.value := by
  obtain ⟨s, hs, hp⟩ := Reach.of_any (Site.step .timed) (Prompt NoOverlap 10)
    (Site.init .timed 0 fun _ ↦ 0) visits
    (fun s ↦ s.answers.any fun answer ↦ answer.time = 1300000) (by decide +kernel)
    (by decide +kernel)
  obtain ⟨answer, hanswer, htime⟩ := List.any_eq_true.mp hp
  have htime : answer.time = 1300000 := of_decide_eq_true htime
  obtain ⟨time, w, hw, hle, hlate, hquery, -⟩ :=
    shown_of_reach .timed Cache.lawful_timed 0 10 (fun _ ↦ 0) s hs answer hanswer
  rw [htime] at hle hlate
  exact ⟨s, answer, hs, hanswer, htime, time, w, hle, hlate, hw, hquery⟩

theorem showsInOrder_of_reach_visits :
    ∃ s, Reach (Site.step .timed) (Alone .timed NoOverlap) (Site.init .timed 0 fun _ ↦ 0) s ∧
      s.answers.map Answer.time = [1500020, 1300000, 800020] ∧
      ∃ moments : List (ℕ × World), moments.length = 3 ∧ moments.Pairwise fun later earlier ↦
        earlier.1 ≤ later.1 ∧ Reach World.step NoOverlap earlier.2 later.2 := by
  obtain ⟨s, hs, hp⟩ := Reach.of_any (Site.step .timed) (Alone .timed NoOverlap)
    (Site.init .timed 0 fun _ ↦ 0) visits
    (fun s ↦ s.answers.map Answer.time = [1500020, 1300000, 800020]) (by decide +kernel)
    (by decide +kernel)
  have htimes := of_decide_eq_true hp
  obtain ⟨moments, hsorted, hseen⟩ :=
    showsInOrder_of_reach .timed Cache.lawful_timed 0 (fun _ ↦ 0) s hs
  refine ⟨s, hs, htimes, moments, ?_, hsorted⟩
  rw [← hseen.length_eq, ← List.length_map Answer.time, htimes]
  rfl

end Sample

end ElektronPool.SiteChart
