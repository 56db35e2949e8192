import ElektronPool.Model.Client
import ElektronPool.Vardiff

namespace ElektronPool.Suggestion

open Lib.Runs Lib.FloatingPoint Model Model.StratumV1ClientStatistics ShareAccounting Vardiff
open Lib.FloatingPoint.Arithmetic (binary64)

/-- With enough call stack, `f` returns `r`. -/
def Returns (f : ℕ → Except RangeError (Option ℚ)) (r : ℚ) : Prop :=
  ∃ frames, ∀ stack ≥ frames, f stack = .ok (some r)

theorem Returns.unique {f : ℕ → Except RangeError (Option ℚ)} {r r' : ℚ} (h : Returns f r)
    (h' : Returns f r') : r = r' := by
  obtain ⟨frames, h⟩ := h
  obtain ⟨frames', h'⟩ := h'
  have heq := (h (max frames frames') (le_max_left _ _)).symm.trans (h' _ (le_max_right _ _))
  simpa using heq

section Rounding

variable {val r : ℚ} {k m : ℕ}

theorem multiplied_exact (val : ℚ) (k : ℕ) : multiplied .exact val k = val * 100 ^ k := by
  induction k generalizing val with
  | zero => exact (mul_one val).symm
  | succ k ih =>
    calc multiplied .exact val (k + 1) = multiplied .exact (val * 100) k := rfl
      _ = val * 100 ^ (k + 1) := by rw [ih, pow_succ', mul_assoc]

theorem divided_exact (r : ℚ) (k : ℕ) : divided .exact r k = r / 100 ^ k := by
  induction k with
  | zero => exact (div_one r).symm
  | succ k ih =>
    calc divided .exact r (k + 1) = divided .exact r k / 100 := divided_succ r k
      _ = r / 100 ^ (k + 1) := by rw [ih, div_div, pow_succ]

theorem rounded_exact (hval : minDiff ≤ val) : Rounded .exact val :=
  ⟨by change 0 < minDiff; norm_num [minDiff], hval, rfl⟩

theorem returns_divided (hval : minDiff ≤ val) (h : PositiveAfter .exact val k) :
    Returns (fun stack ↦ nearestPowerOfTwo .exact stack (val : Difficulty))
      (divided .exact (2 ^ (truncated .exact val k).toNat.log2) k) := by
  refine ⟨k + 1, ?_⟩
  intro stack hstack
  exact nearestPowerOfTwo_of_positiveAfter (rounded_exact hval) h (fun _ _ ↦ rfl) (by omega)

theorem exists_positiveAfter_of_returns (hval : minDiff ≤ val)
    (h : Returns (fun stack ↦ nearestPowerOfTwo .exact stack (val : Difficulty)) r) :
    ∃ k, PositiveAfter .exact val k ∧
      r = divided .exact (2 ^ (truncated .exact val k).toNat.log2) k := by
  have hex : ∃ k, 0 < truncated .exact val k := by
    by_contra hnone
    push Not at hnone
    obtain ⟨frames, hframes⟩ := h
    have herror : nearestPowerOfTwo .exact frames (val : Difficulty) =
        .error .maximumCallStackSizeExceeded :=
      nearestPowerOfTwo_of_forall_nonpos (rounded_exact hval) (fun j _ ↦ hnone j) fun _ _ ↦ rfl
    exact absurd ((hframes frames le_rfl).symm.trans herror) (by simp)
  classical
  have hfirst : PositiveAfter .exact val (Nat.find hex) :=
    ⟨fun j hj ↦ not_lt.mp (Nat.find_min hex hj), Nat.find_spec hex⟩
  exact ⟨_, hfirst, h.unique (returns_divided hval hfirst)⟩

theorem divided_le (hpos : PositiveAfter .exact val k) :
    divided .exact (2 ^ (truncated .exact val k).toNat.log2) k ≤ 2 ^ 30 := by
  have hlt : truncated .exact val k < 2 ^ 31 := by
    have := BitVec.toInt_lt (x := BitVec.ofInt 32 ⌊multiplied .exact val k⌋)
    simpa [truncated] using this
  have hne : (truncated .exact val k).toNat ≠ 0 := by
    have := hpos.2
    omega
  have hlog : (truncated .exact val k).toNat.log2 < 31 := (Nat.log2_lt hne).mpr (by omega)
  have hpow : (2 : ℚ) ^ (truncated .exact val k).toNat.log2 ≤ 2 ^ 30 :=
    pow_le_pow_right₀ (by norm_num) (by omega)
  have hscale : (1 : ℚ) ≤ 100 ^ k := one_le_pow₀ (by norm_num)
  rw [divided_exact, div_le_iff₀ (by linarith)]
  nlinarith

theorem bounds_of_reaches (h : Reaches .exact val k m) :
    val / 2 < divided .exact (2 ^ m) k ∧ divided .exact (2 ^ m) k ≤ val := by
  have hscale : (0 : ℚ) < 100 ^ k := by positivity
  have hlow := h.low
  have hhigh := h.high
  rw [multiplied_exact] at hlow hhigh
  rw [pow_succ] at hhigh
  rw [divided_exact, lt_div_iff₀ hscale, div_le_iff₀ hscale]
  constructor
  · linarith
  · exact hlow

def Halves (val : ℚ) : Prop :=
  ∃ r, Returns (fun stack ↦ nearestPowerOfTwo .exact stack (val : Difficulty)) r ∧
    val / 2 < r ∧ r ≤ val

/-- From the minimum on, rounding is right exactly below `2 ^ 31`, where the
32-bit operators still hold the value. -/
theorem halves_iff_lt (val : ℚ) (hval : minDiff ≤ val) : Halves val ↔ val < 2 ^ 31 := by
  constructor
  · rintro ⟨r, hr, hlow, -⟩
    obtain ⟨k, hpos, rfl⟩ := exists_positiveAfter_of_returns hval hr
    have hle := divided_le hpos
    linarith
  · intro hlt
    have hthree : 1 ≤ multiplied .exact val 3 := by
      have hmin : 1 / 100000 ≤ val := hval
      rw [multiplied_exact]
      linarith
    obtain ⟨k, -, m, hreaches⟩ := exists_reaches hthree
    obtain ⟨hpos, -, rfl⟩ :=
      hreaches.positiveAfter ⟨rfl, fun _ _ ↦ rfl⟩ (rounded_exact hval) hlt
    exact ⟨_, returns_divided hval hpos, bounds_of_reaches hreaches⟩

theorem halves_iff_lt_largest : minDiff ≤ (2 ^ 31 - 1) ∧
    (Halves (2 ^ 31 - 1) ↔ (2 ^ 31 - 1 : ℚ) < 2 ^ 31) :=
  ⟨by norm_num [minDiff], halves_iff_lt (2 ^ 31 - 1) (by norm_num [minDiff])⟩

/-- A rate of `2 ^ 31` is negative as a 32-bit integer. -/
theorem not_halves_at_two_pow : ¬ ∀ val, minDiff ≤ val → Halves val := by
  intro h
  exact absurd ((halves_iff_lt (2 ^ 31) (by norm_num [minDiff])).mp (h _ (by norm_num [minDiff])))
    (by norm_num)

end Rounding

section Silence

variable {statistics : StratumV1ClientStatistics} {d t : ℚ} {now : ℕ}

/-- Every share is worth something; that of the zero hash is worth `Infinity`. -/
def Worth (_ : State) : ShareAccounting.Event → Prop
  | .start _ submissionDifficulty => 0 < submissionDifficulty
  | .resume _ _ => True

/-- More than a minute has passed since the statistics were created, and since the last share. -/
def Silent (statistics : StratumV1ClientStatistics) (now : ℕ) : Prop :=
  60 < ((now : ℚ) - statistics.submissionCacheStart) / 1000 ∧
    ∀ cached ∈ statistics.submissionCache.getLast?, 60 < ((now : ℚ) - cached.time) / 1000

def Eased (statistics : StratumV1ClientStatistics) (d : ℚ) (now : ℕ) : Prop :=
  ∃ r, Returns (fun stack ↦ statistics.getSuggestedDifficulty stack d now) r ∧ r < d

/-- Fewer than five shares are cached, or they came in over some time and at a rate, not so low that
it is zero, that calls for less than half the difficulty. -/
def Eases (cache : List CachedSubmission) (d : ℚ) : Prop :=
  cache.length < 5 ∨
    rate cache ≠ 0 ∧ rate cache < binary64.number (d / 2 : ℚ)

theorem getSuggestedDifficulty_of_few (hfew : statistics.submissionCache.length < 5)
    (hlate : 60 < ((now : ℚ) - statistics.submissionCacheStart) / 1000) (stack : ℕ) :
    statistics.getSuggestedDifficulty stack d now =
      nearestPowerOfTwo binary64 stack (binary64.number (d / 6 : ℚ)) := by
  rw [getSuggestedDifficulty, if_pos hfew, if_pos ((late_iff statistics now).mpr hlate)]

theorem getSuggestedDifficulty_of_rate (hfive : ¬ statistics.submissionCache.length < 5)
    (stack : ℕ) :
    statistics.getSuggestedDifficulty stack d now =
      if binary64.number (d * 2 : ℚ) < rate statistics.submissionCache ∨
          rate statistics.submissionCache < binary64.number (d / 2 : ℚ) then
        nearestPowerOfTwo binary64 stack (rate statistics.submissionCache)
      else .ok none := by
  rw [getSuggestedDifficulty, if_neg hfive, targetDifficulty_eq]

theorem exists_returns_lt (ht : binary64.round t = t) (hne : t ≠ 0) (hlt : t < 2 ^ 31) :
    ∃ r, Returns (fun stack ↦ nearestPowerOfTwo binary64 stack (t : Difficulty)) r ∧
      (t ≤ 2 * r ∧ r < 2 * t ∨ t < binary64.round minDiff ∧ r = binary64.round minDiff) := by
  by_cases hmin : t < binary64.round minDiff
  · refine ⟨_, ⟨1, fun stack hstack ↦ ?_⟩, .inr ⟨hmin, rfl⟩⟩
    obtain ⟨stack, rfl⟩ : ∃ m, stack = m + 1 := ⟨stack - 1, by omega⟩
    exact nearestPowerOfTwo_of_lt hne hmin
  · obtain ⟨k, hk, m, hreaches, hresult⟩ := nearestPowerOfTwo_binary64 ht (not_lt.mp hmin) hlt
    refine ⟨_, ⟨k + 1, fun stack hstack ↦ ?_⟩, .inl (hreaches.bounds ht hk)⟩
    exact (hresult stack).trans (if_pos (by omega))

theorem eased_of_few (hfew : statistics.submissionCache.length < 5)
    (hlate : 60 < ((now : ℚ) - statistics.submissionCacheStart) / 1000)
    (hmin : binary64.round minDiff < d) (hlt : d < 2 ^ 31) : Eased statistics d now := by
  have hsmall : Format.binary64.Represents (1 / 2 ^ 20) :=
    ⟨1, -20, by decide, by decide, by norm_num⟩
  have hd : 6 / 2 ^ 20 < d := by linarith [le_minDiff]
  have hpos := Format.le_round hsmall (x := d / 6) (by linarith)
  have hle := Format.round_le_two_mul (F := .binary64) (x := d / 6) (by linarith)
    (normal_of_le (by linarith))
  change 1 / 2 ^ 20 ≤ binary64.round (d / 6) at hpos
  change binary64.round (d / 6) ≤ _ at hle
  obtain ⟨r, hr, hbounds⟩ := exists_returns_lt (t := binary64.round (d / 6))
    (binary64.round_round _) (by linarith) (by linarith)
  refine ⟨r, ?_, ?_⟩
  · rw [← number_of_le (by linarith)] at hr
    simpa only [Returns, getSuggestedDifficulty_of_few hfew hlate] using hr
  · rcases hbounds with ⟨-, hbounds⟩ | ⟨-, rfl⟩
    · linarith
    · exact hmin

theorem eased_of_low (hfive : ¬ statistics.submissionCache.length < 5)
    (hne : rate statistics.submissionCache ≠ 0)
    (hlow : rate statistics.submissionCache < binary64.number (d / 2 : ℚ))
    (hmin : binary64.round minDiff < d) (hlt : d < 2 ^ 31) : Eased statistics d now := by
  obtain ⟨t, ht⟩ : ∃ t : ℚ, rate statistics.submissionCache = t :=
    ⟨_, (WithTop.coe_untop _ hlow.ne_top).symm⟩
  have hround := Arithmetic.round_of_number_eq ht
  have hhalf : t < d / 2 := by
    rw [ht, number_of_le (by linarith), WithTop.coe_lt_coe] at hlow
    exact Format.lt_of_lt_round (represents_of_round hround) hlow
  rw [ht, ne_eq, WithTop.coe_eq_zero] at hne
  obtain ⟨r, hr, hbounds⟩ := exists_returns_lt hround hne (by linarith)
  refine ⟨r, ?_, ?_⟩
  · simp only [Returns, getSuggestedDifficulty_of_rate hfive, if_pos (Or.inr hlow)]
    rwa [ht]
  · rcases hbounds with ⟨-, hbounds⟩ | ⟨-, rfl⟩
    · linarith
    · exact hmin

theorem not_eased_of_not_low (hfive : ¬ statistics.submissionCache.length < 5)
    (hlow : ¬ (rate statistics.submissionCache ≠ 0 ∧
      rate statistics.submissionCache < binary64.number (d / 2 : ℚ)))
    (hmin : binary64.round minDiff < d) (hlt : d < 2 ^ 31)
    (hrate : rate statistics.submissionCache < ((2 ^ 31 : ℚ) : Difficulty)) :
    ¬ Eased statistics d now := by
  rintro ⟨r, hr, hless⟩
  simp only [Returns, getSuggestedDifficulty_of_rate hfive] at hr
  obtain ⟨t, ht⟩ : ∃ t : ℚ, rate statistics.submissionCache = t :=
    ⟨_, (WithTop.coe_untop _ hrate.ne_top).symm⟩
  have hround := Arithmetic.round_of_number_eq ht
  rw [ht] at hr hlow hrate
  rw [WithTop.coe_lt_coe] at hrate
  by_cases hzero : t = 0
  · obtain ⟨frames, hr⟩ := hr
    have hnull := hr (frames + 1) (by omega)
    split_ifs at hnull
    · simp [nearestPowerOfTwo, hzero] at hnull
    · cases hnull
  · have hnot : ¬ (t : Difficulty) < binary64.number (d / 2 : ℚ) := fun h ↦
      hlow ⟨by rwa [ne_eq, WithTop.coe_eq_zero], h⟩
    by_cases hhigh : binary64.number (d * 2 : ℚ) < (t : Difficulty)
    · simp only [hhigh, true_or, if_true] at hr
      rw [number_of_le (by linarith), WithTop.coe_lt_coe] at hhigh
      have htwice := Format.lt_of_round_lt (represents_of_round hround) hhigh
      obtain ⟨r', hr', hbounds⟩ := exists_returns_lt hround hzero hrate
      obtain rfl := Returns.unique hr hr'
      rcases hbounds with ⟨hbounds, -⟩ | ⟨hsmall, -⟩
      · linarith
      · linarith [le_minDiff]
    · obtain ⟨frames, hr⟩ := hr
      have hnull := hr frames le_rfl
      rw [if_neg (by tauto)] at hnull
      cases hnull

/-- A silent miner is eased when too few shares are cached or when their rate is low; where the
32-bit operators hold the rate, only then. -/
theorem eased_iff_eases (statistics : StratumV1ClientStatistics) (d : ℚ) (now : ℕ)
    (hmin : binary64.round minDiff < d) (hlt : d < 2 ^ 31) (hsilent : Silent statistics now) :
    (Eases statistics.submissionCache d → Eased statistics d now) ∧
    (Eased statistics d now → Eases statistics.submissionCache d ∨
      ((2 ^ 31 : ℚ) : Difficulty) ≤ rate statistics.submissionCache) := by
  by_cases hfew : statistics.submissionCache.length < 5
  · exact ⟨fun _ ↦ eased_of_few hfew hsilent.1 hmin hlt, fun _ ↦ .inl (.inl hfew)⟩
  · constructor
    · rintro (hfew' | ⟨hne, hlow⟩)
      · exact absurd hfew' hfew
      · exact eased_of_low hfew hne hlow hmin hlt
    · intro heased
      by_contra hnot
      rw [not_or, not_le] at hnot
      exact not_eased_of_not_low hfew (fun h ↦ hnot.1 (.inr h)) hmin hlt hnot.2 heased

instance (s : State) : ∀ e, Decidable (Worth s e)
  | .start _ _ => inferInstanceAs (Decidable (_ < _))
  | .resume _ _ => inferInstanceAs (Decidable True)

instance (statistics : StratumV1ClientStatistics) (now : ℕ) : Decidable (Silent statistics now) :=
  inferInstanceAs (Decidable (_ ∧ _))

theorem burst : ∃ s, Reach (ShareAccounting.step miner) Worth (init 0) s ∧
    Silent s.statistics 3604000 ∧ ¬ s.statistics.submissionCache.length < 5 ∧
    ¬ (binary64.number (4096 * 2 : ℚ) < rate s.statistics.submissionCache ∨
      rate s.statistics.submissionCache < binary64.number (4096 / 2 : ℚ)) := by
  obtain ⟨s, hs, hp⟩ := Reach.of_any (ShareAccounting.step miner) Worth (init 0)
    [.start 0 512, .resume 0 0, .start 1000 512, .start 2000 512, .start 3000 512, .start 4000 512]
    (fun s ↦ Silent s.statistics 3604000 ∧ ¬ s.statistics.submissionCache.length < 5 ∧
      ¬ (binary64.number (4096 * 2 : ℚ) < rate s.statistics.submissionCache ∨
        rate s.statistics.submissionCache < binary64.number (4096 / 2 : ℚ)))
    (by decide +kernel) (by decide +kernel)
  exact ⟨s, hs, of_decide_eq_true hp⟩

theorem eased_iff_eases_burst : ∃ s, Reach (ShareAccounting.step miner) Worth (init 0) s ∧
    (Eases s.statistics.submissionCache 4096 → Eased s.statistics 4096 3604000) ∧
    (Eased s.statistics 4096 3604000 → Eases s.statistics.submissionCache 4096 ∨
      ((2 ^ 31 : ℚ) : Difficulty) ≤ rate s.statistics.submissionCache) := by
  obtain ⟨s, hs, hsilent, -⟩ := burst
  exact ⟨s, hs, eased_iff_eases s.statistics 4096 3604000 (by linarith [minDiff_le]) (by norm_num)
    hsilent⟩

/-- A miner raised to 4096 by the burst stays there however long it is silent. -/
theorem not_eased_of_burst : ¬ ∀ (client : ClientEntity) (date : ℕ) (s : State),
    Reach (ShareAccounting.step client) Worth (init date) s → ∀ (d : ℚ) (now : ℕ),
      binary64.round minDiff < d → binary64.round minDiff ≤ d / 6 → d < 2 ^ 31 →
        Silent s.statistics now → Eased s.statistics d now := by
  intro h
  obtain ⟨s, hs, hsilent, hfive, hwithin⟩ := burst
  obtain ⟨r, ⟨frames, hr⟩, -⟩ := h miner 0 s hs 4096 3604000 (by linarith [minDiff_le])
    (by linarith [minDiff_le]) (by norm_num) hsilent
  have hnull : s.statistics.getSuggestedDifficulty frames 4096 3604000 = .ok none := by
    rw [getSuggestedDifficulty_of_rate hfive, if_neg hwithin]
  exact absurd ((hr frames le_rfl).symm.trans hnull) (by simp)

end Silence

section Rest

variable {statistics : StratumV1ClientStatistics} {stack : ℕ} {d d' t : ℚ}

theorem bounds_of_eq (ht : binary64.round t = t) (hmin : binary64.round minDiff ≤ t)
    (hlt : t < 2 ^ 31) (h : nearestPowerOfTwo binary64 stack (t : Difficulty) = .ok (some d')) :
    t ≤ d' * 2 ∧ d' / 2 ≤ t := by
  obtain ⟨k, hk, m, hreaches, hresult⟩ := nearestPowerOfTwo_binary64 ht hmin hlt
  obtain ⟨hlow, hhigh⟩ := hreaches.bounds ht hk
  rw [hresult] at h
  split_ifs at h
  cases h
  constructor
  · linarith
  · linarith

theorem clamped_of_lt (hmin : t < binary64.round minDiff) (hstack : 0 < stack) :
    nearestPowerOfTwo binary64 stack (t : Difficulty) = .ok none ∨
      nearestPowerOfTwo binary64 stack (t : Difficulty) = .ok (some (binary64.round minDiff)) := by
  cases stack with
  | zero => exact absurd hstack (lt_irrefl 0)
  | succ stack =>
    by_cases hzero : t = 0
    · exact .inl (by simp [nearestPowerOfTwo, hzero])
    · exact .inr (nearestPowerOfTwo_of_lt hzero hmin)

theorem getSuggestedDifficulty_again (hfive : ¬ statistics.submissionCache.length < 5)
    (ht : statistics.targetDifficulty = t) (hlt : t < 2 ^ 31) {now stack' : ℕ}
    (h : statistics.getSuggestedDifficulty stack d now = .ok (some d')) (hstack : stack ≤ stack')
    (now' : ℕ) :
    statistics.getSuggestedDifficulty stack' d' now' = .ok none ∨
      statistics.getSuggestedDifficulty stack' d' now' = .ok (some d') := by
  rw [targetDifficulty_eq] at ht
  have hround := Arithmetic.round_of_number_eq ht
  rw [getSuggestedDifficulty_of_rate hfive, ht] at h ⊢
  have hoff : binary64.number (d * 2 : ℚ) < (t : Difficulty) ∨
      (t : Difficulty) < binary64.number (d / 2 : ℚ) := by
    by_contra hwithin
    rw [if_neg hwithin] at h
    cases h
  rw [if_pos hoff] at h
  by_cases hmin : t < binary64.round minDiff
  · -- the clamp does not look at the current difficulty
    have hpos : 0 < stack := by
      by_contra hzero
      obtain rfl : stack = 0 := by omega
      cases h
    have hd' : d' = binary64.round minDiff := by
      rcases clamped_of_lt hmin hpos with hnull | hclamped
      · rw [hnull] at h
        cases h
      · rw [hclamped] at h
        cases h
        rfl
    subst hd'
    split_ifs
    · exact clamped_of_lt hmin (hpos.trans_le hstack)
    · exact .inl rfl
  · -- the result is within the band around the target
    obtain ⟨hlow, hhigh⟩ := bounds_of_eq hround (not_lt.mp hmin) hlt h
    refine .inl (if_neg ?_)
    rw [number_of_le (by linarith), number_of_le (by linarith), WithTop.coe_lt_coe,
      WithTop.coe_lt_coe]
    rintro (habove | hbelow)
    · exact absurd (Format.lt_of_round_lt (represents_of_round hround) habove) (not_lt.mpr hlow)
    · exact absurd (Format.lt_of_lt_round (represents_of_round hround) hbelow) (not_lt.mpr hhigh)

/-- The difficulty vardiff gives from five shares or more at a rate below
`2 ^ 31` is one it keeps, and its timer then leaves the session as it is. -/
theorem settles (statistics : StratumV1ClientStatistics) (stack : ℕ) (d d' : ℚ) (now : ℕ)
    (hfive : 5 ≤ statistics.submissionCache.length)
    (hlt : statistics.targetDifficulty < ((2 ^ 31 : ℚ) : Difficulty))
    (h : statistics.getSuggestedDifficulty stack d now = .ok (some d')) :
    (∀ stack' ≥ stack, ∀ now',
      statistics.getSuggestedDifficulty stack' d' now' = .ok none ∨
        statistics.getSuggestedDifficulty stack' d' now' = .ok (some d')) ∧
    ∀ (cfg : Config) (v : View), stack ≤ cfg.stack → v.session.statistics = some statistics →
      v.session.sessionDifficulty = d' → v.checkDifficulty cfg = v := by
  obtain ⟨t, ht⟩ := WithTop.ne_top_iff_exists.mp hlt.ne_top
  rw [← ht, WithTop.coe_lt_coe] at hlt
  have hagain (stack' : ℕ) (hstack : stack ≤ stack') (now' : ℕ) :=
    getSuggestedDifficulty_again (by omega) ht.symm hlt h hstack now'
  refine ⟨hagain, ?_⟩
  intro cfg v hstack hstatistics hd
  rw [View.checkDifficulty, hstatistics]
  simp only [hd]
  rcases hagain cfg.stack hstack v.now with hnull | hsame
  · rw [hnull]
  · rw [hsame]
    exact if_pos rfl

def rapid : StratumV1ClientStatistics where
  submissionCacheStart := 0
  submissionCache := [⟨0, 64⟩, ⟨1000, 64⟩, ⟨2000, 64⟩, ⟨3000, 64⟩, ⟨4000, 64⟩]

theorem settles_rapid : rapid.getSuggestedDifficulty 1 64 5000 = .ok (some 512) ∧
    (∀ stack' ≥ 1, ∀ now', rapid.getSuggestedDifficulty stack' 512 now' = .ok none ∨
      rapid.getSuggestedDifficulty stack' 512 now' = .ok (some 512)) ∧
    ∀ (cfg : Config) (v : View), 1 ≤ cfg.stack → v.session.statistics = some rapid →
      v.session.sessionDifficulty = 512 → v.checkDifficulty cfg = v :=
  have hfirst : rapid.getSuggestedDifficulty 1 64 5000 = .ok (some 512) := by decide +kernel
  ⟨hfirst, settles rapid 1 64 512 5000 (by decide) (by decide +kernel) hfirst⟩

end Rest

end ElektronPool.Suggestion
