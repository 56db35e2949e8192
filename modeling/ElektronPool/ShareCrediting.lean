import ElektronPool.BlockSubmission
import ElektronPool.ShareAccounting
import ElektronPool.Shares.Passage

namespace ElektronPool.ShareCrediting

open Lib Lib.Runs Model Model.View Model.StratumV1ClientStatistics Work Shares Talk

variable {cfg : Config} {v v' : View} {e : SessionEvent} {share : Share} {a a' : Account}
  {owner : SessionId} {now n : ℕ} {statistics statistics' : StratumV1ClientStatistics}

/-- The totals of a slot, by the shares that were added to them. -/
structure SlotTotals where
  slot : ℕ
  shares : List Share

/-- The calls of `addShares` of a session, with the slot of their time, and the
totals it opened, last first. -/
structure Tally where
  called : List (Share × ℕ) := []
  totals : List SlotTotals := []

namespace Tally

variable (tally : Tally)

def added : List Share := tally.totals.flatMap SlotTotals.shares

def addTo (share : Share) : List SlotTotals → List SlotTotals
  | [] => []
  | current :: past => { current with shares := share :: current.shares } :: past

/-- A call of `addShares`: the first one opens the totals of its slot, one in the
current slot adds to them, one in another slot adds nothing yet. -/
def call (statistics : StratumV1ClientStatistics) (share : Share) (now : ℕ) : Tally where
  called := (share, timeSlotOf now) :: tally.called
  totals :=
    match statistics.currentTimeSlot with
    | none => ⟨timeSlotOf now, [share]⟩ :: tally.totals
    | some currentTimeSlot =>
      if currentTimeSlot = timeSlotOf now then addTo share tally.totals else tally.totals

def move (share : Share) (slot : ℕ) : Tally :=
  { tally with totals := ⟨slot, [share]⟩ :: tally.totals }

end Tally

def resumed (v : View) (e : SessionEvent) : Option Share :=
  match popped v e with
  | some (.write (.accepted share) _) | some (.share share _ _) => some share
  | _ => none

def credits (cfg : Config) (v : View) (e : SessionEvent) : Option Share :=
  (resumed v e).filter fun share ↦ (v.act cfg e).any fun v' ↦
    v.history.count (.credited share) < v'.history.count (.credited share)

def moves (v : View) : SessionEvent → Option (Share × ℕ)
  | .resume i .done =>
    match v.session.tasks[i]? with
    | some (.share share (.addShares (.updatedOld slot _)) _) => some (share, slot)
    | _ => none
  | _ => none

def noteTally (cfg : Config) (tally : Tally) (v : View) (e : SessionEvent) : Tally :=
  match credits cfg v e, v.session.statistics, moves v e with
  | some share, some statistics, _ => tally.call statistics share v.now
  | _, _, some (share, slot) => tally.move share slot
  | _, _, none => tally

def fails (v : View) : SessionEvent → Option ShareWait
  | .resume i .failed =>
    match v.session.tasks[i]? with
    | some (.share _ wait _) => some wait
    | _ => none
  | _ => none

/-- The waits before a share is added whose failure ends its handling or its call of `addShares`. -/
def losesCredit : ShareWait → Bool
  | .addShares (.updatedOld _ _) => true
  | wait => throws wait

/-- No call that an accepted share waits for before it is added fails. -/
def Spares (v : View) (e : SessionEvent) : Prop := ∀ wait ∈ fails v e, losesCredit wait = false

instance (v : View) (e : SessionEvent) : Decidable (Spares v e) :=
  inferInstanceAs (Decidable (∀ _ ∈ _, _))

/-- The totals of a session are those of the shares added to the slot opened last. -/
structure Matches (js : BitcoinJs) (totals : List SlotTotals)
    (statistics : StratumV1ClientStatistics) : Prop where
  slot : statistics.currentTimeSlot = totals.head?.map SlotTotals.slot
  shares : statistics.shares =
    ((totals.head?.elim [] SlotTotals.shares).map (Share.submissionDifficulty · js)).sum
  acceptedCount : statistics.acceptedCount = (totals.head?.elim [] SlotTotals.shares).length

/-- Every acknowledged share of the session that is through was added exactly once,
to the totals of the slot of its call of `addShares`, and none was added twice. -/
structure AddsOnce (js : BitcoinJs) (v : View) (tally : Tally) : Prop where
  totals : ∀ statistics, v.session.statistics = some statistics →
    Matches js tally.totals statistics
  slots : ∀ opened ∈ tally.totals, ∀ share ∈ opened.shares, (share, opened.slot) ∈ tally.called
  atMostOnce : ∀ share, share.session = v.self → tally.added.count share ≤ 1
  once : ∀ share, share.session = v.self → Entry.acknowledged share ∈ v.history →
    (∀ wait rest, Task.share share wait rest ∉ v.session.tasks) → tally.added.count share = 1

section Tallied

def awaits (share : Share) : Task → Bool
  | .share s wait _ => decide (s = share) && decide (stage wait ≤ 6)
  | _ => false

/-- The tally of a session is up to date, but for the share that is `owed`. -/
structure Tallied (js : BitcoinJs) (owner : SessionId) (a : Account) (tally : Tally)
    (owed : Option Share) : Prop where
  totals : ∀ statistics, a.statistics = some statistics → Matches js tally.totals statistics
  unstarted : a.unstarted = true → tally.totals = []
  counted : ∀ share, share.session = owner → a.bookings.count (.acknowledged share) =
    a.tokens.countP (awaits share) + tally.added.count share + if owed = some share then 1 else 0
  moving : ∀ share slot d rest,
    Task.share share (.addShares (.updatedOld slot d)) rest ∈ a.tokens →
      d = share.submissionDifficulty js ∧ (share, slot) ∈ tally.called
  slots : ∀ opened ∈ tally.totals, ∀ share ∈ opened.shares, (share, opened.slot) ∈ tally.called

variable {js : BitcoinJs} {tally : Tally} {owed : Option Share} {task : Task} {wait : ShareWait}
  {rest : List Line}

theorem countP_awaits_push (s : Share) :
    (a.push task).tokens.countP (awaits s) =
      a.tokens.countP (awaits s) + if awaits s task = true then 1 else 0 := by
  rw [Account.push, List.countP_append, List.countP_singleton]

theorem Tallied.push (h : Tallied js owner a tally owed) (htask : ∀ s, awaits s task = false) :
    Tallied js owner (a.push task) tally owed where
  totals := h.totals
  unstarted := h.unstarted
  counted s hs := by
    simp only [countP_awaits_push, htask s, Bool.false_eq_true, if_false, Nat.add_zero]
    exact h.counted s hs
  moving s slot d rest hmem := by
    rcases List.mem_append.mp hmem with hmem | hmem
    · exact h.moving s slot d rest hmem
    · have hawaits := htask s
      rw [← List.mem_singleton.mp hmem] at hawaits
      simp [awaits, stage] at hawaits
  slots := h.slots

theorem Tallied.await (h : Tallied js owner a tally (some share)) (hstage : stage wait ≤ 6)
    (hmoving : ∀ slot d, wait = .addShares (.updatedOld slot d) →
      d = share.submissionDifficulty js ∧ (share, slot) ∈ tally.called) :
    Tallied js owner (a.push (.share share wait rest)) tally none where
  totals := h.totals
  unstarted := h.unstarted
  counted s hs := by
    have hcounted := h.counted s hs
    rw [countP_awaits_push]
    simp only [awaits, hstage, decide_true, Bool.and_true, decide_eq_true_eq, Option.some.injEq,
      reduceCtorEq, if_false] at hcounted ⊢
    change a.bookings.count _ = _
    omega
  moving s slot d rest hmem := by
    rcases List.mem_append.mp hmem with hmem | hmem
    · exact h.moving s slot d rest hmem
    · cases List.mem_singleton.mp hmem
      exact hmoving slot d rfl
  slots := h.slots

theorem Tallied.book (h : Tallied js owner a tally none) (share : Share) :
    Tallied js owner (a.book (.acknowledged share)) tally (some share) where
  totals := h.totals
  unstarted := h.unstarted
  counted s hs := by
    have hcounted := h.counted s hs
    simp only [reduceCtorEq, if_false, Nat.add_zero] at hcounted
    simp only [Account.book, List.count_cons, hcounted, beq_iff_eq, Entry.acknowledged.injEq,
      Option.some.injEq]
  moving := h.moving
  slots := h.slots

theorem Tallied.book_of_ne (h : Tallied js owner a tally owed) {entry : Entry}
    (hentry : ∀ s, entry ≠ .acknowledged s) : Tallied js owner (a.book entry) tally owed where
  totals := h.totals
  unstarted := h.unstarted
  counted s hs := by
    simp only [Account.book, List.count_cons, beq_iff_eq, hentry s, if_false, Nat.add_zero]
    exact h.counted s hs
  moving := h.moving
  slots := h.slots

theorem Tallied.keep (h : Tallied js owner a tally owed)
    (hmatches : Matches js tally.totals statistics) :
    Tallied js owner (a.keep statistics) tally owed where
  totals _ hstatistics := Option.some.inj hstatistics ▸ hmatches
  unstarted := h.unstarted
  counted := h.counted
  moving := h.moving
  slots := h.slots

theorem Tallied.of_tokens (h : Tallied js owner a tally owed) {tokens : List Task}
    {owed' : Option Share} (htokens : tokens ⊆ a.tokens)
    (hcount : ∀ s, (a.tokens.countP (awaits s) + if owed = some s then 1 else 0) =
      tokens.countP (awaits s) + if owed' = some s then 1 else 0) :
    Tallied js owner { a with tokens } tally owed' where
  totals := h.totals
  unstarted := h.unstarted
  counted s hs := by
    have hcounted := h.counted s hs
    have hsame := hcount s
    change a.bookings.count _ = tokens.countP _ + _ + _
    omega
  moving s slot d rest hmem := h.moving s slot d rest (htokens hmem)
  slots := h.slots

theorem isToken_of_awaits {s : Share} (h : awaits s task = true) : isToken task = true := by
  rw [awaits.eq_def] at h
  split at h
  · rfl
  · cases h

theorem countP_tokens (v : View) (s : Share) :
    (account v).tokens.countP (awaits s) = v.session.tasks.countP (awaits s) := by
  rw [account, List.countP_filter]
  apply List.countP_congr
  intro task _
  simp only [Bool.and_eq_true]
  exact and_iff_left_of_imp isToken_of_awaits

def owes (v : View) (e : SessionEvent) : Option Share :=
  match popped v e with
  | some (.share share wait _) => if stage wait ≤ 6 then some share else none
  | _ => none

theorem Tallied.resume (h : Tallied js owner (account v) tally none) (e : SessionEvent) :
    Tallied js owner (account (pop v e)) tally (owes v e) := by
  have hsubset := List.filter_subset isToken (pop_session_tasks v e)
  rw [account_pop]
  apply h.of_tokens hsubset
  intro s
  have hpop := countP_tokens (pop v e) s
  rw [account_pop] at hpop
  rw [hpop, countP_tokens, if_neg (by simp), Nat.add_zero]
  cases hpopped : popped v e with
  | none =>
    have hsame : (pop v e).session.tasks = v.session.tasks := by
      cases e with
      | resume i outcome => exact List.eraseIdx_of_length_le (List.getElem?_eq_none_iff.mp hpopped)
      | _ => rfl
    rw [hsame, owes, hpopped]
    rfl
  | some task =>
    rw [countP_pop hpopped]
    congr 1
    rw [owes, hpopped]
    cases task with
    | share share wait rest => by_cases hstage : stage wait ≤ 6 <;> simp [awaits, hstage]
    | _ => simp [awaits]

end Tallied

section Calls

variable {js : BitcoinJs} {tally : Tally} {entity : ClientEntity} {d : Difficulty} {slot : ℕ}
  {totals : List SlotTotals}

theorem Matches.congr (h : Matches js totals statistics)
    (hslot : statistics'.currentTimeSlot = statistics.currentTimeSlot)
    (hshares : statistics'.shares = statistics.shares)
    (hcount : statistics'.acceptedCount = statistics.acceptedCount) :
    Matches js totals statistics' :=
  ⟨hslot.trans h.slot, hshares.trans h.shares, hcount.trans h.acceptedCount⟩

theorem Matches.opened (hslot : statistics.currentTimeSlot = some slot)
    (hshares : statistics.shares = share.submissionDifficulty js)
    (hcount : statistics.acceptedCount = 1) :
    Matches js (⟨slot, [share]⟩ :: totals) statistics where
  slot := hslot
  shares := by
    rw [hshares]
    exact (List.sum_singleton).symm
  acceptedCount := hcount

theorem Matches.addTo (h : Matches js totals statistics)
    (hcurrent : statistics.currentTimeSlot = some slot)
    (hslot : statistics'.currentTimeSlot = some slot)
    (hshares : statistics'.shares = statistics.shares + share.submissionDifficulty js)
    (hcount : statistics'.acceptedCount = statistics.acceptedCount + 1) :
    Matches js (Tally.addTo share totals) statistics' := by
  have hhead := h.slot
  rw [hcurrent] at hhead
  cases totals with
  | nil => cases hhead
  | cons current past =>
    refine ⟨hslot.trans hhead, ?_, ?_⟩
    · rw [hshares, h.shares, add_comm]
      exact List.sum_cons.symm
    · rw [hcount, h.acceptedCount]
      rfl

theorem Tallied.add {tally' : Tally} (h : Tallied js owner a tally (some share))
    (hstarted : a.unstarted = false) (hcalled : tally.called ⊆ tally'.called)
    (hadded : ∀ s, tally'.added.count s = tally.added.count s + if share = s then 1 else 0)
    (hmatches : Matches js tally'.totals statistics')
    (hslots : ∀ opened ∈ tally'.totals, ∀ s ∈ opened.shares, (s, opened.slot) ∈ tally'.called) :
    Tallied js owner (a.keep statistics') tally' none where
  totals statistics hstatistics := Option.some.inj hstatistics ▸ hmatches
  unstarted hunstarted := by
    rw [show a.unstarted = true from hunstarted] at hstarted
    cases hstarted
  counted s hs := by
    have hcounted := h.counted s hs
    have hcount := hadded s
    simp only [Option.some.injEq, reduceCtorEq, if_false, Nat.add_zero] at hcounted ⊢
    change a.bookings.count _ = a.tokens.countP _ + _
    omega
  moving s slot d rest hmem :=
    let ⟨hd, hmem⟩ := h.moving s slot d rest hmem
    ⟨hd, hcalled hmem⟩
  slots := hslots

theorem count_opened (totals : List SlotTotals) (share s : Share) (slot : ℕ) :
    ((⟨slot, [share]⟩ :: totals).flatMap SlotTotals.shares).count s =
      (totals.flatMap SlotTotals.shares).count s + if share = s then 1 else 0 := by
  simp only [List.flatMap_cons, List.singleton_append, List.count_cons, beq_iff_eq]

theorem count_addTo (hne : totals ≠ []) (share s : Share) :
    ((Tally.addTo share totals).flatMap SlotTotals.shares).count s =
      (totals.flatMap SlotTotals.shares).count s + if share = s then 1 else 0 := by
  cases totals with
  | nil => exact absurd rfl hne
  | cons current past =>
    simp only [Tally.addTo, List.flatMap_cons, List.cons_append, List.count_cons, beq_iff_eq]

theorem Tallied.slots_opened (h : Tallied js owner a tally (some share))
    {called : List (Share × ℕ)} (hcalled : tally.called ⊆ called) (hshare : (share, slot) ∈ called) :
    ∀ opened ∈ (⟨slot, [share]⟩ : SlotTotals) :: tally.totals, ∀ s ∈ opened.shares,
      (s, opened.slot) ∈ called := by
  intro opened hopened s hs
  rcases List.mem_cons.mp hopened with rfl | hopened
  · rw [List.mem_singleton.mp hs]
    exact hshare
  · exact hcalled (h.slots opened hopened s hs)

theorem Tallied.slots_addTo (h : Tallied js owner a tally (some share))
    (hslot : tally.totals.head?.map SlotTotals.slot = some slot) {called : List (Share × ℕ)}
    (hcalled : tally.called ⊆ called) (hshare : (share, slot) ∈ called) :
    ∀ opened ∈ Tally.addTo share tally.totals, ∀ s ∈ opened.shares,
      (s, opened.slot) ∈ called := by
  intro opened hopened s hs
  have hslots := h.slots
  generalize tally.totals = totals at hslot hopened hslots
  cases totals with
  | nil => cases hopened
  | cons current past =>
    rcases List.mem_cons.mp hopened with rfl | hopened
    · rcases List.mem_cons.mp hs with rfl | hs
      · exact Option.some.inj hslot ▸ hshare
      · exact hcalled (hslots current List.mem_cons_self s hs)
    · exact hcalled (hslots opened (List.mem_cons_of_mem _ hopened) s hs)

theorem Tallied.call_first (h : Tallied js owner a tally (some share))
    (hstarted : a.unstarted = false) (hmatches : Matches js tally.totals statistics)
    (hcurrent : statistics.currentTimeSlot = none)
    (hslot : statistics'.currentTimeSlot = some (timeSlotOf now))
    (hshares : statistics'.shares = statistics.shares + share.submissionDifficulty js)
    (hcount : statistics'.acceptedCount = statistics.acceptedCount + 1) :
    Tallied js owner (a.keep statistics') (tally.call statistics share now) none := by
  have hnone : tally.totals = [] := by
    have hhead := hmatches.slot
    rw [hcurrent] at hhead
    cases htotals : tally.totals with
    | nil => rfl
    | cons current past => simp [htotals] at hhead
  have htotals : (tally.call statistics share now).totals =
      ⟨timeSlotOf now, [share]⟩ :: tally.totals := by
    simp only [Tally.call, hcurrent]
  have hzero := hmatches.shares
  have hempty := hmatches.acceptedCount
  rw [hnone] at hzero hempty
  refine h.add hstarted (List.subset_cons_self _ _) (fun s ↦ ?_) ?_ ?_
  · rw [Tally.added, htotals]
    exact count_opened tally.totals share s _
  · rw [htotals]
    refine .opened hslot ?_ ?_
    · rw [hshares, hzero]
      exact zero_add _
    · rw [hcount, hempty]
      rfl
  · rw [htotals]
    exact h.slots_opened (List.subset_cons_self _ _) List.mem_cons_self

theorem Tallied.call_same (h : Tallied js owner a tally (some share))
    (hstarted : a.unstarted = false) (hmatches : Matches js tally.totals statistics)
    (hcurrent : statistics.currentTimeSlot = some (timeSlotOf now))
    (hslot : statistics'.currentTimeSlot = some (timeSlotOf now))
    (hshares : statistics'.shares = statistics.shares + share.submissionDifficulty js)
    (hcount : statistics'.acceptedCount = statistics.acceptedCount + 1) :
    Tallied js owner (a.keep statistics') (tally.call statistics share now) none := by
  have htotals : (tally.call statistics share now).totals = Tally.addTo share tally.totals := by
    simp only [Tally.call, hcurrent, if_true]
  have hhead := hmatches.slot.symm.trans hcurrent
  refine h.add hstarted (List.subset_cons_self _ _) (fun s ↦ ?_) ?_ ?_
  · rw [Tally.added, htotals]
    refine count_addTo (fun hnil ↦ ?_) share s
    rw [hnil] at hhead
    cases hhead
  · rw [htotals]
    exact hmatches.addTo hcurrent hslot hshares hcount
  · rw [htotals]
    exact h.slots_addTo hhead (List.subset_cons_self _ _) List.mem_cons_self

theorem Tallied.call_transition (h : Tallied js owner a tally (some share))
    (hmatches : Matches js tally.totals statistics)
    (hcurrent : statistics.currentTimeSlot = some slot) (hne : slot ≠ timeSlotOf now)
    (hslot : statistics'.currentTimeSlot = statistics.currentTimeSlot)
    (hshares : statistics'.shares = statistics.shares)
    (hcount : statistics'.acceptedCount = statistics.acceptedCount) :
    Tallied js owner (a.keep statistics') (tally.call statistics share now) (some share) := by
  have hcalled : tally.called ⊆ (tally.call statistics share now).called :=
    List.subset_cons_self _ _
  have htotals : (tally.call statistics share now).totals = tally.totals := by
    simp only [Tally.call, hcurrent, if_neg hne]
  have hkept := h.keep (hmatches.congr hslot hshares hcount)
  refine ⟨?_, ?_, ?_, fun s slot d rest hmem ↦ ?_, ?_⟩
  · rw [htotals]
    exact hkept.totals
  · rw [htotals]
    exact hkept.unstarted
  · simp only [Tally.added, htotals]
    exact hkept.counted
  · obtain ⟨hd, hmem⟩ := hkept.moving s slot d rest hmem
    exact ⟨hd, hcalled hmem⟩
  · rw [htotals]
    exact fun opened hopened s hs ↦ hcalled (h.slots opened hopened s hs)

theorem Tallied.call {step : Option (StatisticsCall × AddShares)}
    (h : Tallied js owner a tally (some share)) (hstarted : a.unstarted = false)
    (hstatistics : a.statistics = some statistics)
    (hadds : statistics.addShares entity now (share.submissionDifficulty js) =
      (statistics', step)) :
    Tallied js owner ((a.book (.credited share)).keep statistics') (tally.call statistics share now)
        none ∧ (∀ call wait, step = some (call, wait) → 6 < stage (.addShares wait)) ∨
      Tallied js owner ((a.book (.credited share)).keep statistics') (tally.call statistics share now)
        (some share) ∧ ∃ call, step =
          some (call, .updatedOld (timeSlotOf now) (share.submissionDifficulty js)) := by
  have hmatches := h.totals statistics hstatistics
  have hcredited : Tallied js owner (a.book (.credited share)) tally (some share) :=
    h.book_of_ne fun _ h ↦ by cases h
  cases hcurrent : statistics.currentTimeSlot with
  | none =>
    obtain ⟨first, hfirst, hslot, hshares, hcount⟩ :=
      ShareAccounting.addShares_first entity now (share.submissionDifficulty js) hcurrent
    rw [hadds, Prod.mk.injEq] at hfirst
    obtain ⟨rfl, rfl⟩ := hfirst
    exact .inl ⟨hcredited.call_first hstarted hmatches hcurrent hslot hshares hcount,
      fun call wait hstep ↦ by cases hstep; decide⟩
  | some slot =>
    by_cases hsame : slot = timeSlotOf now
    · subst hsame
      obtain ⟨same, hsame, hslot, hshares, hcount⟩ :=
        ShareAccounting.addShares_same entity (share.submissionDifficulty js) hcurrent
      have heq : same = statistics' ∧ ∀ call wait, step = some (call, wait) →
          6 < stage (.addShares wait) := by
        rcases hsame with hsame | hsame <;> rw [hadds, Prod.mk.injEq] at hsame
        · exact ⟨hsame.1.symm, fun call wait hstep ↦ by rw [hsame.2] at hstep; cases hstep⟩
        · refine ⟨hsame.1.symm, ?_⟩
          intro call wait hstep
          rw [hsame.2] at hstep
          cases hstep
          decide
      obtain ⟨rfl, hlate⟩ := heq
      exact .inl ⟨hcredited.call_same hstarted hmatches hcurrent hslot hshares hcount, hlate⟩
    · obtain ⟨old, hold, hslot, hshares, hcount⟩ :=
        ShareAccounting.addShares_transition entity (share.submissionDifficulty js) hcurrent hsame
      rw [hadds, Prod.mk.injEq] at hold
      obtain ⟨rfl, rfl⟩ := hold
      exact .inr ⟨hcredited.call_transition hmatches hcurrent hsame (hslot.trans hcurrent.symm)
        hshares hcount, _, rfl⟩

theorem Tallied.move {step : Option (StatisticsCall × AddShares)}
    (h : Tallied js owner a tally (some share)) (hstarted : a.unstarted = false)
    (hcalled : (share, slot) ∈ tally.called)
    (hmoves : statistics.resumeAddShares entity now
      (.updatedOld slot (share.submissionDifficulty js)) = (statistics', step)) :
    Tallied js owner (a.keep statistics') (tally.move share slot) none := by
  cases hmoves
  refine h.add hstarted (List.Subset.refl _) (fun s ↦ ?_) (.opened rfl rfl rfl) ?_
  · exact count_opened tally.totals share s slot
  · exact h.slots_opened (List.Subset.refl _) hcalled

end Calls

section Steps

variable {js : BitcoinJs} {tally : Tally}

theorem Tallied.tail (h : Tallied cfg.js owner a tally none) (hn : 6 ≤ n)
    (htail : Tail cfg share n a a') : Tallied cfg.js owner a' tally none := by
  cases htail with
  | through _ _ _ ha => exact ha ▸ h
  | waits wait rest hstage ha =>
    apply ha ▸ h.push
    intro s
    have hlate : ¬ stage wait ≤ 6 := by omega
    simp only [awaits, hlate, decide_false, Bool.and_false]

theorem Tallied.course (h : Tallied cfg.js owner a tally (some share)) (hstarted : a.unstarted = false)
    (hcourse : Course cfg share now n a a') :
    a'.bookings = a.bookings ∧ Tallied cfg.js owner a' tally none ∨
      ∃ statistics, a.statistics = some statistics ∧
        a'.bookings = .credited share :: a.bookings ∧
        Tallied cfg.js owner a' (tally.call statistics share now) none := by
  cases hcourse with
  | waits wait rest _ hunpaid ha =>
    refine .inl ⟨by rw [ha, Account.push], ha ▸ h.await (by omega) fun slot d hwait ↦ ?_⟩
    subst hwait
    exact absurd hunpaid (by simp [stage])
  | queued partialClient rest _ _ ha =>
    refine .inl ⟨by rw [ha, Account.push, Account.push], ?_⟩
    have hpending : Tallied cfg.js owner { a with creatingEntity := some .pending } tally
        (some share) := ⟨h.totals, h.unstarted, h.counted, h.moving, h.slots⟩
    have hqueued := @Tallied.push _ _ _ _ _ (.insertClient partialClient) hpending fun _ ↦ rfl
    exact ha ▸ hqueued.await (by decide) fun _ _ hwait ↦ by cases hwait
  | suspended entity statistics statistics' call wait rest _ hstatistics hadds ha =>
    refine .inr ⟨statistics, hstatistics, by rw [ha, Account.push]; rfl, ?_⟩
    rcases h.call hstarted hstatistics hadds with ⟨hadded, hlate⟩ | ⟨howed, call', hstep⟩
    · apply ha ▸ hadded.push
      intro s
      have hlate : ¬ stage (.addShares wait) ≤ 6 := by
        have := hlate call wait rfl
        omega
      simp only [awaits, hlate, decide_false, Bool.and_false]
    · cases hstep
      refine ha ▸ howed.await (by simp [stage]) fun slot d hwait ↦ ?_
      cases hwait
      exact ⟨rfl, List.mem_cons_self⟩
  | credited entity statistics statistics' _ hstatistics hadds htail =>
    refine .inr ⟨statistics, hstatistics, htail.bookings, ?_⟩
    rcases h.call hstarted hstatistics hadds with ⟨hadded, -⟩ | ⟨-, call', hstep⟩
    · exact hadded.tail (by decide) htail
    · cases hstep

theorem credits_eq (hresumed : resumed v e = some share) (hact : v.act cfg e = some v') :
    credits cfg v e =
      if (account v).bookings.count (.credited share) < (account v').bookings.count (.credited share)
      then some share else none := by
  have hcount (w : View) :
      (account w).bookings.count (.credited share) = w.history.count (.credited share) :=
    List.count_filter rfl
  simp only [credits, hresumed, Option.filter_some, hact, Option.any_some, hcount,
    decide_eq_true_eq]

theorem credits_of_none (hresumed : resumed v e = none) : credits cfg v e = none := by
  rw [credits, hresumed]
  rfl

theorem resumed_of_popsNone (h : PopsNone v e) : resumed v e = none := by
  rw [resumed.eq_def]
  split
  case h_1 hpopped => cases h _ hpopped
  case h_2 hpopped => cases h _ hpopped
  case h_3 => rfl

theorem moves_eq_some {slot : ℕ} (h : moves v e = some (share, slot)) :
    ∃ i d rest, e = .resume i .done ∧
      popped v e = some (.share share (.addShares (.updatedOld slot d)) rest) := by
  rw [moves.eq_def] at h
  split at h
  case h_1 i =>
    split at h
    case h_1 htask =>
      cases h
      exact ⟨i, _, _, rfl, htask⟩
    · cases h
  · cases h

theorem noteTally_same (hcredits : credits cfg v e = none) (hmoves : moves v e = none) :
    noteTally cfg tally v e = tally := by
  rw [noteTally, hcredits, hmoves]

theorem moves_of_popped {task : Task} (hpopped : popped v e = some task)
    (htask : ∀ share slot d rest, task ≠ .share share (.addShares (.updatedOld slot d)) rest) :
    moves v e = none := by
  cases hmoves : moves v e with
  | none => rfl
  | some moved =>
    obtain ⟨i, d, rest, -, hmoved⟩ := moves_eq_some hmoves
    exact absurd (Option.some.inj (hpopped.symm.trans hmoved)) (htask _ _ _ _)

theorem moves_of_popsNone (h : PopsNone v e) : moves v e = none := by
  cases hmoves : moves v e with
  | none => rfl
  | some moved =>
    obtain ⟨i, d, rest, -, hmoved⟩ := moves_eq_some hmoves
    cases h _ hmoved

theorem owes_of_popsNone (h : PopsNone v e) : owes v e = none := by
  rw [owes.eq_def]
  split
  case h_1 hpopped => cases h _ hpopped
  case h_2 => rfl

theorem Tallied.congr {owed : Option Share} (h : Tallied js owner a tally owed)
    (hstatistics : a'.statistics = a.statistics) (hunstarted : a'.unstarted = a.unstarted)
    (hbookings : a'.bookings = a.bookings) (htokens : a'.tokens = a.tokens) :
    Tallied js owner a' tally owed where
  totals := hstatistics ▸ h.totals
  unstarted := hunstarted ▸ h.unstarted
  counted := hbookings ▸ htokens ▸ h.counted
  moving := htokens ▸ h.moving
  slots := h.slots

theorem bookings_pop (v : View) (e : SessionEvent) :
    (account (pop v e)).bookings = (account v).bookings := by rw [account_pop]

theorem noteTally_of_bookings (hresumed : resumed v e = some share) (hact : v.act cfg e = some v')
    (hbookings : ∀ s, (account v').bookings.count (.credited s) =
      (account v).bookings.count (.credited s)) (hmoves : moves v e = none) :
    noteTally cfg tally v e = tally := by
  refine noteTally_same ?_ hmoves
  rw [credits_eq hresumed hact, hbookings, if_neg (lt_irrefl _)]

theorem noteTally_call (hresumed : resumed v e = some share) (hact : v.act cfg e = some v')
    (hstatistics : v.session.statistics = some statistics)
    (hbookings : (account v).bookings.count (.credited share) <
      (account v').bookings.count (.credited share)) :
    noteTally cfg tally v e = tally.call statistics share v.now := by
  rw [noteTally, credits_eq hresumed hact, if_pos hbookings, hstatistics]

theorem Tallied.answered {rest : List Line} (h : Tallied cfg.js owner (account v) tally none)
    (hstarted : (account v).unstarted = false)
    (hpopped : popped v e = some (.write (.accepted share) rest))
    (hserialises : ((share.job.copyAndUpdateBlock cfg.js share.jobTemplate share.versionMask
      share.nonce share.timestamp).bind (cfg.js.blockToBuffer false)).isSome = true)
    (hact : v.act cfg e = some v')
    (hanswered : Answered cfg share v.now ((account (pop v e)).book (.acknowledged share))
      (account v')) : Tallied cfg.js owner (account v') (noteTally cfg tally v e) none := by
  have hbooks := bookings_pop v e
  have hresumed : resumed v e = some share := by rw [resumed, hpopped]
  have hmoves := moves_of_popped hpopped fun _ _ _ _ htask ↦ by cases htask
  have hpop := h.resume e
  rw [show owes v e = none by rw [owes, hpopped]] at hpop
  have hbooked := hpop.book share
  have hstarted : (account (pop v e)).unstarted = false := by
    rw [account_pop]
    exact hstarted
  cases hanswered with
  | course _ _ hcourse =>
    rcases hbooked.course hstarted hcourse with
      ⟨hbookings, htallied⟩ | ⟨statistics, hstatistics, hbookings, htallied⟩
    · rw [noteTally_of_bookings hresumed hact (fun s ↦ ?_) hmoves]
      · exact htallied
      · simp only [hbookings, Account.book, hbooks, List.count_cons, beq_iff_eq, reduceCtorEq,
          if_false, Nat.add_zero]
    · have hstatistics : v.session.statistics = some statistics := by
        rw [← hstatistics]
        exact (congrArg Account.statistics (account_pop v e)).symm
      rw [noteTally_call hresumed hact hstatistics ?_]
      · exact htallied
      · simp [hbookings, Account.book, hbooks]
  | block block blockHex rest _ ha =>
    rw [noteTally_of_bookings hresumed hact (fun s ↦ ?_) hmoves]
    · rw [ha]
      exact hbooked.await (by simp [stage]) fun _ _ hwait ↦ by cases hwait
    · simp only [ha, Account.push, Account.book, hbooks, List.count_cons, beq_iff_eq, reduceCtorEq,
        if_false, Nat.add_zero]
  | threw _ hthrew _ =>
    rw [hthrew] at hserialises
    cases hserialises

theorem fails_of_popped {wait : ShareWait} {rest : List Line} {i : ℕ}
    (he : e = .resume i .failed) (hpopped : popped v e = some (.share share wait rest)) :
    fails v e = some wait := by
  subst he
  simp only [popped] at hpopped
  rw [fails, hpopped]

theorem noteTally_continued {wait : ShareWait} {rest : List Line}
    (hpopped : popped v e = some (.share share wait rest)) (hact : v.act cfg e = some v')
    (hbookings : (account v').bookings = (account (pop v e)).bookings)
    (hwait : ∀ slot d, wait ≠ .addShares (.updatedOld slot d)) : noteTally cfg tally v e = tally := by
  have hresumed : resumed v e = some share := by rw [resumed, hpopped]
  refine noteTally_of_bookings hresumed hact (fun s ↦ by rw [hbookings, bookings_pop]) ?_
  apply moves_of_popped hpopped
  intro _ slot d _ htask
  cases htask
  exact hwait slot d rfl

theorem Tallied.resume_early {wait : ShareWait} {rest : List Line}
    (h : Tallied cfg.js owner (account v) tally none)
    (hpopped : popped v e = some (.share share wait rest)) (hstage : stage wait ≤ 6) :
    Tallied cfg.js owner (account (pop v e)) tally (some share) := by
  have hpop := h.resume e
  rw [owes, hpopped] at hpop
  simpa only [if_pos hstage] using hpop

theorem Tallied.resume_late {wait : ShareWait} {rest : List Line}
    (h : Tallied cfg.js owner (account v) tally none)
    (hpopped : popped v e = some (.share share wait rest)) (hstage : 6 < stage wait) :
    Tallied cfg.js owner (account (pop v e)) tally none := by
  have hpop := h.resume e
  rw [owes, hpopped] at hpop
  simpa only [if_neg (Nat.not_le.mpr hstage)] using hpop

theorem Tallied.moved {rest : List Line} {i slot : ℕ} {d : Difficulty} {entity : ClientEntity}
    {step : Option (StatisticsCall × AddShares)}
    (h : Tallied cfg.js owner (account v) tally none)
    (hstarted : (account (pop v e)).unstarted = false) (he : e = .resume i .done)
    (hpopped : popped v e = some (.share share (.addShares (.updatedOld slot d)) rest))
    (hmoves : statistics.resumeAddShares entity v.now (.updatedOld slot d) = (statistics', step)) :
    moves v e = some (share, slot) ∧
      Tallied cfg.js owner ((account (pop v e)).keep statistics') (tally.move share slot) none := by
  have hmem : Task.share share (.addShares (.updatedOld slot d)) rest ∈ (account v).tokens :=
    List.mem_filter.mpr ⟨mem_of_popped hpopped, rfl⟩
  obtain ⟨rfl, hcalled⟩ := h.moving share slot d rest hmem
  refine ⟨?_, (h.resume_early hpopped (by simp [stage])).move hstarted hcalled hmoves⟩
  subst he
  simp only [popped] at hpopped
  rw [moves, hpopped]

theorem Tallied.continued {wait : ShareWait} {rest : List Line} {i : ℕ} {outcome : Outcome}
    (h : Tallied cfg.js owner (account v) tally none) (hstarted : (account v).unstarted = false)
    (hguard : Spares v e) (he : e = .resume i outcome)
    (hpopped : popped v e = some (.share share wait rest)) (hact : v.act cfg e = some v')
    (hgoes : Goes cfg share v.now (account (pop v e)) (account v') wait outcome) :
    Tallied cfg.js owner (account v') (noteTally cfg tally v e) none := by
  have hbooks := bookings_pop v e
  have hresumed : resumed v e = some share := by rw [resumed, hpopped]
  have hstarted : (account (pop v e)).unstarted = false := by
    rw [account_pop]
    exact hstarted
  cases hgoes with
  | threw hthrows ha =>
    have hloses := hguard wait (fails_of_popped he hpopped)
    rw [losesCredit.eq_def] at hloses
    split at hloses
    · cases hloses
    · rw [hthrows] at hloses
      cases hloses
  | course hunpaid hcourse =>
    rcases (h.resume_early hpopped (by omega)).course hstarted hcourse with
      ⟨hbookings, htallied⟩ | ⟨statistics, hstatistics, hbookings, htallied⟩
    · rw [noteTally_continued hpopped hact hbookings
        fun slot d hwait ↦ by rw [hwait] at hunpaid; simp [stage] at hunpaid]
      exact htallied
    · have hstatistics : v.session.statistics = some statistics := by
        rw [← hstatistics]
        exact (congrArg Account.statistics (account_pop v e)).symm
      rw [noteTally_call hresumed hact hstatistics ?_]
      · exact htallied
      · simp [hbookings, hbooks]
  | moved slot d entity statistics statistics' call rest' hstatistics hmoves ha =>
    obtain ⟨hmoved, htallied⟩ := h.moved hstarted he hpopped hmoves
    have hcredits : credits cfg v e = none := by
      rw [credits_eq hresumed hact, ha]
      simp only [Account.push, Account.keep, hbooks, lt_irrefl, if_false]
    rw [noteTally, hcredits, hmoved, ha]
    exact htallied.push fun _ ↦ by simp [awaits, stage]
  | saved statistics hstage hstatistics htail =>
    have hlate := h.resume_late hpopped hstage
    have hmatches := hlate.totals statistics hstatistics
    have hsaved : Matches cfg.js tally.totals { statistics with lastSave := some v.now } :=
      ⟨hmatches.slot, hmatches.shares, hmatches.acceptedCount⟩
    rw [noteTally_continued hpopped hact htail.bookings fun slot d hwait ↦ by
      rw [ShareWait.addShares.injEq] at hwait
      rw [hwait] at hstage
      simp [stage] at hstage]
    exact (hlate.keep hsaved).tail (by decide) htail
  | @unsaved addShares htail =>
    have hloses := hguard _ (fails_of_popped he hpopped)
    have hmoving : ∀ slot d, addShares ≠ .updatedOld slot d := fun slot d hwait ↦ by
      rw [hwait] at hloses
      cases hloses
    have hstage : 6 < stage (.addShares addShares) := by
      cases addShares with
      | updatedOld slot d => exact absurd rfl (hmoving slot d)
      | _ => decide
    rw [noteTally_continued hpopped hact htail.bookings
      fun slot d hwait ↦ hmoving slot d (ShareWait.addShares.inj hwait)]
    exact (h.resume_late hpopped hstage).tail (by decide) htail
  | @beaten date htail =>
    rw [noteTally_continued hpopped hact htail.bookings fun _ _ hwait ↦ by cases hwait]
    have hbeaten : Tallied cfg.js owner ((account (pop v e)).beat date) tally none :=
      (h.resume_late hpopped (by simp [stage])).congr rfl rfl rfl rfl
    exact hbeaten.tail (by decide) htail
  | unbeaten htail =>
    rw [noteTally_continued hpopped hact htail.bookings fun _ _ hwait ↦ by cases hwait]
    exact (h.resume_late hpopped (by simp [stage])).tail (by decide) htail
  | raised id address userAgent rest' ha =>
    have hmoves : moves v e = none := moves_of_popped hpopped fun _ _ _ _ htask ↦ by cases htask
    rw [noteTally_of_bookings hresumed hact (fun s ↦ ?_) hmoves, ha]
    · have hraised : Tallied cfg.js owner
          ((account (pop v e)).raise (share.submissionDifficulty cfg.js)) tally none :=
        (h.resume_late hpopped (by simp [stage])).congr rfl rfl rfl rfl
      exact (hraised.book_of_ne fun _ h ↦ by cases h).push fun _ ↦ by simp [awaits, stage]
    · simp only [ha, Account.push, Account.book, Account.raise, hbooks, List.count_cons, beq_iff_eq,
        reduceCtorEq, if_false, Nat.add_zero]
  | unraised ha =>
    rw [noteTally_continued hpopped hact (by rw [ha]) (fun _ _ hwait ↦ by cases hwait), ha]
    exact h.resume_late hpopped (by simp [stage])
  | closed ha =>
    rw [noteTally_continued hpopped hact (by rw [ha]) (fun _ _ hwait ↦ by cases hwait), ha]
    exact h.resume_late hpopped (by simp [stage])

/-- What is known of a session in every reachable state. -/
structure Sane (cfg : Config) (v : View) : Prop where
  ready : Ready v.session
  enrolled : Enrolled (account v)
  ledger : Ledger cfg v
  serialises : ∀ share, Entry.evaluated share ∈ v.history →
    ((share.job.copyAndUpdateBlock cfg.js share.jobTemplate share.versionMask share.nonce
      share.timestamp).bind (cfg.js.blockToBuffer false)).isSome = true

theorem Sane.evaluated {rest : List Line} (h : Sane cfg v)
    (hpopped : popped v e = some (.write (.accepted share) rest)) :
    Entry.evaluated share ∈ v.history := by
  have hmem := mem_of_popped hpopped
  obtain ⟨howner, -⟩ := h.ledger.passed share rest hmem
  have hcount : 0 < v.session.tasks.countP (replies share) :=
    List.countP_pos_iff.mpr ⟨_, hmem, replies_eq_true.mpr ⟨rest, rfl⟩⟩
  have hanswered := h.ledger.answered share howner
  exact List.count_pos_iff.mp (by omega)

theorem Tallied.step (h : Tallied cfg.js owner (account v) tally none) (hsane : Sane cfg v)
    (hguard : Spares v e) (hact : v.act cfg e = some v') :
    Tallied cfg.js owner (account v') (noteTally cfg tally v e) none := by
  have hbooks := bookings_pop v e
  have hpop := h.resume e
  have hstarted {task : Task} (hpopped : popped v e = some task) (htask : isShare task = true) :
      (account v).unstarted = false :=
    hsane.enrolled.unstarted (hsane.ready _ (mem_of_popped hpopped) htask)
  have hidle (hpopped : PopsNone v e) : Tallied cfg.js owner (account (pop v e)) tally none ∧
      noteTally cfg tally v e = tally := by
    rw [owes_of_popsNone hpopped] at hpop
    exact ⟨hpop, noteTally_same (credits_of_none (resumed_of_popsNone hpopped))
      (moves_of_popsNone hpopped)⟩
  have hentity {partialClient : ClientEntity}
      (hpopped : popped v e = some (.insertClient partialClient)) :
      Tallied cfg.js owner (account (pop v e)) tally none ∧ noteTally cfg tally v e = tally := by
    rw [show owes v e = none by rw [owes, hpopped]] at hpop
    exact ⟨hpop, noteTally_same (credits_of_none (by rw [resumed, hpopped]))
      (moves_of_popped hpopped fun _ _ _ _ htask ↦ by cases htask)⟩
  cases passage_of_act hsane.ready hsane.enrolled hact with
  | same hpopped ha =>
    obtain ⟨hpop, hnote⟩ := hidle hpopped
    rw [hnote, ha]
    exact hpop
  | subscribed message stray hpopped _ ha =>
    obtain ⟨hpop, hnote⟩ := hidle hpopped
    rw [hnote, ha]
    refine ⟨fun statistics hstatistics ↦ ?_, fun hunstarted ↦ ?_, hpop.counted, hpop.moving,
      hpop.slots⟩
    · simp only [Account.enrol] at hstatistics
      split at hstatistics
      case isTrue hunstarted =>
        cases hstatistics
        rw [hpop.unstarted hunstarted]
        exact ⟨rfl, rfl, rfl⟩
      · exact hpop.totals statistics hstatistics
    · cases hunstarted
  | authorized message stray hpopped _ ha =>
    obtain ⟨hpop, hnote⟩ := hidle hpopped
    rw [hnote, ha]
    exact hpop.congr rfl rfl rfl rfl
  | accepted share rest hpopped ha =>
    obtain ⟨hpop, hnote⟩ := hidle hpopped
    rw [hnote, ha]
    exact hpop.push fun _ ↦ rfl
  | unanswered share rest hpopped _ ha =>
    rw [show owes v e = none by rw [owes, hpopped]] at hpop
    have hmoves := moves_of_popped hpopped fun _ _ _ _ htask ↦ by cases htask
    have hresumed : resumed v e = some share := by rw [resumed, hpopped]
    rw [noteTally_of_bookings hresumed hact (fun s ↦ by rw [ha, hbooks]) hmoves, ha]
    exact hpop
  | answered share rest hpopped _ hanswered =>
    exact h.answered (hstarted hpopped rfl) hpopped (hsane.serialises share (hsane.evaluated hpopped))
      hact hanswered
  | continued share wait rest i outcome he hpopped hgoes =>
    exact h.continued (hstarted hpopped rfl) hguard he hpopped hact hgoes
  | inserted partialClient i updatedAt _ hpopped ha =>
    obtain ⟨hpop, hnote⟩ := hentity hpopped
    rw [hnote, ha]
    exact hpop.congr rfl rfl rfl rfl
  | rejected partialClient i _ hpopped ha =>
    obtain ⟨hpop, hnote⟩ := hentity hpopped
    rw [hnote, ha]
    exact hpop.congr rfl rfl rfl rfl

end Steps

section Runs

variable {tally : Tally} {pool : Pool}

theorem sane_of_reachable (hjs : cfg.js.Serialises) (hblocks : cfg.js.SerialisesBlocks)
    (h : Reachable (Pool.step cfg) (Pool.start now) pool) (id : SessionId) :
    Sane cfg (pool.view id) where
  ready := ready_of_reachable h id
  enrolled := enrolled_of_reachable h id
  ledger := ledger_of_reachable h id
  serialises share hmem := by
    obtain ⟨block, blockHex, hcopy, hhex⟩ := BlockSubmission.exists_blockHex_of_grounds hjs hblocks
      (sound_of_reachable h id) (grounds_of_reachable h hmem)
    rw [hcopy, Option.bind_some, hhex]
    rfl

theorem Tallied.other {session : Session} (hsane : Sane cfg v) (hne : owner ≠ v.self)
    (h : Tallied cfg.js owner (account (View.of v owner session)) tally none)
    (hact : v.act cfg e = some v') :
    Tallied cfg.js owner (account (View.of v' owner session)) tally none where
  totals := h.totals
  unstarted := h.unstarted
  counted share hs := by
    have hcount (w : View) : (account (View.of w owner session)).bookings.count (.acknowledged share) =
        w.history.count (.acknowledged share) := List.count_filter rfl
    have hsame := hsane.ledger.count_of_step (deal_of_act hact).entered (.inr (.inl rfl))
      (hs ▸ hne : share.session ≠ v.self)
    have hcounted := h.counted share hs
    rw [hcount] at hcounted ⊢
    exact hsame.trans hcounted
  moving := h.moving
  slots := h.slots

theorem tallied_of_noted {pool : Pool} {id : SessionId} (hjs : cfg.js.Serialises)
    (hblocks : cfg.js.SerialisesBlocks)
    (h : Noted cfg Spares id (noteTally cfg) (Pool.start now, {}) (pool, tally)) :
    Tallied cfg.js id (account (pool.view id)) tally none := by
  refine Noted.keeps_view (P := fun v tally ↦ Tallied cfg.js id (account v) tally none)
    (J := Sane cfg) (fun _ hpool ↦ sane_of_reachable hjs hblocks hpool) ?_ ?_ ?_ ?_ h
  · constructor
    · intro _ hstatistics
      cases hstatistics
    · intro _
      rfl
    · intro _ _
      rfl
    · intro _ _ _ _ hmem
      cases hmem
    · intro _ hmem
      cases hmem
  · intro _ _ _ htallied
    exact htallied
  · intro v tally e v' _ hsane htallied hguard hact
    exact htallied.step hsane hguard hact
  · intro v tally e v' session hne hsane htallied hact
    exact Tallied.other hsane hne htallied hact

end Runs

section Sample

open Reference

def transition (outcome : Outcome) : List Event :=
  easyOpening 0 alice ++ working 0 (answer 101 (hashOf 7)) ++
    crediting 0 ⟨"3", "1", "", "6553f105", "00000003", "00000000"⟩ ++
    .tick 600000 :: submitting 0 ⟨"3", "1", "", "6553f105", "00000005", "00000000"⟩ ++
    resumes 0 1 ++ [.session 0 (.resume 0 outcome)]

def isAcknowledged : Entry → Bool
  | .acknowledged _ => true
  | _ => false

end Sample

end ElektronPool.ShareCrediting
