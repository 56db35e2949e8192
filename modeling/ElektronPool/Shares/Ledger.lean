import ElektronPool.Shares.Deal
import ElektronPool.Work.Provenance

namespace ElektronPool.Shares

open Lib Lib.Runs Lib.JavaScript Model Model.View Work

variable {cfg : Config} {v v' w : View} {e : SessionEvent} {share : Share} {entries : List Entry}
  {added : List Task} {entry : Entry} {task : Task}

/-- The records and the tasks that are added, whatever else changes. -/
structure Booked (v v' : View) (entries : List Entry) (added : List Task) : Prop where
  records : v'.history.filter isRecord = entries ++ v.history.filter isRecord
  tokens : v'.session.tasks.filter isToken = v.session.tasks.filter isToken ++ added
  grows : v.history <:+ v'.history
  self : v'.self = v.self

/-- What an event enters about shares. -/
inductive Entered (cfg : Config) (v : View) (e : SessionEvent) (v' : View) : Prop
  | nothing (h : Booked (pop v e) v' [] [])
  | evaluated (submission : MiningSubmitMessage) (share : Share) (added : List Task)
      (he : submits v e = some submission) (hshare : Evaluates cfg v submission share)
      (h : Booked (pop v e) v' [.evaluated share] added)
      (hadded : added = [] ∨ share.Meets cfg.js ∧ ∃ rest, added = [.write (.accepted share) rest])
  | answered (share : Share) (rest : List Line) (entries : List Entry) (added : List Task)
      (hpopped : popped v e = some (.write (.accepted share) rest))
      (hreplied : replied v e = some share)
      (h : Booked (pop v e) v' (entries ++ [.acknowledged share]) added)
      (hanswers : Answers cfg v share entries added)
  | continued (share : Share) (wait : ShareWait) (rest : List Line) (entries : List Entry)
      (added : List Task) (hpopped : popped v e = some (.share share wait rest))
      (h : Booked (pop v e) v' entries added)
      (hfollows : Follows v share ([.share share wait rest].filter isUnpaid).length entries added)

theorem Adds.booked (h : Adds w v' entries added) (hsame : Booked v w [] []) :
    Booked v v' entries added where
  records := by rw [h.records, hsame.records, List.nil_append]
  tokens := by rw [h.tokens, hsame.tokens, List.append_nil]
  grows := hsame.grows.trans h.grows
  self := h.self.trans hsame.self

theorem Deal.entered (h : Deal cfg v e v') : Entered cfg v e v' := by
  have hsame : Booked (pop v e) (pop v e) [] [] :=
    ⟨rfl, (List.append_nil _).symm, List.suffix_refl _, rfl⟩
  cases h with
  | calm h => exact .nothing (h.booked hsame)
  | authorized _ _ h => exact .nothing (h.booked ⟨rfl, hsame.tokens, hsame.grows, rfl⟩)
  | cleared h => exact .nothing (h.booked ⟨rfl, hsame.tokens, hsame.grows, rfl⟩)
  | refused _ _ h => exact .nothing (h.booked ⟨rfl, hsame.tokens, hsame.grows, rfl⟩)
  | evaluated submission share added he hshare h hadded =>
    exact .evaluated submission share added he hshare
      (h.booked ⟨rfl, hsame.tokens, hsame.grows, rfl⟩) hadded
  | answered share rest entries added hpopped hreplied h hanswers =>
    exact .answered share rest entries added hpopped hreplied (h.booked hsame) hanswers
  | continued share wait rest entries added hpopped h hfollows =>
    exact .continued share wait rest entries added hpopped (h.booked hsame) hfollows
  | inserted _ _ _ h => exact .nothing (h.booked ⟨rfl, hsame.tokens, hsame.grows, rfl⟩)

section Booked

theorem Booked.mem_iff (h : Booked v v' entries added) (hentry : isRecord entry = true) :
    entry ∈ v'.history ↔ entry ∈ entries ∨ entry ∈ v.history := by
  have hmem : entry ∈ v'.history.filter isRecord ↔
      entry ∈ entries ++ v.history.filter isRecord := by rw [h.records]
  simpa only [List.mem_filter, hentry, and_true, List.mem_append] using hmem

theorem Booked.count (h : Booked v v' entries added) (hentry : isRecord entry = true) :
    v'.history.count entry = entries.count entry + v.history.count entry := by
  rw [← List.count_filter hentry, h.records, List.count_append, List.count_filter hentry]

theorem Booked.mem_tasks (h : Booked v v' entries added) (htask : isToken task = true) :
    task ∈ v'.session.tasks ↔ task ∈ v.session.tasks ∨ task ∈ added := by
  have hmem : task ∈ v'.session.tasks.filter isToken ↔
      task ∈ v.session.tasks.filter isToken ++ added := by rw [h.tokens]
  rw [List.mem_append] at hmem
  simpa only [List.mem_filter, htask, and_true] using hmem

theorem Booked.countP {p : Task → Bool} (h : Booked v v' entries added)
    (hp : ∀ task, p task = true → isToken task = true) :
    v'.session.tasks.countP p = v.session.tasks.countP p + added.countP p := by
  have hfilter (tasks : List Task) : (tasks.filter isToken).countP p = tasks.countP p := by
    rw [List.countP_filter]
    exact List.countP_congr fun task _ ↦ by simpa using hp task
  rw [← hfilter, h.tokens, List.countP_append, hfilter]

theorem countP_pop_le (p : Task → Bool) :
    (pop v e).session.tasks.countP p ≤ v.session.tasks.countP p := by
  cases e with
  | resume i outcome => exact (List.eraseIdx_sublist _ _).countP_le
  | _ => exact le_rfl

theorem countP_pop (h : popped v e = some task) (p : Task → Bool) :
    v.session.tasks.countP p =
      (pop v e).session.tasks.countP p + if p task = true then 1 else 0 := by
  cases e with
  | resume i outcome =>
    obtain ⟨hi, rfl⟩ := List.getElem?_eq_some_iff.mp h
    have hperm := (List.getElem_cons_eraseIdx_perm hi).countP_eq p
    rw [List.countP_cons] at hperm
    exact hperm.symm
  | _ => cases h

end Booked

def replies (share : Share) : Task → Bool
  | .write (.accepted s) _ => decide (s = share)
  | _ => false

theorem replies_eq_true :
    replies share task = true ↔ ∃ rest, task = .write (.accepted share) rest := by
  rw [replies.eq_def]
  split <;> simp_all

def owes (share : Share) : Task → Bool
  | .share s wait rest => decide (s = share) && isUnpaid (.share s wait rest)
  | _ => false

/-- The books of a session: every submission is evaluated once, answered at most
once, and credited at most once, after the answer. -/
structure Ledger (cfg : Config) (v : View) : Prop where
  serial : ∀ share, Entry.evaluated share ∈ v.history → share.serial < v.history.length
  evaluated : ∀ share, v.history.count (.evaluated share) ≤ 1
  passed : ∀ share rest, Task.write (.accepted share) rest ∈ v.session.tasks →
    share.session = v.self ∧ share.Meets cfg.js
  followed : ∀ share wait rest, Task.share share wait rest ∈ v.session.tasks →
    share.session = v.self ∧ Entry.acknowledged share ∈ v.history
  acknowledged : ∀ share, Entry.acknowledged share ∈ v.history → share.Meets cfg.js
  called : ∀ id share call, Entry.call id (some share) call ∈ v.history →
    id = share.session ∧ Entry.acknowledged share ∈ v.history
  answered : ∀ share, share.session = v.self →
    v.session.tasks.countP (replies share) + v.history.count (.acknowledged share) ≤
      v.history.count (.evaluated share)
  credited : ∀ share, share.session = v.self →
    v.session.tasks.countP (owes share) + v.history.count (.credited share) ≤
      v.history.count (.acknowledged share)

section Handles

variable {pending : ℕ}

/-- Entries and tasks on behalf of one share, with at most `pending` credits to come. -/
structure Handles (v : View) (share : Share) (pending : ℕ) (entries : List Entry)
    (added : List Task) : Prop where
  noReply : ∀ s rest, Task.write (.accepted s) rest ∉ added
  tokens : ∀ s wait rest, Task.share s wait rest ∈ added → s = share
  evaluated : ∀ s, Entry.evaluated s ∉ entries
  acknowledged : ∀ s, Entry.acknowledged s ∉ entries
  calls : ∀ id s call, Entry.call id (some s) call ∈ entries → id = v.self ∧ s = share
  credits : ∀ s, Entry.credited s ∈ entries → s = share
  once : entries.count (.credited share) + (added.filter isUnpaid).length ≤ pending

theorem Follows.handles (h : Follows v share pending entries added) :
    Handles v share pending entries added where
  noReply s rest hmem := by
    obtain ⟨wait, rest, htask⟩ | ⟨partialClient, htask, -⟩ := h.tokens _ hmem <;> cases htask
  tokens s wait rest hmem := by
    obtain ⟨wait, rest, htask⟩ | ⟨partialClient, htask, -⟩ := h.tokens _ hmem <;> cases htask
    rfl
  evaluated s hmem := by
    obtain hentry | ⟨call, hentry, -⟩ := h.records _ hmem <;> cases hentry
  acknowledged s hmem := by
    obtain hentry | ⟨call, hentry, -⟩ := h.records _ hmem <;> cases hentry
  calls id s call hmem := by
    obtain hentry | ⟨call, hentry, -⟩ := h.records _ hmem <;> cases hentry
    exact ⟨rfl, rfl⟩
  credits s hmem := by
    obtain hentry | ⟨call, hentry, -⟩ := h.records _ hmem <;> cases hentry
    rfl
  once := h.once

theorem Answers.handles (h : Answers cfg v share entries added) :
    Handles v share 1 entries added := by
  cases h with
  | share _ h => exact h.handles
  | block block blockHex rest _ _ _ hentries hadded =>
    subst hentries hadded
    exact
      { noReply := by simp
        tokens := fun s wait rest hmem ↦ by
          cases List.mem_singleton.mp hmem
          rfl
        evaluated := by simp
        acknowledged := by simp
        calls := fun id s call hmem ↦ by
          cases List.mem_singleton.mp hmem
          exact ⟨rfl, rfl⟩
        credits := by simp
        once := le_rfl }
  | threw _ _ hentries hadded =>
    subst hentries hadded
    constructor <;> simp

theorem isToken_of_replies (h : replies share task = true) : isToken task = true := by
  rw [replies.eq_def] at h
  split at h
  · rfl
  · cases h

theorem isToken_of_owes (h : owes share task = true) : isToken task = true := by
  rw [owes.eq_def] at h
  split at h
  · rfl
  · cases h

theorem Booked.countP_replies (h : Booked v v' entries added) (s : Share) :
    v'.session.tasks.countP (replies s) =
      v.session.tasks.countP (replies s) + added.countP (replies s) :=
  h.countP fun _ ↦ isToken_of_replies

theorem Booked.countP_owes (h : Booked v v' entries added) (s : Share) :
    v'.session.tasks.countP (owes s) = v.session.tasks.countP (owes s) + added.countP (owes s) :=
  h.countP fun _ ↦ isToken_of_owes

theorem countP_eq_zero_of_forall {p : Task → Bool} (h : ∀ task ∈ added, p task = false) :
    added.countP p = 0 := by
  rw [List.countP_eq_zero]
  exact fun task htask ↦ by simp [h task htask]

theorem Handles.countP_replies (h : Handles v share pending entries added) (s : Share) :
    added.countP (replies s) = 0 := by
  apply countP_eq_zero_of_forall
  intro task htask
  rw [replies.eq_def]
  split
  · exact absurd htask (h.noReply _ _)
  · rfl

theorem Handles.owes_le (h : Handles v share pending entries added) (s : Share) :
    added.countP (owes s) + entries.count (.credited s) ≤ if s = share then pending else 0 := by
  split
  case isTrue heq =>
    subst heq
    have hle : added.countP (owes s) ≤ (added.filter isUnpaid).length := by
      rw [← List.countP_eq_length_filter]
      apply List.countP_mono_left
      intro task _ howes
      rw [owes.eq_def] at howes
      split at howes
      · exact (Bool.and_eq_true_iff.mp howes).2
      · cases howes
    have honce := h.once
    omega
  case isFalse hne =>
    have hcount : entries.count (.credited s) = 0 :=
      List.count_eq_zero.mpr fun hmem ↦ hne (h.credits s hmem)
    have howes : added.countP (owes s) = 0 := by
      apply countP_eq_zero_of_forall
      intro task htask
      rw [owes.eq_def]
      split
      · have hs := h.tokens _ _ _ htask
        simp [hs, Ne.symm hne]
      · rfl
    omega

end Handles

section Step

theorem Booked.of_record (h : Booked w v' entries added) (hpop : Popped v w)
    (hentry : isRecord entry = true) (hnot : entry ∉ entries) :
    entry ∈ v'.history ↔ entry ∈ v.history := by
  rw [h.mem_iff hentry, hpop.history]
  exact or_iff_right hnot

theorem Booked.old_task (h : Booked (pop v e) v' entries added) (htask : isToken task = true)
    (hnot : task ∉ added) (hmem : task ∈ v'.session.tasks) : task ∈ v.session.tasks :=
  mem_of_mem_pop (((h.mem_tasks htask).mp hmem).resolve_right hnot)

theorem Booked.entered_of_new (h : Booked (pop v e) v' entries added)
    (hentry : isRecord entry = true) (hnew : entry ∈ v'.history) (hold : entry ∉ v.history) :
    entry ∈ entries := by
  by_contra hnot
  exact hold ((h.of_record (popped_pop v e) hentry hnot).mp hnew)

theorem Booked.added_of_new (h : Booked (pop v e) v' entries added) (htask : isToken task = true)
    (hnew : task ∈ v'.session.tasks) (hold : task ∉ v.session.tasks) : task ∈ added := by
  by_contra hnot
  exact hold (h.old_task htask hnot hnew)

theorem Booked.length_le (h : Booked (pop v e) v' entries added) :
    v.history.length ≤ v'.history.length :=
  (popped_pop v e).history ▸ h.grows.length_le

theorem Ledger.nothing (h : Ledger cfg v) (hbooked : Booked (pop v e) v' [] []) :
    Ledger cfg v' := by
  have hpop := popped_pop v e
  have hself : v'.self = v.self := hbooked.self.trans hpop.self
  have hmem {entry : Entry} (hentry : isRecord entry = true) :
      entry ∈ v'.history ↔ entry ∈ v.history := hbooked.of_record hpop hentry List.not_mem_nil
  have hcount {entry : Entry} (hentry : isRecord entry = true) :
      v'.history.count entry = v.history.count entry := by
    rw [hbooked.count hentry, List.count_nil, Nat.zero_add, hpop.history]
  constructor
  case serial =>
    intro s hs
    exact (h.serial s ((hmem rfl).mp hs)).trans_le hbooked.length_le
  case evaluated =>
    intro s
    exact (hcount rfl).trans_le (h.evaluated s)
  case passed =>
    intro s rest hs
    rw [hself]
    exact h.passed s rest (hbooked.old_task rfl List.not_mem_nil hs)
  case followed =>
    intro s wait rest hs
    rw [hself, hmem rfl]
    exact h.followed s wait rest (hbooked.old_task rfl List.not_mem_nil hs)
  case acknowledged =>
    intro s hs
    exact h.acknowledged s ((hmem rfl).mp hs)
  case called =>
    intro id s call hs
    rw [hmem rfl]
    exact h.called id s call ((hmem rfl).mp hs)
  case answered =>
    intro s hs
    rw [hcount rfl, hcount rfl, hbooked.countP_replies, List.countP_nil, Nat.add_zero]
    exact (Nat.add_le_add_right (countP_pop_le _) _).trans (h.answered s (hs.trans hself))
  case credited =>
    intro s hs
    rw [hcount rfl, hcount rfl, hbooked.countP_owes, List.countP_nil, Nat.add_zero]
    exact (Nat.add_le_add_right (countP_pop_le _) _).trans (h.credited s (hs.trans hself))

/-- A share that is about to be evaluated is new to the books. -/
theorem Evaluates.not_evaluated {submission : MiningSubmitMessage} (hledger : Ledger cfg v)
    (h : Evaluates cfg v submission share) : Entry.evaluated share ∉ v.history := fun hmem ↦ by
  have hlt := hledger.serial share hmem
  rw [h.serial] at hlt
  omega

theorem Ledger.evaluate {submission : MiningSubmitMessage} (h : Ledger cfg v)
    (hshare : Evaluates cfg v submission share)
    (hbooked : Booked (pop v e) v' [.evaluated share] added)
    (hadded : added = [] ∨ share.Meets cfg.js ∧ ∃ rest, added = [.write (.accepted share) rest]) :
    Ledger cfg v' := by
  have hpop := popped_pop v e
  have hself : v'.self = v.self := hbooked.self.trans hpop.self
  have hmem {entry : Entry} (hentry : isRecord entry = true) (hne : entry ≠ .evaluated share) :
      entry ∈ v'.history ↔ entry ∈ v.history := hbooked.of_record hpop hentry (by simpa using hne)
  have hcount {entry : Entry} (hentry : isRecord entry = true) :
      v'.history.count entry = [Entry.evaluated share].count entry + v.history.count entry := by
    rw [hbooked.count hentry, hpop.history]
  have hlength : v.history.length < v'.history.length := by
    apply lt_of_le_of_ne hbooked.length_le
    intro heq
    have hsame : (pop v e).history = v'.history :=
      hbooked.grows.eq_of_length (by rw [hpop.history, heq])
    have hlen := congrArg List.length hbooked.records
    rw [hsame, List.length_append, List.length_singleton] at hlen
    omega
  have hnew : v.history.count (.evaluated share) = 0 :=
    List.count_eq_zero.mpr (hshare.not_evaluated h)
  constructor
  case serial =>
    intro s hs
    by_cases heq : s = share
    · rw [heq, hshare.serial]
      exact hlength
    · exact (h.serial s ((hmem rfl (by simpa using heq)).mp hs)).trans hlength
  case evaluated =>
    intro s
    rw [hcount rfl]
    by_cases heq : s = share
    · rw [heq, hnew]
      simp
    · have hle := h.evaluated s
      rw [List.count_eq_zero.mpr (by simpa using heq)]
      omega
  case passed =>
    intro s rest hs
    rw [hself]
    rcases (hbooked.mem_tasks rfl).mp hs with hs | hs
    · exact h.passed s rest (mem_of_mem_pop hs)
    · obtain rfl | ⟨hmeets, rest', rfl⟩ := hadded
      · cases hs
      · cases List.mem_singleton.mp hs
        exact ⟨hshare.session, hmeets⟩
  case followed =>
    intro s wait rest hs
    rw [hself, hmem rfl (by simp)]
    refine h.followed s wait rest (hbooked.old_task rfl ?_ hs)
    obtain rfl | ⟨-, rest', rfl⟩ := hadded <;> simp
  case acknowledged =>
    intro s hs
    exact h.acknowledged s ((hmem rfl (by simp)).mp hs)
  case called =>
    intro id s call hs
    rw [hmem rfl (by simp)]
    exact h.called id s call ((hmem rfl (by simp)).mp hs)
  case answered =>
    intro s hs
    have hle := countP_pop_le (v := v) (e := e) (replies s)
    have hold := h.answered s (hs.trans hself)
    rw [hbooked.countP_replies, hcount rfl, hcount rfl]
    have hadd : added.countP (replies s) ≤ [Entry.evaluated share].count (.evaluated s) := by
      obtain rfl | ⟨-, rest', rfl⟩ := hadded
      · simp
      · by_cases heq : share = s
        · exact List.countP_le_length.trans (by simp [heq])
        · simp [replies, heq]
    rw [List.count_eq_zero.mpr (by simp : Entry.acknowledged s ∉ [Entry.evaluated share])]
    omega
  case credited =>
    intro s hs
    have hle := countP_pop_le (v := v) (e := e) (owes s)
    have hold := h.credited s (hs.trans hself)
    rw [hbooked.countP_owes, hcount rfl, hcount rfl]
    have hadd : added.countP (owes s) = 0 := by
      obtain rfl | ⟨-, rest', rfl⟩ := hadded <;> simp [owes]
    rw [List.count_eq_zero.mpr (by simp : Entry.acknowledged s ∉ [Entry.evaluated share]),
      List.count_eq_zero.mpr (by simp : Entry.credited s ∉ [Entry.evaluated share])]
    omega

theorem Ledger.handle {pending : ℕ} {replied : List Entry} (h : Ledger cfg v)
    (hpopped : popped v e = some task) (hbooked : Booked (pop v e) v' (entries ++ replied) added)
    (hhandles : Handles v share pending entries added)
    (hreplied : ∀ entry ∈ replied, entry = .acknowledged share)
    (howner : share.session = v.self) (hmeets : share.Meets cfg.js)
    (hacknowledged : Entry.acknowledged share ∈ v'.history)
    (hanswered : ∀ s, replied.count (.acknowledged s) ≤ if replies s task = true then 1 else 0)
    (hcredited : ∀ s, (if s = share then pending else 0) ≤
      (if owes s task = true then 1 else 0) + replied.count (.acknowledged s)) :
    Ledger cfg v' := by
  have hpop := popped_pop v e
  have hself : v'.self = v.self := hbooked.self.trans hpop.self
  have hgrows {entry : Entry} (hentry : entry ∈ v.history) : entry ∈ v'.history :=
    hbooked.grows.subset (by rwa [hpop.history])
  have hold {entry : Entry} (hentry : isRecord entry = true) (hentries : entry ∉ entries)
      (hne : entry ≠ .acknowledged share) (hmem : entry ∈ v'.history) : entry ∈ v.history := by
    refine (hbooked.of_record hpop hentry fun hnew ↦ ?_).mp hmem
    rcases List.mem_append.mp hnew with hnew | hnew
    · exact hentries hnew
    · exact hne (hreplied _ hnew)
  have hcount {entry : Entry} (hentry : isRecord entry = true) :
      v'.history.count entry = entries.count entry + replied.count entry + v.history.count entry := by
    rw [hbooked.count hentry, List.count_append, hpop.history]
  have hevaluated (s : Share) : v'.history.count (.evaluated s) = v.history.count (.evaluated s) := by
    rw [hcount rfl, List.count_eq_zero.mpr (hhandles.evaluated s),
      List.count_eq_zero.mpr fun hmem ↦ by simpa using hreplied _ hmem]
    omega
  have hacks (s : Share) : v'.history.count (.acknowledged s) =
      replied.count (.acknowledged s) + v.history.count (.acknowledged s) := by
    rw [hcount rfl, List.count_eq_zero.mpr (hhandles.acknowledged s), Nat.zero_add]
  constructor
  case serial =>
    intro s hs
    exact (h.serial s (hold rfl (hhandles.evaluated s) (by simp) hs)).trans_le hbooked.length_le
  case evaluated =>
    intro s
    rw [hevaluated]
    exact h.evaluated s
  case passed =>
    intro s rest hs
    rw [hself]
    exact h.passed s rest (hbooked.old_task rfl (hhandles.noReply s rest) hs)
  case followed =>
    intro s wait rest hs
    rw [hself]
    rcases (hbooked.mem_tasks rfl).mp hs with hs | hs
    · obtain ⟨howned, hmem⟩ := h.followed s wait rest (mem_of_mem_pop hs)
      exact ⟨howned, hgrows hmem⟩
    · cases hhandles.tokens s wait rest hs
      exact ⟨howner, hacknowledged⟩
  case acknowledged =>
    intro s hs
    by_cases heq : s = share
    · exact heq ▸ hmeets
    · exact h.acknowledged s (hold rfl (hhandles.acknowledged s) (by simpa using heq) hs)
  case called =>
    intro id s call hs
    by_cases hnew : Entry.call id (some s) call ∈ entries
    · obtain ⟨rfl, rfl⟩ := hhandles.calls id s call hnew
      exact ⟨howner.symm, hacknowledged⟩
    · obtain ⟨hid, hmem⟩ := h.called id s call (hold rfl hnew (by simp) hs)
      exact ⟨hid, hgrows hmem⟩
  case answered =>
    intro s hs
    have hle := h.answered s (hs.trans hself)
    have htask := countP_pop hpopped (replies s)
    have hreply := hanswered s
    rw [hbooked.countP_replies, hhandles.countP_replies, hacks, hevaluated]
    omega
  case credited =>
    intro s hs
    have hle := h.credited s (hs.trans hself)
    have htask := countP_pop hpopped (owes s)
    have hcredit := hcredited s
    have hnew := hhandles.owes_le s
    have hnone : replied.count (.credited s) = 0 :=
      List.count_eq_zero.mpr fun hmem ↦ by simpa using hreplied _ hmem
    rw [hbooked.countP_owes, hacks, hcount rfl, hnone]
    omega

theorem Ledger.step (h : Ledger cfg v) (hentered : Entered cfg v e v') : Ledger cfg v' := by
  cases hentered with
  | nothing hbooked => exact h.nothing hbooked
  | evaluated submission share added he hshare hbooked hadded =>
    exact h.evaluate hshare hbooked hadded
  | answered share rest entries added hpopped hreplied hbooked hanswers =>
    obtain ⟨howner, hmeets⟩ := h.passed share rest (mem_of_popped hpopped)
    refine h.handle hpopped hbooked hanswers.handles (by simp) howner hmeets
      ((hbooked.mem_iff rfl).mpr (.inl (by simp))) (fun s ↦ ?_) fun s ↦ ?_
    · by_cases heq : share = s <;> simp [replies, heq]
    · by_cases heq : s = share <;> simp [heq]
  | continued share wait rest entries added hpopped hbooked hfollows =>
    obtain ⟨howner, hmem⟩ := h.followed share wait rest (mem_of_popped hpopped)
    rw [← List.append_nil entries] at hbooked
    refine h.handle hpopped hbooked hfollows.handles (by simp) howner (h.acknowledged share hmem)
      (hbooked.grows.subset (by rwa [(popped_pop v e).history])) (fun s ↦ by simp) fun s ↦ ?_
    rw [← List.countP_eq_length_filter, List.countP_singleton]
    by_cases heq : s = share
    · simp [owes, heq]
    · simp [heq]

theorem Ledger.count_of_step (h : Ledger cfg v) (hentered : Entered cfg v e v') {entry : Entry}
    (hentry : entry = .evaluated share ∨ entry = .acknowledged share ∨ entry = .credited share)
    (hne : share.session ≠ v.self) : v'.history.count entry = v.history.count entry := by
  have hpop := popped_pop v e
  have hrecord : isRecord entry = true := by
    obtain rfl | rfl | rfl := hentry <;> rfl
  have hcount {entries : List Entry} {added : List Task} (hbooked : Booked (pop v e) v' entries added)
      (hnot : entry ∉ entries) : v'.history.count entry = v.history.count entry := by
    rw [hbooked.count hrecord, hpop.history, List.count_eq_zero.mpr hnot, Nat.zero_add]
  cases hentered with
  | nothing hbooked => exact hcount hbooked List.not_mem_nil
  | evaluated submission s added he hshare hbooked hadded =>
    apply hcount hbooked
    intro hmem
    obtain rfl | rfl | rfl := hentry <;> cases List.mem_singleton.mp hmem
    exact hne hshare.session
  | answered s rest entries added hpopped hreplied hbooked hanswers =>
    obtain ⟨howner, -⟩ := h.passed s rest (mem_of_popped hpopped)
    have hshare : share ≠ s := fun heq ↦ hne (heq ▸ howner)
    have hhandles := hanswers.handles
    apply hcount hbooked
    intro hmem
    rw [List.mem_append, List.mem_singleton] at hmem
    obtain rfl | rfl | rfl := hentry
    · exact hmem.elim (hhandles.evaluated share) (by simp)
    · exact hmem.elim (hhandles.acknowledged share) (by simpa using hshare)
    · exact hmem.elim (fun hmem ↦ hshare (hhandles.credits share hmem)) (by simp)
  | continued s wait rest entries added hpopped hbooked hfollows =>
    obtain ⟨howner, -⟩ := h.followed s wait rest (mem_of_popped hpopped)
    have hshare : share ≠ s := fun heq ↦ hne (heq ▸ howner)
    have hhandles := hfollows.handles
    apply hcount hbooked
    intro hmem
    obtain rfl | rfl | rfl := hentry
    · exact hhandles.evaluated share hmem
    · exact hhandles.acknowledged share hmem
    · exact hshare (hhandles.credits share hmem)

theorem Entered.grows (h : Entered cfg v e v') : v.history <:+ v'.history := by
  rw [← (popped_pop v e).history]
  cases h with
  | nothing h => exact h.grows
  | evaluated _ _ _ _ _ h => exact h.grows
  | answered _ _ _ _ _ _ h => exact h.grows
  | continued _ _ _ _ _ _ h => exact h.grows

theorem Ledger.evaluated_of_acknowledged (hledger : Ledger cfg v) (howner : share.session = v.self)
    (h : Entry.acknowledged share ∈ v.history) : Entry.evaluated share ∈ v.history := by
  have hle := hledger.answered share howner
  have hpos : 0 < v.history.count (.acknowledged share) :=
    List.count_pos_iff.mpr h
  exact List.count_pos_iff.mp (lt_of_lt_of_le hpos ((Nat.le_add_left _ _).trans hle))

theorem Entered.mem_tasks (h : Entered cfg v e v') (htask : isToken task = true)
    (hmem : task ∈ (pop v e).session.tasks) : task ∈ v'.session.tasks := by
  cases h with
  | nothing hbooked => exact (hbooked.mem_tasks htask).mpr (.inl hmem)
  | evaluated _ _ _ _ _ hbooked => exact (hbooked.mem_tasks htask).mpr (.inl hmem)
  | answered _ _ _ _ _ _ hbooked => exact (hbooked.mem_tasks htask).mpr (.inl hmem)
  | continued _ _ _ _ _ _ hbooked => exact (hbooked.mem_tasks htask).mpr (.inl hmem)

theorem Evaluates.not_acknowledged {submission : MiningSubmitMessage} (hledger : Ledger cfg v)
    (h : Evaluates cfg v submission share) : Entry.acknowledged share ∉ v.history := by
  have hle := hledger.answered share h.session
  rw [List.count_eq_zero.mpr (h.not_evaluated hledger)] at hle
  exact List.count_eq_zero.mp (by omega)

theorem Entered.evaluates_of_new (h : Entered cfg v e v')
    (hnew : Entry.evaluated share ∈ v'.history) (hold : Entry.evaluated share ∉ v.history) :
    submits v e = some share.submission ∧ Evaluates cfg v share.submission share := by
  cases h with
  | nothing hbooked => exact absurd (hbooked.entered_of_new rfl hnew hold) List.not_mem_nil
  | evaluated submission s added he hshare hbooked hadded =>
    cases List.mem_singleton.mp (hbooked.entered_of_new rfl hnew hold)
    obtain rfl := hshare.same
    exact ⟨he, hshare⟩
  | answered s rest entries added hpopped hreplied hbooked hanswers =>
    exact absurd (hbooked.entered_of_new rfl hnew hold)
      (by simpa using hanswers.handles.evaluated share)
  | continued s wait rest entries added hpopped hbooked hfollows =>
    exact absurd (hbooked.entered_of_new rfl hnew hold) (hfollows.handles.evaluated share)

theorem Entered.replied_of_new (h : Entered cfg v e v')
    (hnew : Entry.acknowledged share ∈ v'.history) (hold : Entry.acknowledged share ∉ v.history) :
    replied v e = some share := by
  cases h with
  | nothing hbooked => exact absurd (hbooked.entered_of_new rfl hnew hold) List.not_mem_nil
  | evaluated submission s added he hshare hbooked hadded =>
    exact absurd (hbooked.entered_of_new rfl hnew hold) (by simp)
  | answered s rest entries added hpopped hreplied hbooked hanswers =>
    rcases List.mem_append.mp (hbooked.entered_of_new rfl hnew hold) with hmem | hmem
    · exact absurd hmem (hanswers.handles.acknowledged share)
    · cases List.mem_singleton.mp hmem
      exact hreplied
  | continued s wait rest entries added hpopped hbooked hfollows =>
    exact absurd (hbooked.entered_of_new rfl hnew hold) (hfollows.handles.acknowledged share)

theorem Entered.accepts_of_new {rest : List Line} (h : Entered cfg v e v')
    (hnew : Task.write (.accepted share) rest ∈ v'.session.tasks)
    (hold : Task.write (.accepted share) rest ∉ v.session.tasks) :
    submits v e = some share.submission ∧ Evaluates cfg v share.submission share ∧
      share.Meets cfg.js := by
  cases h with
  | nothing hbooked => exact absurd (hbooked.added_of_new rfl hnew hold) List.not_mem_nil
  | evaluated submission s added he hshare hbooked hadded =>
    have hmem := hbooked.added_of_new rfl hnew hold
    obtain rfl | ⟨hmeets, rest', rfl⟩ := hadded
    · cases hmem
    · cases List.mem_singleton.mp hmem
      obtain rfl := hshare.same
      exact ⟨he, hshare, hmeets⟩
  | answered s rest' entries added hpopped hreplied hbooked hanswers =>
    exact absurd (hbooked.added_of_new rfl hnew hold) (hanswers.handles.noReply share rest)
  | continued s wait rest' entries added hpopped hbooked hfollows =>
    exact absurd (hbooked.added_of_new rfl hnew hold) (hfollows.handles.noReply share rest)

end Step

section Runs

variable {pool pool' : Pool} {event : Event} {now : ℕ}

def Replies (share : Share) (pool : Pool) : Event → Prop
  | .tick _ => False
  | .session id e => replied (pool.view id) e = some share

theorem history_of_step (h : pool.step cfg event = some pool') : pool.history ⊆ pool'.history := by
  obtain ⟨milliseconds, rfl, rfl⟩ | ⟨id, e, v', rfl, hact, rfl⟩ := step_cases h
  · exact fun _ hmem ↦ hmem
  · exact (deal_of_act hact).entered.grows.subset

theorem replies_of_step (h : pool.step cfg event = some pool')
    (hold : Entry.acknowledged share ∉ pool.history)
    (hnew : Entry.acknowledged share ∈ pool'.history) : Replies share pool event := by
  obtain ⟨milliseconds, rfl, rfl⟩ | ⟨id, e, v', rfl, hact, rfl⟩ := step_cases h
  · exact absurd hnew hold
  · exact (deal_of_act hact).entered.replied_of_new hnew hold

theorem evaluates_of_step {id : SessionId} (h : pool.step cfg (.session id e) = some pool')
    (hnew : Entry.evaluated share ∈ pool'.history) (hold : Entry.evaluated share ∉ pool.history) :
    submits (pool.view id) e = some share.submission ∧
      Evaluates cfg (pool.view id) share.submission share := by
  obtain ⟨milliseconds, heq, rfl⟩ | ⟨id', e', v', heq, hact, rfl⟩ := step_cases h
  · cases heq
  · cases heq
    exact (deal_of_act hact).entered.evaluates_of_new hnew hold

theorem ledger_kept : Kept cfg (fun _ ↦ True) (fun _ _ ↦ True) (Ledger cfg) where
  tick _ _ h := { h with }
  act _ _ _ _ h _ hact := h.step (deal_of_act hact).entered
  other v _ v' self session hne _ hother h _ hact := by
    have hentered := (deal_of_act hact).entered
    have hstep := h.step hentered
    have hcount {share : Share} {entry : Entry} (hs : share.session = self)
        (hentry : entry = .evaluated share ∨ entry = .acknowledged share ∨ entry = .credited share) :
        v'.history.count entry = v.history.count entry :=
      h.count_of_step hentered hentry (by rwa [hs])
    refine
      { serial := hstep.serial
        evaluated := hstep.evaluated
        passed := hother.passed
        followed := fun share wait rest hmem ↦ ?_
        acknowledged := hstep.acknowledged
        called := hstep.called
        answered := fun share hs ↦ ?_
        credited := fun share hs ↦ ?_ }
    · obtain ⟨howner, hacknowledged⟩ := hother.followed share wait rest hmem
      exact ⟨howner, hentered.grows.subset hacknowledged⟩
    · have hle := hother.answered share hs
      rw [show (View.of v' self session).history = v'.history from rfl, hcount hs (.inl rfl),
        hcount hs (.inr (.inl rfl))]
      exact hle
    · have hle := hother.credited share hs
      rw [show (View.of v' self session).history = v'.history from rfl,
        hcount hs (.inr (.inl rfl)), hcount hs (.inr (.inr rfl))]
      exact hle

theorem ledger_of_reachable (h : Reachable (Pool.step cfg) (Pool.start now) pool) :
    ∀ id, Ledger cfg (pool.view id) := by
  refine ledger_kept.reach (fun _ _ _ ↦ trivial) (fun id ↦ ?_) (reachable_of_reach h)
  constructor <;> simp [Pool.start, Pool.view]

/-- What is known of an evaluated share: it is for a job and a template that
were registered, and its header is built from them. -/
structure Grounds (cfg : Config) (history : List Entry) (share : Share) : Prop where
  header : share.job.buildHeaderBuffer cfg.js share.jobTemplate share.versionMask share.nonce
    share.timestamp = some share.header
  jobId : share.submission.jobId = share.job.jobId
  job : ∃ s t, Entry.job s share.job t ∈ history
  template : ∃ a, Entry.template a share.jobTemplate ∈ history ∧
    share.jobTemplate.blockData.id = share.job.jobTemplateId

theorem Grounds.mono {history history' : List Entry} (h : Grounds cfg history share)
    (hgrows : history ⊆ history') : Grounds cfg history' share := by
  obtain ⟨s, t, hjob⟩ := h.job
  obtain ⟨a, htemplate, hid⟩ := h.template
  exact ⟨h.header, h.jobId, ⟨s, t, hgrows hjob⟩, a, hgrows htemplate, hid⟩

theorem Evaluates.grounds {submission : MiningSubmitMessage} (hsound : Sound cfg v)
    (h : Evaluates cfg v submission share) : Grounds cfg v.history share := by
  obtain ⟨hid, s, t, hjob⟩ := hsound.registry.jobs _ _ h.job
  obtain ⟨htid, a, htemplate⟩ := hsound.registry.blocks _ _ h.template
  exact ⟨h.header, by rw [h.same, hid], ⟨s, t, List.mem_of_mem_filter hjob⟩, a,
    List.mem_of_mem_filter htemplate, htid⟩

theorem grounds_of_entered (h : ∀ share, Entry.evaluated share ∈ v.history →
    Grounds cfg v.history share) (hsound : Sound cfg v) (hentered : Entered cfg v e v') :
    ∀ share, Entry.evaluated share ∈ v'.history → Grounds cfg v'.history share := by
  intro share hmem
  have hpop := popped_pop v e
  have hgrows := hentered.grows.subset
  have hold {entries : List Entry} {added : List Task} (hbooked : Booked (pop v e) v' entries added)
      (hnot : Entry.evaluated share ∉ entries) : Grounds cfg v'.history share :=
    (h share ((hbooked.of_record hpop rfl hnot).mp hmem)).mono hgrows
  cases hentered with
  | nothing hbooked => exact hold hbooked List.not_mem_nil
  | evaluated submission s added he hshare hbooked hadded =>
    by_cases heq : share = s
    · exact heq ▸ (hshare.grounds hsound).mono hgrows
    · exact hold hbooked (by simpa using heq)
  | answered s rest entries added hpopped hreplied hbooked hanswers =>
    exact hold hbooked (by simpa using hanswers.handles.evaluated share)
  | continued s wait rest entries added hpopped hbooked hfollows =>
    exact hold hbooked (hfollows.handles.evaluated share)

theorem grounds_kept : Kept cfg (Sound cfg) (fun _ _ ↦ True)
    fun v ↦ ∀ share, Entry.evaluated share ∈ v.history → Grounds cfg v.history share where
  tick _ _ h := h
  act _ _ _ hsound h _ hact := grounds_of_entered h hsound (deal_of_act hact).entered
  other _ _ _ _ _ _ hsound _ h _ hact := by
    have hgrounds := grounds_of_entered h hsound (deal_of_act hact).entered
    exact hgrounds

theorem grounds_of_reachable (h : Reachable (Pool.step cfg) (Pool.start now) pool) {share : Share}
    (hmem : Entry.evaluated share ∈ pool.history) : Grounds cfg pool.history share := by
  refine grounds_kept.reach (fun _ hp ↦ sound_of_reachable hp) (fun id s hs ↦ ?_)
    (reachable_of_reach h) 0 share hmem
  cases hs

end Runs

end ElektronPool.Shares
