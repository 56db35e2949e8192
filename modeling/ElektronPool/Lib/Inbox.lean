import ElektronPool.Lib.Runs
import Mathlib.Data.List.Nodup
import Mathlib.Data.List.Pairwise
import Mathlib.Order.Lattice

namespace ElektronPool.Lib

open Runs

namespace Inbox

/-- A poll under way: asked, or with its answer at hand. The first of the calls is the one
that is waited for; the rest of the answer comes after them. -/
inductive Poll (α β : Type)
  | asked (offset : ℕ)
  | handling (calls : List β) (rest : List α)
deriving DecidableEq

/-- One that reads an inbox by offset: it sets its offset past each entry as it begins it. -/
structure Reader (α β : Type) where
  offset : ℕ := 0
  polls : List (Poll α β) := []
  begun : List α := []
  issued : List β := []

namespace Reader

variable {α β : Type} (s : Reader α β) (i : ℕ)

def poll : Reader α β := { s with polls := s.polls ++ [.asked s.offset] }

def receive (entries : List α) : Reader α β :=
  { s with polls := s.polls.set i (.handling [] entries) }

/-- The call that was waited for is done: the next one is made, or the next entry begun. -/
def proceed (key : α → ℕ) (calls : α → List β) : List β → List α → Reader α β
  | _ :: rest, entries =>
    { s with
      issued := s.issued ++ rest.head?.toList
      polls := s.polls.set i (.handling rest entries) }
  | [], a :: rest =>
    { s with
      offset := key a + 1
      begun := s.begun ++ [a]
      issued := s.issued ++ (calls a).head?.toList
      polls := s.polls.set i (.handling (calls a) rest) }
  | [], [] => { s with polls := s.polls.eraseIdx i }

def giveUp : Reader α β := { s with polls := s.polls.eraseIdx i }

def restart : Reader α β := { s with polls := [], offset := 0 }

end Reader

/-- A server that keeps what is posted for a reader, and what a request makes of it. -/
structure Server (σ α : Type) where
  new : σ
  post : σ → α → σ
  answer : σ → ℕ → List α
  confirm : σ → ℕ → σ
  kept : σ → List α

/-- A request confirms what lies below its offset; the answer to it is the first of the rest, and
nothing else goes. -/
structure Server.Lawful {σ α : Type} (server : Server σ α) (key : α → ℕ) (limit : ℕ) : Prop where
  kept_new : server.kept server.new = []
  kept_post : ∀ s a, server.kept (server.post s a) = server.kept s ++ [a]
  kept_confirm : ∀ s offset,
    server.kept (server.confirm s offset) = (server.kept s).filter fun a ↦ offset ≤ key a
  answer_eq : ∀ s offset,
    server.answer s offset = ((server.kept s).filter fun a ↦ offset ≤ key a).take limit

def Server.queue {α : Type} (key : α → ℕ) (limit : ℕ) : Server (List α) α where
  new := []
  post s a := s ++ [a]
  answer s offset := (s.filter fun a ↦ offset ≤ key a).take limit
  confirm s offset := s.filter fun a ↦ offset ≤ key a
  kept s := s

theorem Server.lawful_queue {α : Type} (key : α → ℕ) (limit : ℕ) :
    (Server.queue key limit).Lawful key limit where
  kept_new := rfl
  kept_post _ _ := rfl
  kept_confirm _ _ := rfl
  answer_eq _ _ := rfl

inductive Event (α : Type)
  | post (a : α)
  | poll
  | serve (i : ℕ)
  /-- a request whose poll is given up may still come in -/
  | late (offset : ℕ)
  | resume (i : ℕ)
  | fail (i : ℕ)
  | restart

end Inbox

/-- A reader and the server it polls, with what was posted and the offsets that were sent. -/
structure Inbox (σ α β : Type) extends Inbox.Reader α β where
  server : σ
  posted : List α := []
  sent : List ℕ := []

namespace Inbox

variable {σ α β : Type} (server : Server σ α) (key : α → ℕ) (calls : α → List β)

def resume (s : Inbox σ α β) (i : ℕ) (pending : List β) (rest : List α) : Inbox σ α β :=
  { s with toReader := s.proceed i key calls pending rest }

def step (s : Inbox σ α β) : Event α → Option (Inbox σ α β)
  | .post a => some { s with server := server.post s.server a, posted := s.posted ++ [a] }
  | .poll => some { s with toReader := s.poll, sent := s.offset :: s.sent }
  | .serve i =>
    match s.polls[i]? with
    | some (.asked offset) =>
      some { s with
        server := server.confirm s.server offset
        toReader := s.receive i (server.answer s.server offset) }
    | _ => none
  | .late offset =>
    if offset ∈ s.sent then some { s with server := server.confirm s.server offset } else none
  | .resume i =>
    match s.polls[i]? with
    | some (.handling pending rest) => some (s.resume key calls i pending rest)
    | _ => none
  | .fail i => if i < s.polls.length then some { s with toReader := s.giveUp i } else none
  | .restart => some { s with toReader := s.restart }

def start : Inbox σ α β := { server := server.new }

def Rises (s : Inbox σ α β) : Event α → Prop
  | .post a => ∀ b ∈ s.posted, key b < key a
  | _ => True

instance (s : Inbox σ α β) : ∀ e, Decidable (Rises key s e)
  | .post a => inferInstanceAs (Decidable (∀ b ∈ s.posted, key b < key a))
  | .poll | .serve _ | .late _ | .resume _ | .fail _ | .restart =>
    inferInstanceAs (Decidable True)

variable {server key calls} {limit : ℕ} {s s' : Inbox σ α β} {e : Event α} {a : α} {n offset i : ℕ}
  {rest : List α} {pending : List β}

section Kept

def Keeps (server : Server σ α) (key : α → ℕ) (s : Inbox σ α β) (n : ℕ) : Prop :=
  server.kept s.server = s.posted.filter fun a ↦ n ≤ key a

theorem filter_filter_le (l : List α) :
    (l.filter fun a ↦ n ≤ key a).filter (fun a ↦ offset ≤ key a) =
      l.filter fun a ↦ max n offset ≤ key a := by
  rw [List.filter_filter]
  apply List.filter_congr
  intro a _
  rw [← Bool.decide_and, decide_eq_decide, Nat.max_le, and_comm]

theorem Keeps.answer_eq (hserver : server.Lawful key limit) (h : Keeps server key s n) :
    server.answer s.server offset =
      (s.posted.filter fun a ↦ max n offset ≤ key a).take limit := by
  rw [hserver.answer_eq, h, filter_filter_le]

theorem Keeps.confirm (hserver : server.Lawful key limit) (h : Keeps server key s n) :
    server.kept (server.confirm s.server offset) =
      s.posted.filter fun a ↦ max n offset ≤ key a := by
  rw [hserver.kept_confirm, h, filter_filter_le]

theorem Keeps.post (hserver : server.Lawful key limit) (h : Keeps server key s n)
    (hle : n ≤ key a) :
    server.kept (server.post s.server a) = (s.posted ++ [a]).filter fun a ↦ n ≤ key a := by
  rw [hserver.kept_post, h, List.filter_append, List.filter_singleton, decide_eq_true hle, cond_true]

end Kept

section Complete

/-- Everything that was posted below this offset is begun, and what is posted later is not
below it. -/
structure Covers (key : α → ℕ) (s : Inbox σ α β) (n : ℕ) : Prop where
  begun : ∀ a ∈ s.posted, key a < n → a ∈ s.begun
  bound : n = 0 ∨ ∃ b ∈ s.posted, n = key b + 1

/-- The entries of an answer follow on what is begun. -/
structure Queues (key : α → ℕ) (s : Inbox σ α β) (rest : List α) : Prop where
  sorted : rest.Pairwise (key · < key ·)
  posted : rest ⊆ s.posted
  before : ∀ a ∈ rest, ∀ b ∈ s.posted, key b < key a → b ∈ s.begun ∨ b ∈ rest

def Holds (key : α → ℕ) (calls : α → List β) (s : Inbox σ α β) : Poll α β → Prop
  | .asked offset => Covers key s offset
  | .handling pending rest =>
    Queues key s rest ∧ (pending = [] ∨ ∃ a ∈ s.begun, pending <:+ calls a)

/-- Nothing that was posted is lost, and nothing is done that no entry asked for. -/
structure Complete (server : Server σ α) (key : α → ℕ) (calls : α → List β) (s : Inbox σ α β) :
    Prop where
  sorted : s.posted.Pairwise (key · < key ·)
  begun : s.begun ⊆ s.posted
  kept : ∃ n, Covers key s n ∧ Keeps server key s n
  offset : Covers key s s.offset
  sent : ∀ offset ∈ s.sent, Covers key s offset
  polls : ∀ poll ∈ s.polls, Holds key calls s poll
  issued : ∀ c ∈ s.issued, ∃ a ∈ s.begun, c ∈ calls a

/-- What a step may change for those who wait: more is begun, and what is newly posted comes
after all that was. -/
structure Grows (key : α → ℕ) (s s' : Inbox σ α β) : Prop where
  begun : s.begun ⊆ s'.begun
  posted : s.posted ⊆ s'.posted
  new : ∀ a ∈ s'.posted, a ∈ s.posted ∨ ∀ b ∈ s.posted, key b < key a

theorem Grows.of_eq (hposted : s'.posted = s.posted) (hbegun : s.begun ⊆ s'.begun) :
    Grows key s s' where
  begun := hbegun
  posted := by rw [hposted]; exact List.Subset.refl _
  new a ha := .inl (hposted ▸ ha)

theorem Covers.grow (h : Covers key s n) (hgrows : Grows key s s') : Covers key s' n where
  begun a ha hlt := by
    rcases hgrows.new a ha with hold | hnew
    · exact hgrows.begun (h.begun a hold hlt)
    · rcases h.bound with rfl | ⟨b, hb, rfl⟩
      · exact absurd hlt (Nat.not_lt_zero _)
      · have hkey := hnew b hb
        omega
  bound := by
    rcases h.bound with hzero | ⟨b, hb, heq⟩
    · exact .inl hzero
    · exact .inr ⟨b, hgrows.posted hb, heq⟩

theorem Covers.zero (key : α → ℕ) (s : Inbox σ α β) : Covers key s 0 where
  begun _ _ hlt := absurd hlt (Nat.not_lt_zero _)
  bound := .inl rfl

theorem Covers.le_key (h : Covers key s n) (hlast : ∀ b ∈ s.posted, key b < key a) : n ≤ key a := by
  rcases h.bound with hzero | ⟨b, hb, heq⟩
  · rw [hzero]
    exact Nat.zero_le _
  · rw [heq]
    exact hlast b hb

theorem Covers.max (h : Covers key s n) (h' : Covers key s offset) :
    Covers key s (max n offset) := by
  rcases le_total n offset with hle | hle
  · rwa [max_eq_right hle]
  · rwa [max_eq_left hle]

theorem Queues.grow (h : Queues key s rest) (hgrows : Grows key s s') : Queues key s' rest where
  sorted := h.sorted
  posted := List.Subset.trans h.posted hgrows.posted
  before a ha b hb hlt := by
    rcases hgrows.new b hb with hold | hnew
    · exact (h.before a ha b hold hlt).imp_left (hgrows.begun ·)
    · exact absurd (hnew a (h.posted ha)) (Nat.lt_asymm hlt)

theorem Holds.grow {poll : Poll α β} (h : Holds key calls s poll) (hgrows : Grows key s s') :
    Holds key calls s' poll := by
  cases poll with
  | asked offset => exact Covers.grow h hgrows
  | handling pending rest =>
    refine ⟨h.1.grow hgrows, h.2.imp_right fun ⟨a, ha, hsuffix⟩ ↦ ?_⟩
    exact ⟨a, hgrows.begun ha, hsuffix⟩

theorem queues_filter (hsorted : s.posted.Pairwise (key · < key ·)) (h : Covers key s n)
    (limit : ℕ) : Queues key s ((s.posted.filter fun a ↦ n ≤ key a).take limit) where
  sorted := (hsorted.filter _).take
  posted := ((List.take_sublist _ _).trans List.filter_sublist).subset
  before a ha b hb hlt := by
    by_cases hbelow : key b < n
    · exact .inl (h.begun b hb hbelow)
    · refine .inr ?_
      have hmem : b ∈ s.posted.filter fun a ↦ n ≤ key a :=
        List.mem_filter.mpr ⟨hb, decide_eq_true (Nat.le_of_not_lt hbelow)⟩
      have hfilter := hsorted.filter fun a ↦ decide (n ≤ key a)
      rw [← List.take_append_drop limit (s.posted.filter _)] at hmem hfilter
      rcases List.mem_append.mp hmem with htake | hdrop
      · exact htake
      · exact absurd ((List.pairwise_append.mp hfilter).2.2 a ha b hdrop) (Nat.lt_asymm hlt)

theorem eq_of_key {l : List α} (hsorted : l.Pairwise (key · < key ·)) {a b : α} (ha : a ∈ l)
    (hb : b ∈ l) (h : key a = key b) : a = b := by
  have hnodup : (l.map key).Nodup := List.pairwise_map.mpr (hsorted.imp ne_of_lt)
  exact List.inj_on_of_nodup_map hnodup ha hb h

theorem Queues.head (hsorted : s.posted.Pairwise (key · < key ·)) (h : Queues key s (a :: rest))
    (hposted : s'.posted = s.posted) (hbegun : s'.begun = s.begun ++ [a]) :
    Covers key s' (key a + 1) ∧ Queues key s' rest := by
  have ha : a ∈ s.posted := h.posted List.mem_cons_self
  obtain ⟨hfirst, htail⟩ := List.pairwise_cons.mp h.sorted
  refine ⟨⟨fun b hb hlt ↦ ?_, .inr ⟨a, hposted ▸ ha, rfl⟩⟩, ⟨htail, fun b hb ↦ ?_,
    fun b hb c hc hlt ↦ ?_⟩⟩
  · rw [hposted] at hb
    rw [hbegun, List.mem_append, List.mem_singleton]
    rcases Nat.lt_succ_iff_lt_or_eq.mp hlt with hbefore | hsame
    · rcases h.before a List.mem_cons_self b hb hbefore with hold | hqueued
      · exact .inl hold
      · rcases List.mem_cons.mp hqueued with rfl | hlater
        · exact .inr rfl
        · exact absurd (hfirst b hlater) (Nat.lt_asymm hbefore)
    · exact .inr (eq_of_key hsorted hb ha hsame)
  · rw [hposted]
    exact h.posted (List.mem_cons_of_mem _ hb)
  · rw [hposted] at hc
    rw [hbegun, List.mem_append, List.mem_singleton]
    rcases h.before b (List.mem_cons_of_mem _ hb) c hc hlt with hold | hqueued
    · exact .inl (.inl hold)
    · rcases List.mem_cons.mp hqueued with rfl | hlater
      · exact .inl (.inr rfl)
      · exact .inr hlater

theorem Complete.of_grows (h : Complete server key calls s) (hgrows : Grows key s s')
    (hsorted : s'.posted.Pairwise (key · < key ·)) (hbegun : s'.begun ⊆ s'.posted)
    (hkept : ∃ n, Covers key s' n ∧ Keeps server key s' n) (hoffset : Covers key s' s'.offset)
    (hsent : ∀ offset ∈ s'.sent, offset ∈ s.sent ∨ Covers key s' offset)
    (hpolls : ∀ poll ∈ s'.polls, poll ∈ s.polls ∨ Holds key calls s' poll)
    (hissued : ∀ c ∈ s'.issued, c ∈ s.issued ∨ ∃ a ∈ s'.begun, c ∈ calls a) :
    Complete server key calls s' where
  sorted := hsorted
  begun := hbegun
  kept := hkept
  offset := hoffset
  sent offset hmem := by
    rcases hsent offset hmem with hold | hnew
    · exact (h.sent offset hold).grow hgrows
    · exact hnew
  polls poll hmem := by
    rcases hpolls poll hmem with hold | hnew
    · exact (h.polls poll hold).grow hgrows
    · exact hnew
  issued c hmem := by
    rcases hissued c hmem with hold | hnew
    · obtain ⟨a, ha, hcall⟩ := h.issued c hold
      exact ⟨a, hgrows.begun ha, hcall⟩
    · exact hnew

theorem Complete.of_same (h : Complete server key calls s) (hposted : s'.posted = s.posted)
    (hbegun : s'.begun = s.begun) (hkept : ∃ n, Covers key s n ∧ Keeps server key s' n)
    (hoffset : Covers key s s'.offset)
    (hsent : ∀ offset ∈ s'.sent, offset ∈ s.sent ∨ Covers key s offset)
    (hpolls : ∀ poll ∈ s'.polls, poll ∈ s.polls ∨ Holds key calls s poll)
    (hissued : ∀ c ∈ s'.issued, c ∈ s.issued ∨ ∃ a ∈ s.begun, c ∈ calls a) :
    Complete server key calls s' := by
  have hgrows : Grows key s s' := .of_eq hposted (hbegun ▸ List.Subset.refl _)
  obtain ⟨n, hcovers, hkeeps⟩ := hkept
  refine h.of_grows hgrows (hposted ▸ h.sorted) ?_ ⟨n, hcovers.grow hgrows, hkeeps⟩
    (hoffset.grow hgrows)
    (fun offset hmem ↦ (hsent offset hmem).imp_right (·.grow hgrows))
    (fun poll hmem ↦ (hpolls poll hmem).imp_right (·.grow hgrows)) ?_
  · rw [hposted, hbegun]
    exact h.begun
  · rw [hbegun]
    exact hissued

theorem Complete.resume (h : Complete server key calls s)
    (hpoll : s.polls[i]? = some (.handling pending rest)) :
    Complete server key calls (s.resume key calls i pending rest) := by
  obtain ⟨hqueues, hpending⟩ := h.polls _ (List.mem_of_getElem? hpoll)
  cases pending with
  | cons c pending =>
    obtain ⟨a, ha, hsuffix⟩ := hpending.resolve_left (List.cons_ne_nil _ _)
    have htail : pending <:+ calls a := (List.suffix_cons c pending).trans hsuffix
    refine h.of_same rfl rfl h.kept h.offset (fun _ ↦ .inl) (fun poll hmem ↦ ?_)
      (fun d hmem ↦ ?_)
    · rcases List.mem_or_eq_of_mem_set hmem with hold | rfl
      · exact .inl hold
      · exact .inr ⟨hqueues, .inr ⟨a, ha, htail⟩⟩
    · rcases List.mem_append.mp hmem with hold | hnew
      · exact .inl hold
      · exact .inr ⟨a, ha, htail.subset (List.mem_of_mem_head? (Option.mem_toList.mp hnew))⟩
  | nil =>
    cases rest with
    | nil =>
      exact h.of_same rfl rfl h.kept h.offset (fun _ ↦ .inl)
        (fun poll hmem ↦ .inl (List.mem_of_mem_eraseIdx hmem)) (fun _ ↦ .inl)
    | cons a rest =>
      have hgrows : Grows key s (s.resume key calls i [] (a :: rest)) :=
        .of_eq rfl (List.subset_append_left _ _)
      obtain ⟨hcovers, hrest⟩ : Covers key (s.resume key calls i [] (a :: rest)) (key a + 1) ∧
          Queues key (s.resume key calls i [] (a :: rest)) rest := hqueues.head h.sorted rfl rfl
      have ha : a ∈ s.begun ++ [a] := List.mem_append_right _ (List.mem_singleton_self a)
      obtain ⟨n, hkept, hkeeps⟩ := h.kept
      refine h.of_grows hgrows h.sorted (fun b hb ↦ ?_) ⟨n, hkept.grow hgrows, hkeeps⟩ hcovers
        (fun _ ↦ .inl) (fun poll hmem ↦ ?_) (fun c hmem ↦ ?_)
      · rcases List.mem_append.mp hb with hold | hnew
        · exact h.begun hold
        · exact hqueues.posted (List.mem_singleton.mp hnew ▸ List.mem_cons_self)
      · rcases List.mem_or_eq_of_mem_set hmem with hold | rfl
        · exact .inl hold
        · exact .inr ⟨hrest, .inr ⟨a, ha, List.suffix_rfl⟩⟩
      · rcases List.mem_append.mp hmem with hold | hnew
        · exact .inl hold
        · exact .inr ⟨a, ha, List.mem_of_mem_head? (Option.mem_toList.mp hnew)⟩

theorem sorted_append {entries : List α} (hsorted : entries.Pairwise (key · < key ·))
    (hlast : ∀ b ∈ entries, key b < key a) : (entries ++ [a]).Pairwise (key · < key ·) := by
  refine List.pairwise_append.mpr ⟨hsorted, List.pairwise_singleton _ _, ?_⟩
  intro b hb c hc
  rw [List.mem_singleton.mp hc]
  exact hlast b hb

theorem Complete.post (hserver : server.Lawful key limit) (h : Complete server key calls s)
    (hlast : ∀ b ∈ s.posted, key b < key a) :
    Complete server key calls
      { s with server := server.post s.server a, posted := s.posted ++ [a] } := by
  have hgrows : Grows key s
      { s with server := server.post s.server a, posted := s.posted ++ [a] } := by
    refine ⟨List.Subset.refl _, List.subset_append_left _ _, fun b hb ↦ ?_⟩
    rcases List.mem_append.mp hb with hold | hnew
    · exact .inl hold
    · exact .inr (List.mem_singleton.mp hnew ▸ hlast)
  obtain ⟨n, hcovers, hkeeps⟩ := h.kept
  exact h.of_grows hgrows (sorted_append h.sorted hlast) (List.Subset.trans h.begun hgrows.posted)
    ⟨n, hcovers.grow hgrows, hkeeps.post hserver (hcovers.le_key hlast)⟩ (h.offset.grow hgrows)
    (fun _ ↦ .inl) (fun _ ↦ .inl) (fun _ ↦ .inl)

theorem Complete.step (hserver : server.Lawful key limit) (h : Complete server key calls s)
    (hrises : Rises key s e) (hstep : s.step server key calls e = some s') :
    Complete server key calls s' := by
  cases e with
  | post a =>
    cases hstep
    exact h.post hserver hrises
  | poll =>
    simp only [Inbox.step, Option.some.injEq] at hstep
    subst hstep
    refine h.of_same rfl rfl h.kept h.offset (fun offset hmem ↦ ?_) (fun poll hmem ↦ ?_)
      (fun _ ↦ .inl)
    · rcases List.mem_cons.mp hmem with rfl | hold
      · exact .inr h.offset
      · exact .inl hold
    · rcases List.mem_append.mp hmem with hold | hnew
      · exact .inl hold
      · exact .inr (List.mem_singleton.mp hnew ▸ h.offset)
  | serve i =>
    simp only [Inbox.step] at hstep
    split at hstep
    case h_1 offset hpoll =>
      cases hstep
      obtain ⟨n, hcovers, hkeeps⟩ := h.kept
      have hmax := hcovers.max (h.polls _ (List.mem_of_getElem? hpoll))
      refine h.of_same rfl rfl ⟨_, hmax, hkeeps.confirm hserver⟩ h.offset (fun _ ↦ .inl)
        (fun poll hmem ↦ ?_) (fun _ ↦ .inl)
      rcases List.mem_or_eq_of_mem_set hmem with hold | rfl
      · exact .inl hold
      · rw [hkeeps.answer_eq hserver]
        exact .inr ⟨queues_filter h.sorted hmax limit, .inl rfl⟩
    case h_2 => cases hstep
  | late offset =>
    simp only [Inbox.step, Option.ite_none_right_eq_some, Option.some.injEq] at hstep
    obtain ⟨hsent, rfl⟩ := hstep
    obtain ⟨n, hcovers, hkeeps⟩ := h.kept
    exact h.of_same rfl rfl ⟨_, hcovers.max (h.sent offset hsent), hkeeps.confirm hserver⟩ h.offset
      (fun _ ↦ .inl) (fun _ ↦ .inl) (fun _ ↦ .inl)
  | resume i =>
    simp only [Inbox.step] at hstep
    split at hstep
    case h_1 pending rest hpoll =>
      cases hstep
      exact h.resume hpoll
    case h_2 => cases hstep
  | fail i =>
    simp only [Inbox.step, Option.ite_none_right_eq_some, Option.some.injEq] at hstep
    obtain ⟨-, rfl⟩ := hstep
    exact h.of_same rfl rfl h.kept h.offset (fun _ ↦ .inl)
      (fun poll hmem ↦ .inl (List.mem_of_mem_eraseIdx hmem)) (fun _ ↦ .inl)
  | restart =>
    simp only [Inbox.step, Option.some.injEq] at hstep
    subst hstep
    exact h.of_same rfl rfl h.kept (Covers.zero key s) (fun _ ↦ .inl)
      (fun _ hmem ↦ absurd hmem List.not_mem_nil) (fun _ ↦ .inl)

theorem complete_start (hserver : server.Lawful key limit) (calls : α → List β) :
    Complete server key calls (start server) where
  sorted := .nil
  begun := List.Subset.refl _
  kept := ⟨0, .zero key _, hserver.kept_new⟩
  offset := .zero key _
  sent _ hmem := absurd hmem List.not_mem_nil
  polls _ hmem := absurd hmem List.not_mem_nil
  issued _ hmem := absurd hmem List.not_mem_nil

theorem begun_subset_of_step (hstep : s.step server key calls e = some s') : s.begun ⊆ s'.begun := by
  cases e with
  | resume i =>
    simp only [Inbox.step] at hstep
    split at hstep
    case h_1 pending rest hpoll =>
      cases hstep
      cases pending with
      | cons c pending => exact List.Subset.refl _
      | nil =>
        cases rest with
        | cons a rest => exact List.subset_append_left _ _
        | nil => exact List.Subset.refl _
    case h_2 => cases hstep
  | serve i =>
    simp only [Inbox.step] at hstep
    split at hstep
    case h_1 => cases hstep; exact List.Subset.refl _
    case h_2 => cases hstep
  | late _ | fail _ =>
    simp only [Inbox.step, Option.ite_none_right_eq_some, Option.some.injEq] at hstep
    obtain ⟨-, rfl⟩ := hstep
    exact List.Subset.refl _
  | post _ | poll | restart =>
    cases hstep
    exact List.Subset.refl _

theorem issued_of_step (hstep : s.step server key calls e = some s') :
    s'.issued = s.issued ∨
    (∃ i c pending rest, e = .resume i ∧ s.polls[i]? = some (.handling (c :: pending) rest) ∧
      s'.issued = s.issued ++ pending.head?.toList) ∨
    ∃ a, s'.issued = s.issued ++ (calls a).head?.toList := by
  cases e with
  | resume i =>
    simp only [Inbox.step] at hstep
    split at hstep
    case h_1 pending rest hpoll =>
      cases hstep
      cases pending with
      | cons c pending => exact .inr (.inl ⟨i, c, pending, rest, rfl, hpoll, rfl⟩)
      | nil =>
        cases rest with
        | cons a rest => exact .inr (.inr ⟨a, rfl⟩)
        | nil => exact .inl rfl
    case h_2 => cases hstep
  | serve i =>
    simp only [Inbox.step] at hstep
    split at hstep
    case h_1 => cases hstep; exact .inl rfl
    case h_2 => cases hstep
  | late _ | fail _ =>
    simp only [Inbox.step, Option.ite_none_right_eq_some, Option.some.injEq] at hstep
    obtain ⟨-, rfl⟩ := hstep
    exact .inl rfl
  | post _ | poll | restart =>
    cases hstep
    exact .inl rfl

theorem Complete.begun_or_kept (h : Complete server key calls s) (ha : a ∈ s.posted) :
    a ∈ s.begun ∨ a ∈ server.kept s.server := by
  obtain ⟨n, hcovers, hkeeps⟩ := h.kept
  rcases Nat.lt_or_ge (key a) n with hlt | hle
  · exact .inl (hcovers.begun a ha hlt)
  · rw [hkeeps]
    exact .inr (List.mem_filter.mpr ⟨ha, decide_eq_true hle⟩)

end Complete

section InOrder

open scoped List

/-- A poll begins when the one before it is over, and the reader is not restarted. -/
def Alone (s : Inbox σ α β) : Event α → Prop
  | .poll => s.polls = []
  | .restart => False
  | _ => True

instance [DecidableEq α] [DecidableEq β] (s : Inbox σ α β) : ∀ e, Decidable (Alone s e)
  | .poll => inferInstanceAs (Decidable (s.polls = []))
  | .restart => inferInstanceAs (Decidable False)
  | .post _ | .serve _ | .late _ | .resume _ | .fail _ => inferInstanceAs (Decidable True)

/-- No poll is given up while a call is waited for. -/
def Answered (s : Inbox σ α β) : Event α → Prop
  | .fail i => ∀ c pending rest, s.polls[i]? ≠ some (.handling (c :: pending) rest)
  | _ => True

def after (key : α → ℕ) (entries : List α) : ℕ := entries.getLast?.elim 0 (key · + 1)

def remaining (s : Inbox σ α β) : List β :=
  match s.polls with
  | [.handling pending _] => pending.tail
  | _ => []

def Continues (s : Inbox σ α β) : Poll α β → Prop
  | .asked offset => offset = s.offset
  | .handling _ rest => s.begun ++ rest <+: s.posted

/-- What is begun is what was posted, from the first entry on, each once and in order. -/
structure InOrder (server : Server σ α) (key : α → ℕ) (calls : α → List β) (s : Inbox σ α β) :
    Prop where
  sorted : s.posted.Pairwise (key · < key ·)
  begun : s.begun <+: s.posted
  offset : s.offset = after key s.begun
  sent : ∀ offset ∈ s.sent, offset ≤ s.offset
  kept : ∃ n, n ≤ s.offset ∧ Keeps server key s n
  polls : s.polls = [] ∨ ∃ poll, s.polls = [poll] ∧ Continues s poll
  issued : s.issued ++ s.remaining <+ s.begun.flatMap calls

theorem after_append (entries : List α) (a : α) : after key (entries ++ [a]) = key a + 1 := by
  rw [after, List.getLast?_concat, Option.elim_some]

theorem filter_after {entries : List α} (hsorted : (entries ++ rest).Pairwise (key · < key ·)) :
    (entries ++ rest).filter (fun a ↦ after key entries ≤ key a) = rest := by
  obtain ⟨hentries, -, hbetween⟩ := List.pairwise_append.mp hsorted
  rw [List.filter_append]
  have hrest : rest.filter (fun a ↦ after key entries ≤ key a) = rest := by
    refine List.filter_eq_self.mpr fun b hb ↦ decide_eq_true ?_
    rw [after]
    cases hlast : entries.getLast? with
    | none => exact Nat.zero_le _
    | some a => exact hbetween a (List.mem_of_getLast? hlast) b hb
  have hnone : entries.filter (fun a ↦ after key entries ≤ key a) = [] := by
    refine List.filter_eq_nil_iff.mpr fun b hb ↦ ?_
    obtain ⟨front, a, rfl⟩ := (List.eq_nil_or_concat' entries).resolve_left (List.ne_nil_of_mem hb)
    rw [after_append, decide_eq_true_eq]
    rcases List.mem_append.mp hb with hfront | hlast
    · have hlt := (List.pairwise_append.mp hentries).2.2 b hfront a (List.mem_singleton_self a)
      omega
    · rw [List.mem_singleton.mp hlast]
      omega
  rw [hrest, hnone, List.nil_append]

theorem InOrder.answer_eq (hserver : server.Lawful key limit) (h : InOrder server key calls s) :
    server.answer s.server s.offset = (s.posted.drop s.begun.length).take limit := by
  obtain ⟨n, hle, hkeeps⟩ := h.kept
  obtain ⟨rest, hrest⟩ := h.begun
  have hsorted := h.sorted
  rw [← hrest] at hsorted
  rw [hkeeps.answer_eq hserver, max_eq_right hle, h.offset, ← hrest, filter_after hsorted,
    List.drop_left]

theorem InOrder.answer (hserver : server.Lawful key limit) (h : InOrder server key calls s) :
    s.begun ++ server.answer s.server s.offset <+: s.posted := by
  obtain ⟨rest, hrest⟩ := h.begun
  rw [h.answer_eq hserver, ← hrest, List.drop_left]
  exact (List.prefix_append_right_inj _).mpr (List.take_prefix _ _)

theorem InOrder.offset_le (h : InOrder server key calls s) (ha : s.begun ++ a :: rest <+: s.posted) :
    s.offset ≤ key a + 1 := by
  have hsorted := h.sorted.sublist ha.sublist
  rw [h.offset, after]
  cases hlast : s.begun.getLast? with
  | none => exact Nat.zero_le _
  | some b =>
    have hlt := (List.pairwise_append.mp hsorted).2.2 b (List.mem_of_getLast? hlast) a
      List.mem_cons_self
    exact Nat.le_of_lt (Nat.succ_lt_succ hlt)

theorem InOrder.offset_le_key (h : InOrder server key calls s)
    (hlast : ∀ b ∈ s.posted, key b < key a) : s.offset ≤ key a := by
  rw [h.offset, after]
  cases hbegun : s.begun.getLast? with
  | none => exact Nat.zero_le _
  | some b => exact hlast b (h.begun.subset (List.mem_of_getLast? hbegun))

def Advances (calls : α → List β) (s s' : Inbox σ α β) : Prop :=
  ∃ entries, s'.begun = s.begun ++ entries ∧
    s'.issued ++ s'.remaining = s.issued ++ s.remaining ++ entries.flatMap calls

theorem Advances.of_same (hbegun : s'.begun = s.begun) (hissued : s'.issued = s.issued)
    (hremaining : s'.remaining = s.remaining) : Advances calls s s' :=
  ⟨[], by rw [hbegun, List.append_nil], by
    rw [hissued, hremaining, List.flatMap_nil, List.append_nil]⟩

theorem Advances.issued (h : Advances calls s s')
    (hissued : s.issued ++ s.remaining <+ s.begun.flatMap calls) :
    s'.issued ++ s'.remaining <+ s'.begun.flatMap calls := by
  obtain ⟨entries, hbegun, heq⟩ := h
  rw [heq, hbegun, List.flatMap_append]
  exact hissued.append (List.Sublist.refl _)

theorem single_of_getElem? {poll poll' : Poll α β} (hpolls : s.polls = [poll'])
    (hpoll : s.polls[i]? = some poll) : i = 0 ∧ poll' = poll := by
  rw [hpolls] at hpoll
  cases i with
  | zero => exact ⟨rfl, Option.some.inj hpoll⟩
  | succ i => cases hpoll

theorem InOrder.single (h : InOrder server key calls s) {poll : Poll α β}
    (hpoll : s.polls[i]? = some poll) : i = 0 ∧ s.polls = [poll] ∧ Continues s poll := by
  rcases h.polls with hnone | ⟨poll', hpolls, hcontinues⟩
  · rw [hnone] at hpoll
    cases hpoll
  · obtain ⟨rfl, rfl⟩ := single_of_getElem? hpolls hpoll
    exact ⟨rfl, hpolls, hcontinues⟩

theorem InOrder.resume (h : InOrder server key calls s)
    (hpoll : s.polls[i]? = some (.handling pending rest)) :
    InOrder server key calls (s.resume key calls i pending rest) ∧
      Advances calls s (s.resume key calls i pending rest) := by
  obtain ⟨rfl, hpolls, hcontinues⟩ := h.single hpoll
  cases pending with
  | cons c pending =>
    have hadvances : Advances calls s (s.resume key calls 0 (c :: pending) rest) := by
      refine ⟨[], (List.append_nil _).symm, ?_⟩
      rw [List.flatMap_nil, List.append_nil]
      simp only [Inbox.resume, Reader.proceed, remaining, hpolls, List.set_cons_zero, List.tail_cons,
        List.append_assoc]
      cases pending <;> rfl
    refine ⟨⟨h.sorted, h.begun, h.offset, h.sent, h.kept, .inr ⟨.handling pending rest, ?_,
      hcontinues⟩, hadvances.issued h.issued⟩, hadvances⟩
    simp only [Inbox.resume, Reader.proceed, hpolls, List.set_cons_zero]
  | nil =>
    cases rest with
    | nil =>
      have hadvances : Advances calls s (s.resume key calls 0 [] []) := by
        refine .of_same rfl rfl ?_
        simp only [Inbox.resume, Reader.proceed, remaining, hpolls, List.eraseIdx_cons_zero,
          List.tail_nil]
      refine ⟨⟨h.sorted, h.begun, h.offset, h.sent, h.kept, .inl ?_,
        hadvances.issued h.issued⟩, hadvances⟩
      simp only [Inbox.resume, Reader.proceed, hpolls, List.eraseIdx_cons_zero]
    | cons a rest =>
      have hadvances : Advances calls s (s.resume key calls 0 [] (a :: rest)) := by
        refine ⟨[a], rfl, ?_⟩
        simp only [Inbox.resume, Reader.proceed, remaining, hpolls, List.set_cons_zero, List.tail_nil,
          List.append_nil, List.append_assoc, List.flatMap_singleton]
        cases calls a <;> rfl
      have hle := h.offset_le hcontinues
      have hstill : (s.begun ++ [a]) ++ rest <+: s.posted := by
        rwa [List.append_assoc, List.singleton_append]
      obtain ⟨n, hn, hkeeps⟩ := h.kept
      refine ⟨⟨h.sorted, (List.prefix_append _ _).trans hstill, (after_append _ _).symm,
        fun offset hmem ↦ (h.sent offset hmem).trans hle, ⟨n, hn.trans hle, hkeeps⟩,
        .inr ⟨.handling (calls a) rest, ?_, hstill⟩, hadvances.issued h.issued⟩, hadvances⟩
      simp only [Inbox.resume, Reader.proceed, hpolls, List.set_cons_zero]

theorem InOrder.drop (h : InOrder server key calls s) {reader : Reader α β}
    (hpolls : reader.polls = []) (hbegun : reader.begun = s.begun)
    (hoffset : reader.offset = s.offset) (hissued : reader.issued = s.issued) :
    InOrder server key calls { s with toReader := reader } where
  sorted := h.sorted
  begun := by rw [hbegun]; exact h.begun
  offset := by rw [hoffset, hbegun]; exact h.offset
  sent := by rw [hoffset]; exact h.sent
  kept := by rw [hoffset]; exact h.kept
  polls := .inl hpolls
  issued := by
    simp only [remaining, hpolls, hissued, hbegun, List.append_nil]
    exact (List.sublist_append_left _ _).trans h.issued

theorem InOrder.post (hserver : server.Lawful key limit) (h : InOrder server key calls s)
    (hlast : ∀ b ∈ s.posted, key b < key a) :
    InOrder server key calls
        { s with server := server.post s.server a, posted := s.posted ++ [a] } ∧
      Advances calls s
        { s with server := server.post s.server a, posted := s.posted ++ [a] } := by
  have hsame : Advances calls s
      { s with server := server.post s.server a, posted := s.posted ++ [a] } :=
    .of_same rfl rfl rfl
  obtain ⟨n, hn, hkeeps⟩ := h.kept
  have hle : n ≤ key a := hn.trans (h.offset_le_key hlast)
  refine ⟨⟨sorted_append h.sorted hlast, h.begun.trans (List.prefix_append _ _), h.offset, h.sent,
    ⟨n, hn, hkeeps.post hserver hle⟩, ?_, hsame.issued h.issued⟩, hsame⟩
  refine h.polls.imp_right fun ⟨poll, hpolls, hcontinues⟩ ↦ ⟨poll, hpolls, ?_⟩
  cases poll with
  | asked offset => exact hcontinues
  | handling pending rest => exact List.IsPrefix.trans hcontinues (List.prefix_append _ _)

theorem InOrder.poll (h : InOrder server key calls s) (hnone : s.polls = []) :
    InOrder server key calls { s with toReader := s.poll, sent := s.offset :: s.sent } ∧
      Advances calls s { s with toReader := s.poll, sent := s.offset :: s.sent } := by
  simp only [Reader.poll, hnone, List.nil_append]
  have hsame : Advances calls s { s with
      polls := [.asked s.offset]
      sent := s.offset :: s.sent } := by
    refine .of_same rfl rfl ?_
    simp only [remaining, hnone]
  refine ⟨⟨h.sorted, h.begun, h.offset, fun offset hmem ↦ ?_, h.kept,
    .inr ⟨.asked s.offset, rfl, rfl⟩, hsame.issued h.issued⟩, hsame⟩
  rcases List.mem_cons.mp hmem with rfl | hold
  · exact le_rfl
  · exact h.sent offset hold

theorem InOrder.serve (hserver : server.Lawful key limit) (h : InOrder server key calls s)
    (hpolls : s.polls = [.asked s.offset]) :
    InOrder server key calls { s with
        server := server.confirm s.server s.offset
        polls := [.handling [] (server.answer s.server s.offset)] } ∧
      Advances calls s { s with
        server := server.confirm s.server s.offset
        polls := [.handling [] (server.answer s.server s.offset)] } := by
  have hsame : Advances calls s { s with
      server := server.confirm s.server s.offset
      polls := [.handling [] (server.answer s.server s.offset)] } := by
    refine .of_same rfl rfl ?_
    simp only [remaining, hpolls, List.tail_nil]
  obtain ⟨n, hn, hkeeps⟩ := h.kept
  exact ⟨⟨h.sorted, h.begun, h.offset, h.sent, ⟨_, max_le hn le_rfl, hkeeps.confirm hserver⟩,
    .inr ⟨.handling [] (server.answer s.server s.offset), rfl, h.answer hserver⟩,
    hsame.issued h.issued⟩, hsame⟩

theorem InOrder.step (hserver : server.Lawful key limit) (h : InOrder server key calls s)
    (hrises : Rises key s e) (halone : Alone s e) (hstep : s.step server key calls e = some s') :
    InOrder server key calls s' ∧ (Answered s e → Advances calls s s') := by
  cases e with
  | post a =>
    cases hstep
    exact (h.post hserver hrises).imp_right fun hsame _ ↦ hsame
  | poll =>
    cases hstep
    exact (h.poll halone).imp_right fun hsame _ ↦ hsame
  | serve i =>
    simp only [Inbox.step] at hstep
    split at hstep
    case h_1 offset hpoll =>
      cases hstep
      obtain ⟨rfl, hpolls, hoffset⟩ := h.single hpoll
      obtain rfl : offset = s.offset := hoffset
      rw [Reader.receive, hpolls, List.set_cons_zero]
      exact (h.serve hserver hpolls).imp_right fun hsame _ ↦ hsame
    case h_2 => cases hstep
  | late offset =>
    simp only [Inbox.step, Option.ite_none_right_eq_some, Option.some.injEq] at hstep
    obtain ⟨hsent, rfl⟩ := hstep
    have hsame : Advances calls s { s with server := server.confirm s.server offset } :=
      .of_same rfl rfl rfl
    obtain ⟨n, hn, hkeeps⟩ := h.kept
    exact ⟨⟨h.sorted, h.begun, h.offset, h.sent,
      ⟨_, max_le hn (h.sent offset hsent), hkeeps.confirm hserver⟩, h.polls,
      hsame.issued h.issued⟩, fun _ ↦ hsame⟩
  | resume i =>
    simp only [Inbox.step] at hstep
    split at hstep
    case h_1 pending rest hpoll =>
      cases hstep
      obtain ⟨hinOrder, hadvances⟩ := h.resume hpoll
      exact ⟨hinOrder, fun _ ↦ hadvances⟩
    case h_2 => cases hstep
  | fail i =>
    simp only [Inbox.step, Option.ite_none_right_eq_some, Option.some.injEq] at hstep
    obtain ⟨hlt, rfl⟩ := hstep
    obtain ⟨poll, hpoll⟩ : ∃ poll, s.polls[i]? = some poll := ⟨_, List.getElem?_eq_getElem hlt⟩
    obtain ⟨rfl, hpolls, -⟩ := h.single hpoll
    have hdropped : (s.giveUp 0).polls = [] := by
      rw [Reader.giveUp, hpolls, List.eraseIdx_cons_zero]
    refine ⟨h.drop hdropped rfl rfl rfl, fun hanswered ↦ .of_same rfl rfl ?_⟩
    simp only [remaining, hdropped, hpolls]
    cases poll with
    | asked offset => rfl
    | handling pending rest =>
      cases pending with
      | nil => rfl
      | cons c pending => exact absurd hpoll (hanswered c pending rest)
  | restart => exact absurd halone id

theorem inOrder_start (hserver : server.Lawful key limit) (calls : α → List β) :
    InOrder server key calls (start server) :=
  ⟨.nil, List.prefix_rfl, rfl, fun _ hmem ↦ absurd hmem List.not_mem_nil,
    ⟨0, le_rfl, hserver.kept_new⟩, .inl rfl, List.Sublist.refl _⟩

theorem inOrder_of_reach (hserver : server.Lawful key limit)
    (h : Reach (step server key calls) (fun s e ↦ Rises key s e ∧ Alone s e) (start server) s) :
    InOrder server key calls s :=
  h.invariant (inOrder_start hserver calls) fun _ _ _ hs hguard hstep ↦
    (hs.step hserver hguard.1 hguard.2 hstep).1

/-- As long as the calls are answered, every one is made, in the order of the entries. -/
theorem issued_of_reach (hserver : server.Lawful key limit)
    (h : Reach (step server key calls) (fun s e ↦ (Rises key s e ∧ Alone s e) ∧ Answered s e)
      (start server) s) :
    s.issued ++ s.remaining = s.begun.flatMap calls := by
  have hboth : InOrder server key calls s ∧ s.issued ++ s.remaining = s.begun.flatMap calls := by
    refine h.invariant (I := fun s ↦ InOrder server key calls s ∧
      s.issued ++ s.remaining = s.begun.flatMap calls) ⟨inOrder_start hserver calls, rfl⟩
      fun s e s' hs hguard hstep ↦ ?_
    obtain ⟨⟨hrises, halone⟩, hanswered⟩ := hguard
    obtain ⟨hinOrder, hadvances⟩ := hs.1.step hserver hrises halone hstep
    obtain ⟨entries, hbegun, hissued⟩ := hadvances hanswered
    exact ⟨hinOrder, by rw [hissued, hs.2, hbegun, List.flatMap_append]⟩
  exact hboth.2

section Progress

variable (server key calls)

/-- Steps of an undisturbed poll. -/
abbrev Runs (s s' : Inbox σ α β) : Prop :=
  Reach (step server key calls) (fun s e ↦ (Rises key s e ∧ Alone s e) ∧ Answered s e) s s'

theorem runs_resume (hpolls : s.polls = [.handling pending rest]) :
    Runs server key calls s (s.resume key calls 0 pending rest) := by
  refine Reach.single (e := .resume 0) ⟨⟨trivial, trivial⟩, trivial⟩ ?_
  simp only [Inbox.step, hpolls, List.getElem?_cons_zero]

theorem runs_calls (hpolls : s.polls = [.handling pending rest]) :
    ∃ s', Runs server key calls s s' ∧ s'.polls = [.handling [] rest] ∧ s'.posted = s.posted ∧
      s'.begun = s.begun := by
  induction pending generalizing s with
  | nil => exact ⟨s, .refl, hpolls, rfl, rfl⟩
  | cons c pending ih =>
    have hnext : (s.resume key calls 0 (c :: pending) rest).polls = [.handling pending rest] := by
      simp only [Inbox.resume, Reader.proceed, hpolls, List.set_cons_zero]
    obtain ⟨s', hruns, hpolls', hposted, hbegun⟩ := ih hnext
    exact ⟨s', (runs_resume server key calls hpolls).trans hruns, hpolls', hposted, hbegun⟩

theorem runs_rest (hpolls : s.polls = [.handling [] rest]) :
    ∃ s', Runs server key calls s s' ∧ s'.polls = [] ∧ s'.posted = s.posted ∧
      s'.begun = s.begun ++ rest := by
  induction rest generalizing s with
  | nil =>
    refine ⟨_, runs_resume server key calls hpolls, ?_, rfl, (List.append_nil _).symm⟩
    simp only [Inbox.resume, Reader.proceed, hpolls, List.eraseIdx_cons_zero]
  | cons a rest ih =>
    have hnext : (s.resume key calls 0 [] (a :: rest)).polls = [.handling (calls a) rest] := by
      simp only [Inbox.resume, Reader.proceed, hpolls, List.set_cons_zero]
    obtain ⟨t, hruns, hpolls', hposted, hbegun⟩ := runs_calls server key calls hnext
    obtain ⟨s', hruns', hdone, hposted', hbegun'⟩ := ih hpolls'
    refine ⟨s', ((runs_resume server key calls hpolls).trans hruns).trans hruns', hdone,
      hposted'.trans hposted, ?_⟩
    rw [hbegun', hbegun]
    exact List.append_assoc _ _ _

/-- One undisturbed poll takes up the next entries, as many as an answer holds. -/
theorem InOrder.exists_poll (hserver : server.Lawful key limit) (h : InOrder server key calls s)
    (hidle : s.polls = []) :
    ∃ s', Runs server key calls s s' ∧ s'.polls = [] ∧ s'.posted = s.posted ∧
      s'.begun = s.begun ++ (s.posted.drop s.begun.length).take limit := by
  let asked : Inbox σ α β := { s with polls := [.asked s.offset], sent := s.offset :: s.sent }
  let served : Inbox σ α β := { asked with
    server := server.confirm s.server s.offset
    polls := [.handling [] (server.answer s.server s.offset)] }
  have hasked : Runs server key calls s asked := by
    refine Reach.single (e := .poll) ⟨⟨trivial, hidle⟩, trivial⟩ ?_
    simp only [Inbox.step, Reader.poll, hidle, List.nil_append, asked]
  have hserved : Runs server key calls asked served := by
    refine Reach.single (e := .serve 0) ⟨⟨trivial, trivial⟩, trivial⟩ ?_
    simp only [Inbox.step, Reader.receive, asked, List.getElem?_cons_zero, List.set_cons_zero]
    rfl
  obtain ⟨s', hruns, hdone, hposted, hbegun⟩ := runs_rest server key calls (s := served) rfl
  exact ⟨s', (hasked.trans hserved).trans hruns, hdone, hposted,
    by rw [hbegun, h.answer_eq hserver]⟩

end Progress

end InOrder

end Inbox

end ElektronPool.Lib
