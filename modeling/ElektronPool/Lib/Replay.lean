import Mathlib.Data.List.Induction
import Mathlib.Data.List.Nodup
import Mathlib.Order.Nat

namespace ElektronPool.Lib

/-- A stream that listeners share, numbered as they come, with what each has heard. -/
structure Multicast (S α : Type) where
  new : S
  next : S → α → S
  subscribe : S → S
  unsubscribe : S → ℕ → S
  latest : S → Option α
  listeners : S → List ℕ
  count : S → ℕ
  heard : S → ℕ → List α

namespace Multicast

variable {S α : Type}

/-- A value goes to all who listen, and the latest one to whoever comes. -/
structure Lawful (rx : Multicast S α) : Prop where
  latest_new : rx.latest rx.new = none
  listeners_new : rx.listeners rx.new = []
  count_new : rx.count rx.new = 0
  latest_next : ∀ s a, rx.latest (rx.next s a) = some a
  listeners_next : ∀ s a, rx.listeners (rx.next s a) = rx.listeners s
  count_next : ∀ s a, rx.count (rx.next s a) = rx.count s
  heard_next : ∀ s a id, rx.heard (rx.next s a) id =
    if id ∈ rx.listeners s then rx.heard s id ++ [a] else rx.heard s id
  latest_subscribe : ∀ s, rx.latest (rx.subscribe s) = rx.latest s
  listeners_subscribe : ∀ s, rx.listeners (rx.subscribe s) = rx.listeners s ++ [rx.count s]
  count_subscribe : ∀ s, rx.count (rx.subscribe s) = rx.count s + 1
  heard_subscribe : ∀ s id, rx.heard (rx.subscribe s) id =
    if id = rx.count s then (rx.latest s).toList else rx.heard s id
  latest_unsubscribe : ∀ s id, rx.latest (rx.unsubscribe s id) = rx.latest s
  listeners_unsubscribe : ∀ s id, rx.listeners (rx.unsubscribe s id) = (rx.listeners s).erase id
  count_unsubscribe : ∀ s id, rx.count (rx.unsubscribe s id) = rx.count s
  heard_unsubscribe : ∀ s id, rx.heard (rx.unsubscribe s id) = rx.heard s

inductive Event (α : Type)
  | next (a : α)
  | subscribe
  | unsubscribe (id : ℕ)

/-- What was emitted, and how much of it when each listener came and went. -/
structure History (α : Type) where
  emitted : List α := []
  joined : ℕ → ℕ := fun _ ↦ 0
  left : ℕ → Option ℕ := fun _ ↦ none

def History.note (history : History α) (count : ℕ) : Event α → History α
  | .next a => { history with emitted := history.emitted ++ [a] }
  | .subscribe =>
    { history with joined := Function.update history.joined count history.emitted.length }
  | .unsubscribe id =>
    { history with left := Function.update history.left id (some history.emitted.length) }

/-- The last value emitted before a listener came, and every one until it went. -/
def History.due (history : History α) (id : ℕ) : List α :=
  (history.emitted.take ((history.left id).getD history.emitted.length)).drop (history.joined id - 1)

structure Follows (rx : Multicast S α) (s : S) (history : History α) : Prop where
  latest : rx.latest s = history.emitted.getLast?
  nodup : (rx.listeners s).Nodup
  listening : ∀ id, id ∈ rx.listeners s ↔ id < rx.count s ∧ history.left id = none
  joined : ∀ id, id < rx.count s →
    history.joined id ≤ (history.left id).getD history.emitted.length
  left : ∀ id m, history.left id = some m → id < rx.count s ∧ m ≤ history.emitted.length
  heard : ∀ id, id < rx.count s → rx.heard s id = history.due id

variable {rx : Multicast S α} {s : S} {history : History α} {a : α} {id : ℕ}

theorem drop_length_sub_one (l : List α) : l.drop (l.length - 1) = l.getLast?.toList := by
  cases l using List.reverseRecOn with
  | nil => rfl
  | append_singleton l a => simp

namespace Follows

theorem new (hrx : rx.Lawful) : Follows rx rx.new {} := by
  refine ⟨hrx.latest_new, ?_, fun id ↦ ?_, fun id hid ↦ ?_, fun id m hm ↦ ?_, fun id hid ↦ ?_⟩
  · rw [hrx.listeners_new]
    exact List.nodup_nil
  · simp [hrx.listeners_new, hrx.count_new]
  · rw [hrx.count_new] at hid
    exact absurd hid (Nat.not_lt_zero id)
  · cases hm
  · rw [hrx.count_new] at hid
    exact absurd hid (Nat.not_lt_zero id)

theorem due_next_of_mem (h : Follows rx s history) (hid : id ∈ rx.listeners s) (count : ℕ) (a : α) :
    (history.note count (.next a)).due id = history.due id ++ [a] := by
  obtain ⟨hlt, hleft⟩ := (h.listening id).mp hid
  have hjoined := h.joined id hlt
  rw [hleft, Option.getD_none] at hjoined
  simp only [History.due, History.note, hleft, Option.getD_none, List.take_length]
  rw [List.drop_append_of_le_length (by omega)]

theorem due_next_of_not_mem (h : Follows rx s history) (hlt : id < rx.count s)
    (hid : id ∉ rx.listeners s) (count : ℕ) (a : α) :
    (history.note count (.next a)).due id = history.due id := by
  obtain ⟨m, hleft⟩ : ∃ m, history.left id = some m := by
    rw [← Option.isSome_iff_exists, Option.isSome_iff_ne_none]
    exact fun hnone ↦ hid ((h.listening id).mpr ⟨hlt, hnone⟩)
  have hm := (h.left id m hleft).2
  simp only [History.due, History.note, hleft, Option.getD_some]
  rw [List.take_append_of_le_length hm]

theorem next (hrx : rx.Lawful) (h : Follows rx s history) (a : α) :
    Follows rx (rx.next s a) (history.note (rx.count s) (.next a)) := by
  have hlength : history.emitted.length ≤
      (history.note (rx.count s) (.next a)).emitted.length := by
    simp [History.note]
  constructor
  · simp [hrx.latest_next, History.note]
  · rw [hrx.listeners_next]
    exact h.nodup
  · intro id
    rw [hrx.listeners_next, hrx.count_next]
    exact h.listening id
  · intro id hid
    rw [hrx.count_next] at hid
    have hle := h.joined id hid
    change history.joined id ≤ (history.left id).getD _
    cases hleft : history.left id with
    | none =>
      rw [hleft, Option.getD_none] at hle
      exact hle.trans hlength
    | some m =>
      rw [hleft, Option.getD_some] at hle
      exact hle
  · intro id m hm
    rw [hrx.count_next]
    exact ⟨(h.left id m hm).1, (h.left id m hm).2.trans hlength⟩
  · intro id hid
    rw [hrx.count_next] at hid
    rw [hrx.heard_next]
    split
    case isTrue hmem => rw [h.heard id hid, h.due_next_of_mem hmem]
    case isFalse hmem => rw [h.heard id hid, h.due_next_of_not_mem hid hmem]

theorem left_count (h : Follows rx s history) : history.left (rx.count s) = none := by
  cases hleft : history.left (rx.count s) with
  | none => rfl
  | some m => exact absurd (h.left _ _ hleft).1 (lt_irrefl _)

theorem due_subscribe (h : Follows rx s history) :
    (history.note (rx.count s) .subscribe).due (rx.count s) = history.emitted.getLast?.toList := by
  simp only [History.due, History.note, Function.update_self, h.left_count, Option.getD_none,
    List.take_length, drop_length_sub_one]

theorem subscribe (hrx : rx.Lawful) (h : Follows rx s history) :
    Follows rx (rx.subscribe s) (history.note (rx.count s) .subscribe) := by
  have hjoined : ∀ id, id < rx.count s →
      (history.note (rx.count s) .subscribe).joined id = history.joined id :=
    fun id hid ↦ Function.update_of_ne (Nat.ne_of_lt hid) _ _
  constructor
  · rw [hrx.latest_subscribe]
    exact h.latest
  · rw [hrx.listeners_subscribe, List.nodup_append]
    refine ⟨h.nodup, List.nodup_singleton _, ?_⟩
    intro id hid id' hid'
    rw [List.mem_singleton.mp hid']
    exact Nat.ne_of_lt ((h.listening id).mp hid).1
  · intro id
    simp only [hrx.listeners_subscribe, hrx.count_subscribe, List.mem_append, List.mem_singleton,
      h.listening, History.note]
    constructor
    · rintro (⟨hlt, hleft⟩ | rfl)
      · exact ⟨by omega, hleft⟩
      · exact ⟨by omega, h.left_count⟩
    · rintro ⟨hlt, hleft⟩
      rcases Nat.lt_succ_iff_lt_or_eq.mp hlt with hlt | rfl
      · exact .inl ⟨hlt, hleft⟩
      · exact .inr rfl
  · intro id hid
    rw [hrx.count_subscribe] at hid
    rcases Nat.lt_succ_iff_lt_or_eq.mp hid with hlt | rfl
    · rw [hjoined id hlt]
      exact h.joined id hlt
    · simp [History.note, h.left_count]
  · intro id m hm
    obtain ⟨hlt, hle⟩ := h.left id m hm
    rw [hrx.count_subscribe]
    exact ⟨by omega, hle⟩
  · intro id hid
    rw [hrx.count_subscribe] at hid
    rw [hrx.heard_subscribe]
    split
    case isTrue heq => rw [heq, h.due_subscribe, h.latest]
    case isFalse hne =>
      have hlt : id < rx.count s := by omega
      rw [h.heard id hlt, History.due, History.due, hjoined id hlt]
      rfl

theorem unsubscribe (hrx : rx.Lawful) (h : Follows rx s history) (hid : id ∈ rx.listeners s) :
    Follows rx (rx.unsubscribe s id) (history.note (rx.count s) (.unsubscribe id)) := by
  obtain ⟨hlt, hleft⟩ := (h.listening id).mp hid
  have hne : ∀ id', id' ≠ id →
      (history.note (rx.count s) (.unsubscribe id)).left id' = history.left id' :=
    fun id' hne ↦ Function.update_of_ne hne _ _
  have hself : (history.note (rx.count s) (.unsubscribe id)).left id =
      some history.emitted.length := Function.update_self _ _ _
  constructor
  · rw [hrx.latest_unsubscribe]
    exact h.latest
  · rw [hrx.listeners_unsubscribe]
    exact h.nodup.erase id
  · intro id'
    rw [hrx.listeners_unsubscribe, hrx.count_unsubscribe, h.nodup.mem_erase_iff, h.listening]
    by_cases heq : id' = id
    · subst heq
      simp [hself]
    · simp [heq, hne id' heq]
  · intro id' hid'
    rw [hrx.count_unsubscribe] at hid'
    have hle := h.joined id' hid'
    by_cases heq : id' = id
    · subst heq
      rw [hleft] at hle
      rw [hself]
      exact hle
    · rw [hne id' heq]
      exact hle
  · intro id' m hm
    rw [hrx.count_unsubscribe]
    by_cases heq : id' = id
    · subst heq
      rw [hself] at hm
      exact ⟨hlt, (Option.some.inj hm).ge⟩
    · rw [hne id' heq] at hm
      exact h.left id' m hm
  · intro id' hid'
    rw [hrx.count_unsubscribe] at hid'
    rw [hrx.heard_unsubscribe, h.heard id' hid', History.due, History.due]
    by_cases heq : id' = id
    · subst heq
      rw [hself, hleft]
      rfl
    · rw [hne id' heq]
      rfl

end Follows

end Multicast

/-- A behaviour subject that starts without a value, shared by reference count with a
replay buffer of one: its value, the connection to it, and what every listener has heard. -/
structure Replay (α : Type) where
  value : Option α := none
  connected : Bool := false
  buffer : Option α := none
  listeners : List ℕ := []
  count : ℕ := 0
  heard : ℕ → List α := fun _ ↦ []

namespace Replay

variable {α : Type} (s : Replay α)

def pass (a : α) : Replay α :=
  if s.connected then
    { s with
      buffer := some a
      heard := fun id ↦ if id ∈ s.listeners then s.heard id ++ [a] else s.heard id }
  else s

def next (a : α) : Replay α := { s with value := some a }.pass a

/-- A new connection hears the value that the subject has. -/
def connect : Replay α :=
  if s.connected then s
  else
    match s.value with
    | some a => { s with connected := true }.pass a
    | none => { s with connected := true }

/-- The buffer is replayed to a new listener, and the first one connects. -/
def subscribe : Replay α :=
  { s with
    listeners := s.listeners ++ [s.count]
    count := s.count + 1
    heard := fun id ↦ if id = s.count then s.buffer.toList else s.heard id }.connect

/-- The last listener to leave takes the connection and its buffer away. -/
def unsubscribe (id : ℕ) : Replay α :=
  let listeners := s.listeners.erase id
  if listeners = [] then { s with listeners, connected := false, buffer := none }
  else { s with listeners }

/-- There is a connection as long as anyone listens, and it has the value of the subject. -/
structure Coherent : Prop where
  connected : s.connected = !s.listeners.isEmpty
  buffer : s.buffer = if s.connected then s.value else none

variable {s}

theorem Coherent.next_eq (h : s.Coherent) (a : α) : s.next a =
    { s with
      value := some a
      buffer := if s.connected then some a else none
      heard := fun id ↦ if id ∈ s.listeners then s.heard id ++ [a] else s.heard id } := by
  have hbuffer := h.buffer
  cases hconnected : s.connected with
  | true => simp [next, pass, hconnected]
  | false =>
    rw [hconnected, if_neg Bool.false_ne_true] at hbuffer
    have hempty : s.listeners = [] := by simpa [hconnected] using h.connected
    simp [next, pass, hconnected, hempty, hbuffer]

theorem Coherent.subscribe_eq (h : s.Coherent) : s.subscribe =
    { s with
      connected := true
      buffer := s.value
      listeners := s.listeners ++ [s.count]
      count := s.count + 1
      heard := fun id ↦ if id = s.count then s.value.toList else s.heard id } := by
  have hbuffer := h.buffer
  cases hconnected : s.connected with
  | true =>
    rw [hconnected, if_pos rfl] at hbuffer
    simp [subscribe, connect, hconnected, hbuffer]
  | false =>
    rw [hconnected, if_neg Bool.false_ne_true] at hbuffer
    have hempty : s.listeners = [] := by simpa [hconnected] using h.connected
    cases hvalue : s.value with
    | none => simp [subscribe, connect, hconnected, hvalue, hbuffer]
    | some a =>
      simp only [subscribe, connect, hconnected, hvalue, pass, hbuffer, hempty]
      simp only [Bool.false_eq_true, if_false, if_true, List.nil_append, List.mem_singleton,
        Option.toList_none, Option.toList_some]
      congr
      funext id
      split <;> simp_all

theorem Coherent.unsubscribe (h : s.Coherent) (id : ℕ) : (s.unsubscribe id).Coherent := by
  rw [Replay.unsubscribe]
  split
  case isTrue hempty => exact ⟨by simp [hempty], rfl⟩
  case isFalse hmore =>
    have hconnected : s.connected = true := by
      rw [h.connected]
      cases hlisteners : s.listeners with
      | nil => simp [hlisteners] at hmore
      | cons => rfl
    exact ⟨by simpa [hconnected] using hmore, h.buffer⟩

theorem Coherent.next (h : s.Coherent) (a : α) : (s.next a).Coherent := by
  rw [h.next_eq]
  exact ⟨h.connected, rfl⟩

theorem Coherent.subscribe (h : s.Coherent) : s.subscribe.Coherent := by
  rw [h.subscribe_eq]
  exact ⟨by simp, rfl⟩

end Replay

/-- The shared stream of RxJS. -/
def shareReplay {α : Type} : Multicast { s : Replay α // s.Coherent } α where
  new := ⟨{}, rfl, rfl⟩
  next s a := ⟨s.val.next a, s.property.next a⟩
  subscribe s := ⟨s.val.subscribe, s.property.subscribe⟩
  unsubscribe s id := ⟨s.val.unsubscribe id, s.property.unsubscribe id⟩
  latest s := s.val.value
  listeners s := s.val.listeners
  count s := s.val.count
  heard s := s.val.heard

theorem lawful_shareReplay {α : Type} : (shareReplay (α := α)).Lawful where
  latest_new := rfl
  listeners_new := rfl
  count_new := rfl
  latest_next s a := by simp only [shareReplay, s.property.next_eq]
  listeners_next s a := by simp only [shareReplay, s.property.next_eq]
  count_next s a := by simp only [shareReplay, s.property.next_eq]
  heard_next s a id := by
    simp only [shareReplay, s.property.next_eq]
    rfl
  latest_subscribe s := by simp only [shareReplay, s.property.subscribe_eq]
  listeners_subscribe s := by simp only [shareReplay, s.property.subscribe_eq]
  count_subscribe s := by simp only [shareReplay, s.property.subscribe_eq]
  heard_subscribe s id := by
    simp only [shareReplay, s.property.subscribe_eq]
    rfl
  latest_unsubscribe s id := by
    simp only [shareReplay, Replay.unsubscribe]
    split <;> rfl
  listeners_unsubscribe s id := by
    simp only [shareReplay, Replay.unsubscribe]
    split <;> rfl
  count_unsubscribe s id := by
    simp only [shareReplay, Replay.unsubscribe]
    split <;> rfl
  heard_unsubscribe s id := by
    simp only [shareReplay, Replay.unsubscribe]
    split <;> rfl

end ElektronPool.Lib
