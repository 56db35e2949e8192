import ElektronPool.Lib.Utf8
import Mathlib.Tactic.Common

namespace ElektronPool.Framing

open Lib Lib.Utf8

/-- The lines of a text that are not empty, and what is left after its last newline. -/
def frame (text : List Char) : List (List Char) × List Char :=
  let lines := text.splitOn '\n'
  (lines.dropLast.filter fun l ↦ 0 < l.length, lines.getLast?.getD [])

/-- The handler of the socket's data: the lines for `handleMessage`, and the buffer it leaves. -/
def onData (buffer : List Char) (data : Bytes) : List (List Char) × List Char :=
  frame (buffer ++ decode data)

/-- The lines and the last buffer of a stream that arrives in chunks. -/
def receive : List Char → List Bytes → List (List Char) × List Char
  | buffer, [] => ([], buffer)
  | buffer, data :: chunks =>
    let (lines, buffer) := onData buffer data
    let (later, buffer) := receive buffer chunks
    (lines ++ later, buffer)

section Lines

variable {text us vs : List Char}

theorem lines_induction {motive : List Char → Prop} (hrest : ∀ text, '\n' ∉ text → motive text)
    (hline : ∀ us vs, '\n' ∉ us → motive vs → motive (us ++ '\n' :: vs)) (text : List Char) :
    motive text := by
  induction h : text.length using Nat.strong_induction_on generalizing text with
  | _ n ih =>
    by_cases hmem : '\n' ∈ text
    · obtain ⟨us, vs, rfl, hus⟩ := List.eq_append_cons_of_mem hmem
      refine hline us vs hus (ih vs.length ?_ vs rfl)
      simp only [← h, List.length_append, List.length_cons]
      omega
    · exact hrest text hmem

theorem frame_of_not_mem (h : '\n' ∉ text) : frame text = ([], text) := by
  simp [frame, List.splitOn_eq_singleton h]

theorem frame_line (h : '\n' ∉ us) :
    frame (us ++ '\n' :: vs) = ([us].filter (fun l ↦ 0 < l.length) ++ (frame vs).1,
      (frame vs).2) := by
  have hne : vs.splitOn '\n' ≠ [] := List.splitOn_ne_nil _ _
  have hlines : (us ++ '\n' :: vs).splitOn '\n' = [us] ++ vs.splitOn '\n' := by
    rw [List.splitOn_append_cons_self, List.splitOn_eq_singleton h]
  simp only [frame, hlines, List.dropLast_append_of_ne_nil hne, List.filter_append,
    List.getLast?_append_of_ne_nil _ hne]

theorem not_mem_frame (text : List Char) : '\n' ∉ (frame text).2 := by
  induction text using lines_induction with
  | hrest text h => rwa [frame_of_not_mem h]
  | hline us vs hus ih => rwa [frame_line hus]

theorem frame_append (text more : List Char) :
    frame (text ++ more) = ((frame text).1 ++ (frame ((frame text).2 ++ more)).1,
      (frame ((frame text).2 ++ more)).2) := by
  induction text using lines_induction with
  | hrest text h => rw [frame_of_not_mem h, List.nil_append]
  | hline us vs hus ih =>
    rw [List.append_assoc, List.cons_append, frame_line hus, frame_line hus, ih, List.append_assoc]

theorem receive_eq {buffer : List Char} {chunks : List Bytes} (h : '\n' ∉ buffer) :
    receive buffer chunks = frame (buffer ++ chunks.flatMap decode) := by
  induction chunks generalizing buffer with
  | nil => rw [receive, List.flatMap_nil, List.append_nil, frame_of_not_mem h]
  | cons data chunks ih =>
    rw [List.flatMap_cons, ← List.append_assoc, frame_append, ← ih (not_mem_frame _)]
    rfl

def total (framed : List (List Char) × List Char) : ℕ :=
  (framed.1.map List.length).sum + framed.2.length

theorem visible_of_not_mem (h : '\n' ∉ text) : visible '\n' text = text.length := by
  rw [visible, List.countP_eq_length]
  intro c hc
  simpa using fun heq : c = '\n' ↦ h (heq ▸ hc)

theorem total_frame (text : List Char) : total (frame text) = visible '\n' text := by
  induction text using lines_induction with
  | hrest text h => simp [frame_of_not_mem h, total, visible_of_not_mem h]
  | hline us vs hus ih =>
    have hvisible : visible '\n' (us ++ '\n' :: vs) = us.length + visible '\n' vs := by
      rw [visible_append, visible_of_not_mem hus]
      rfl
    have hline : (([us].filter fun l ↦ 0 < l.length).map List.length).sum = us.length := by
      cases us <;> simp
    rw [hvisible, ← ih, frame_line hus]
    simp only [total, List.map_append, List.sum_append, hline]
    omega

end Lines

/-- A stream of text is framed as if it came in one chunk exactly when no cut is
inside a character. -/
theorem receive_eq_iff {chunks : List Bytes} (hstream : IsUtf8 chunks.flatten) :
    receive [] chunks = receive [] [chunks.flatten] ↔
      ∀ chunk ∈ chunks, IsUtf8 chunk := by
  have hnil : '\n' ∉ ([] : List Char) := List.not_mem_nil
  rw [receive_eq hnil, receive_eq hnil, List.nil_append, List.nil_append, List.flatMap_singleton]
  constructor
  · intro h
    by_contra hcut
    have hlt : visible '\n' (decode chunks.flatten) < visible '\n' (chunks.flatMap decode) :=
      visible_decode_lt (by decide) hstream hcut
    rw [← total_frame, ← total_frame, h] at hlt
    exact lt_irrefl _ hlt
  · intro h
    rw [flatMap_decode h]

theorem receive_eq_iff_whole :
    receive [] [encode ['é', '\n', 'a'], encode ['b', '\n']] =
        receive [] [[encode ['é', '\n', 'a'], encode ['b', '\n']].flatten] ↔
      ∀ chunk ∈ [encode ['é', '\n', 'a'], encode ['b', '\n']], IsUtf8 chunk :=
  receive_eq_iff ⟨['é', '\n', 'a', 'b', '\n'], by decide⟩

/-- The two bytes of a letter in two chunks become two replacements. -/
theorem not_receive_eq :
    ¬ ∀ chunks : List Bytes, IsUtf8 chunks.flatten →
      receive [] chunks = receive [] [chunks.flatten] := by
  intro h
  have hcut := h [[0xc3], [0xa9, 0x0a]] ⟨['é', '\n'], by decide⟩
  have hlines : receive [] [[0xc3], [0xa9, 0x0a]] = ([[replacement, replacement]], []) := by
    decide +kernel
  have hwhole : receive [] [[0xc3, 0xa9, 0x0a]] = ([['é']], []) := by decide +kernel
  exact absurd (hlines.symm.trans (hcut.trans hwhole)) (by decide)

end ElektronPool.Framing
