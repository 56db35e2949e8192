import Mathlib.Tactic.Common

namespace ElektronPool.Lib

/-- Regular expressions; a group captures what it matches. -/
inductive Regex (α : Type*)
  | one (p : α → Bool)
  | seq (r s : Regex α)
  | alt (r s : Regex α)
  | star (r : Regex α)
  | group (r : Regex α)

namespace Regex

variable {α : Type*}

structure Match (α : Type*) where
  captures : List (List α)
  rest : List α

def Match.after (m : Match α) (captures : List (List α)) : Match α :=
  { m with captures := captures ++ m.captures }

@[simp] theorem Match.after_nil (m : Match α) : m.after [] = m := rfl

/-- As many rounds as the text allows, then one less, and so on; a round that takes
nothing does not count. -/
def rounds (f : List α → List (Match α)) : ℕ → List α → List (Match α)
  | 0, cs => [⟨[], cs⟩]
  | n + 1, cs =>
    ((f cs).filter fun m ↦ decide (m.rest.length < cs.length)).flatMap
      (fun m ↦ (rounds f n m.rest).map fun m' ↦ m'.after m.captures) ++ [⟨[], cs⟩]

/-- The matches at the start of a text, in the order a backtracking matcher tries them. -/
def results : Regex α → List α → List (Match α)
  | .one _, [] => []
  | .one p, c :: cs => if p c then [⟨[], cs⟩] else []
  | .seq r s, cs => (r.results cs).flatMap fun m ↦
      (s.results m.rest).map fun m' ↦ m'.after m.captures
  | .alt r s, cs => r.results cs ++ s.results cs
  | .star r, cs => rounds r.results cs.length cs
  | .group r, cs => (r.results cs).map fun m ↦
      { m with captures := m.captures ++ [cs.take (cs.length - m.rest.length)] }

/-- `text.matchAll(r)`: the leftmost match, then the leftmost in what is left. -/
def matchAll (r : Regex α) : ℕ → List α → List (List (List α))
  | 0, _ => []
  | n + 1, cs =>
    match (r.results cs).head?, cs with
    | some m, [] => [m.captures]
    | some m, _ :: tail =>
      m.captures :: matchAll r n (if m.rest.length < cs.length then m.rest else tail)
    | none, [] => []
    | none, _ :: tail => matchAll r n tail

theorem rounds_of_one {f : List α → List (Match α)} {n : ℕ} {cs rest : List α}
    (h : f cs = [⟨[], rest⟩]) (hlt : rest.length < cs.length) :
    rounds f (n + 1) cs = rounds f n rest ++ [⟨[], cs⟩] := by
  simp [rounds, h, hlt]

theorem rounds_of_nil {f : List α → List (Match α)} {cs : List α} (n : ℕ) (h : f cs = []) :
    rounds f n cs = [⟨[], cs⟩] := by
  cases n with
  | zero => rfl
  | succ n => simp [rounds, h]

theorem matchAll_cons_of_none {r : Regex α} {c : α} {cs : List α} {n : ℕ}
    (h : (r.results (c :: cs)).head? = none) : matchAll r (n + 1) (c :: cs) = matchAll r n cs := by
  simp only [matchAll, h]

theorem matchAll_cons_of_some {r : Regex α} {c : α} {cs : List α} {m : Match α} {n : ℕ}
    (h : (r.results (c :: cs)).head? = some m) (hlt : m.rest.length < cs.length + 1) :
    matchAll r (n + 1) (c :: cs) = m.captures :: matchAll r n m.rest := by
  simp only [matchAll, h, List.length_cons, if_pos hlt]

end Regex

end ElektronPool.Lib
