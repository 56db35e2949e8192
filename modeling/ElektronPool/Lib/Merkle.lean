import Mathlib.Data.List.ReduceOption
import Mathlib.Tactic.Common

namespace ElektronPool.Lib.Merkle

variable {α : Type*} (combine : α → α → α) {l : List α}

def nextLevel : List α → List α
  | x :: y :: rest => combine x y :: nextLevel rest
  | [x] => [combine x x]
  | [] => []

theorem length_nextLevel (l : List α) : (nextLevel combine l).length = (l.length + 1) / 2 := by
  induction l using nextLevel.induct with
  | case1 x y rest ih =>
    simp only [nextLevel, List.length_cons, ih]
    omega
  | case2 x => simp [nextLevel]
  | case3 => simp [nextLevel]

theorem length_nextLevel_lt (x y : α) (rest : List α) :
    (nextLevel combine (x :: y :: rest)).length < (x :: y :: rest).length := by
  rw [length_nextLevel]
  simp only [List.length_cons]
  omega

def root : List α → Option α
  | x :: y :: rest => root (nextLevel combine (x :: y :: rest))
  | [x] => some x
  | [] => none
termination_by l => l.length
decreasing_by exact length_nextLevel_lt combine x y rest

/-- The siblings of the first leaf and of the nodes above it. -/
def siblings : List α → List α
  | x :: y :: rest => y :: siblings (nextLevel combine (x :: y :: rest))
  | _ => []
termination_by l => l.length
decreasing_by exact length_nextLevel_lt combine x y rest

/-- The proof of the first leaf: its pair, then the sibling at each level above it
after the gap of the node that is computed, then the root. -/
def proof : List α → List (Option α)
  | x :: y :: rest =>
    some x :: some y ::
      (siblings combine (nextLevel combine (x :: y :: rest))).flatMap (fun s ↦ [none, some s]) ++
        [root combine (x :: y :: rest)]
  | l => l.map some

theorem siblings_cons_cons (x y : α) (rest : List α) :
    siblings combine (x :: y :: rest) =
      y :: siblings combine (combine x y :: nextLevel combine rest) := by
  rw [siblings, nextLevel]

theorem root_cons_cons (x y : α) (rest : List α) :
    root combine (x :: y :: rest) = root combine (combine x y :: nextLevel combine rest) := by
  rw [root, nextLevel]

theorem length_above_lt {n : ℕ} {y : α} {rest : List α} (h : (y :: rest).length < n + 1) :
    (nextLevel combine rest).length < n := by
  rw [length_nextLevel]
  rw [List.length_cons] at h
  omega

theorem siblings_cons (x x' : α) (l : List α) :
    siblings combine (x :: l) = siblings combine (x' :: l) := by
  obtain ⟨n, hn⟩ : ∃ n, l.length < n := ⟨_, Nat.lt_succ_self _⟩
  induction n generalizing x x' l with
  | zero => exact absurd hn (Nat.not_lt_zero _)
  | succ n ih =>
    cases l with
    | nil => rw [siblings, siblings] <;> simp
    | cons y rest =>
      rw [siblings_cons_cons, siblings_cons_cons]
      rw [ih (combine x y) (combine x' y) _ (length_above_lt combine hn)]

theorem root_cons (x : α) (l : List α) :
    root combine (x :: l) = some ((siblings combine (x :: l)).foldl combine x) := by
  obtain ⟨n, hn⟩ : ∃ n, l.length < n := ⟨_, Nat.lt_succ_self _⟩
  induction n generalizing x l with
  | zero => exact absurd hn (Nat.not_lt_zero _)
  | succ n ih =>
    cases l with
    | nil => rw [root, siblings] <;> simp
    | cons y rest =>
      rw [root_cons_cons, siblings_cons_cons, List.foldl_cons]
      exact ih _ _ (length_above_lt combine hn)

theorem reduceOption_flatMap_gap (l : List α) :
    (l.flatMap fun s ↦ [none, some s]).reduceOption = l := by
  induction l with
  | nil => rfl
  | cons s l ih =>
    rw [List.flatMap_cons, List.reduceOption_append, ih]
    rfl

theorem drop_dropLast_proof (x : α) (l : List α) :
    ((proof combine (x :: l)).reduceOption.dropLast).drop 1 = siblings combine (x :: l) := by
  cases l with
  | nil =>
    rw [siblings] <;> simp [proof, List.reduceOption]
  | cons y rest =>
    have hshape : (proof combine (x :: y :: rest)).reduceOption =
        x :: siblings combine (x :: y :: rest) ++
          [(siblings combine (x :: y :: rest)).foldl combine x] := by
      rw [proof, root_cons, siblings, List.cons_append, List.cons_append,
        List.reduceOption_cons_of_some, List.reduceOption_cons_of_some, List.reduceOption_append,
        reduceOption_flatMap_gap]
      rfl
    rw [hshape, List.dropLast_concat]
    rfl

end ElektronPool.Lib.Merkle
