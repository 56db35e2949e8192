import Mathlib.Data.List.Induction
import Mathlib.Tactic.Common

namespace ElektronPool.Lib.HashPath

variable {α β : Type*} (hash : β → α) (pair : α → α → β)

/-- The node over a message and the siblings on the way up. -/
def climb (message : β) (siblings : List α) : α :=
  siblings.foldl (fun node sibling ↦ hash (pair node sibling)) (hash message)

def hashed (message : β) : List α → List β
  | [] => [message]
  | sibling :: siblings => message :: hashed (pair (hash message) sibling) siblings

/-- Two of these inputs differ and have one hash. -/
def Collide (xs ys : List β) : Prop := ∃ x ∈ xs, ∃ y ∈ ys, x ≠ y ∧ hash x = hash y

instance [DecidableEq α] [DecidableEq β] (xs ys : List β) : Decidable (Collide hash xs ys) :=
  inferInstanceAs (Decidable (∃ _ ∈ _, _))

variable {hash pair} {message message' : β} {siblings siblings' : List α} {xs ys xs' ys' : List β}

theorem Collide.mono (h : Collide hash xs ys) (hx : xs ⊆ xs') (hy : ys ⊆ ys') :
    Collide hash xs' ys' := by
  obtain ⟨x, hxs, y, hys, hne, heq⟩ := h
  exact ⟨x, hx hxs, y, hy hys, hne, heq⟩

theorem eq_or_collide {x y : β} (hx : x ∈ xs) (hy : y ∈ ys) (h : hash x = hash y) :
    x = y ∨ Collide hash xs ys := by
  by_cases heq : x = y
  · exact .inl heq
  · exact .inr ⟨x, hx, y, hy, heq, h⟩

theorem climb_append (message : β) (siblings : List α) (sibling : α) :
    climb hash pair message (siblings ++ [sibling]) =
      hash (pair (climb hash pair message siblings) sibling) := by
  rw [climb, List.foldl_append, List.foldl_cons, List.foldl_nil, climb]

theorem climb_cons (message : β) (sibling : α) (siblings : List α) :
    climb hash pair message (sibling :: siblings) =
      climb hash pair (pair (hash message) sibling) siblings := by
  rw [climb, List.foldl_cons, climb]

theorem hashed_append (message : β) (siblings : List α) (sibling : α) :
    hashed hash pair message (siblings ++ [sibling]) =
      hashed hash pair message siblings ++ [pair (climb hash pair message siblings) sibling] := by
  induction siblings generalizing message with
  | nil => rfl
  | cons first siblings ih =>
    rw [List.cons_append, hashed, ih, hashed, climb_cons, List.cons_append]

theorem message_mem_hashed (message : β) (siblings : List α) :
    message ∈ hashed hash pair message siblings := by
  cases siblings with
  | nil => exact List.mem_singleton_self _
  | cons sibling siblings => exact List.mem_cons_self

/-- A root binds the message under it and the way up from it: another way to the same
root, from a message that is no pair of nodes either, is the same way, or a collision. -/
theorem eq_or_collide_of_climb
    (hpair : ∀ a b c d, pair a b = pair c d → a = c ∧ b = d)
    (hmessage : ∀ a b, message ≠ pair a b) (hmessage' : ∀ a b, message' ≠ pair a b)
    (h : climb hash pair message siblings = climb hash pair message' siblings') :
    (message = message' ∧ siblings = siblings') ∨
      Collide hash (hashed hash pair message siblings) (hashed hash pair message' siblings') := by
  induction siblings using List.reverseRecOn generalizing siblings' with
  | nil =>
    cases siblings' using List.reverseRecOn with
    | nil =>
      rcases eq_or_collide (message_mem_hashed message []) (message_mem_hashed message' []) h with
        heq | hcollide
      · exact .inl ⟨heq, rfl⟩
      · exact .inr hcollide
    | append_singleton siblings' sibling' =>
      rw [climb_append] at h
      rw [hashed_append]
      exact .inr ⟨message, message_mem_hashed message [], _, List.mem_append_right _
        (List.mem_singleton_self _), hmessage _ _, h⟩
  | append_singleton siblings sibling ih =>
    cases siblings' using List.reverseRecOn with
    | nil =>
      rw [climb_append] at h
      rw [hashed_append]
      exact .inr ⟨_, List.mem_append_right _ (List.mem_singleton_self _), message',
        message_mem_hashed message' [], (hmessage' _ _).symm, h⟩
    | append_singleton siblings' sibling' =>
      rw [climb_append, climb_append] at h
      rw [hashed_append, hashed_append]
      have hlast := List.mem_append_right (hashed hash pair message siblings)
        (List.mem_singleton_self (pair (climb hash pair message siblings) sibling))
      have hlast' := List.mem_append_right (hashed hash pair message' siblings')
        (List.mem_singleton_self (pair (climb hash pair message' siblings') sibling'))
      rcases eq_or_collide hlast hlast' h with heq | hcollide
      · obtain ⟨hnode, rfl⟩ := hpair _ _ _ _ heq
        rcases ih hnode with ⟨rfl, rfl⟩ | hcollide
        · exact .inl ⟨rfl, rfl⟩
        · exact .inr (hcollide.mono (List.subset_append_left _ _) (List.subset_append_left _ _))
      · exact .inr hcollide

end ElektronPool.Lib.HashPath
