import Mathlib.Tactic.Common

namespace ElektronPool.Lib

/-- Why a promise of `firstValueFrom` is rejected: the error of its subject, or
because the subject completed without a value. -/
inductive Failure (ε : Type)
  | error (e : ε)
  | empty
deriving DecidableEq

/-- Subjects, with the promise of the `firstValueFrom` that listens to one. -/
structure Subjects (S ε α : Type) where
  new : S
  firstValueFrom : S → S
  next : S → α → S
  complete : S → S
  error : S → ε → S
  promise : S → Option (Except (Failure ε) α)

namespace Subjects

variable {S ε α : Type} (rx : Subjects S ε α)

/-- The first thing that `firstValueFrom` hears settles its promise. -/
structure Lawful : Prop where
  waits : rx.promise (rx.firstValueFrom rx.new) = none
  value : ∀ a, rx.promise (rx.complete (rx.next (rx.firstValueFrom rx.new) a)) = some (.ok a)
  error : ∀ e, rx.promise (rx.error (rx.firstValueFrom rx.new) e) = some (.error (.error e))
  empty : rx.promise (rx.complete (rx.firstValueFrom rx.new)) = some (.error .empty)

def heard : Option (Except (Failure ε) α) → S
  | none => rx.firstValueFrom rx.new
  | some (.ok a) => rx.complete (rx.next (rx.firstValueFrom rx.new) a)
  | some (.error (.error e)) => rx.error (rx.firstValueFrom rx.new) e
  | some (.error .empty) => rx.complete (rx.firstValueFrom rx.new)

variable {rx}

theorem Lawful.promise_heard (h : rx.Lawful) (result : Option (Except (Failure ε) α)) :
    rx.promise (rx.heard result) = result := by
  cases result with
  | none => exact h.waits
  | some result =>
    cases result with
    | ok a => exact h.value a
    | error failure =>
      cases failure with
      | error e => exact h.error e
      | empty => exact h.empty

end Subjects

/-- An RxJS subject. -/
structure Subject (ε α : Type) where
  observed : Bool := false
  isStopped : Bool := false
  promise : Option (Except (Failure ε) α) := none

namespace Subject

variable {ε α : Type} (s : Subject ε α)

def notify (result : Except (Failure ε) α) : Subject ε α :=
  if s.observed then { s with observed := false, promise := some result } else s

def next (value : α) : Subject ε α := if s.isStopped then s else s.notify (.ok value)

def complete : Subject ε α :=
  if s.isStopped then s else { s.notify (.error .empty) with isStopped := true }

def error (e : ε) : Subject ε α :=
  if s.isStopped then s else { s.notify (.error (.error e)) with isStopped := true }

end Subject

/-- The subjects of RxJS. -/
def rxjs {ε α : Type} : Subjects (Subject ε α) ε α where
  new := {}
  firstValueFrom s := { s with observed := true }
  next := Subject.next
  complete := Subject.complete
  error := Subject.error
  promise := Subject.promise

theorem lawful_rxjs {ε α : Type} : (rxjs : Subjects (Subject ε α) ε α).Lawful where
  waits := rfl
  value _ := rfl
  error _ := rfl
  empty := rfl

end ElektronPool.Lib
