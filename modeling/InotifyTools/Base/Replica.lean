import Mathlib.Tactic.Common

set_option autoImplicit false

/-! # A replica that lags behind

A source changes, and puts what there is to tell about it into a queue; a replica takes it from there,
one event after the other, whenever it comes to that. What the queue holds always leads the replica to
the source, so the replica has caught up whenever the queue is empty. -/

namespace Replica

variable {S E : Type}

/-- The events lead from one state to another. -/
inductive Owes (tells : S → E → S → Prop) : S → List E → S → Prop
  | nil (s : S) : Owes tells s [] s
  | cons {s s₁ s' : S} {e : E} {q : List E} (h : tells s e s₁) (hrest : Owes tells s₁ q s') :
      Owes tells s (e :: q) s'

namespace Owes

variable {tells : S → E → S → Prop} {s s' s'' : S} {e : E} {q q' : List E}

theorem append (h : Owes tells s q s') (h' : Owes tells s' q' s'') : Owes tells s (q ++ q') s'' := by
  induction h with
  | nil => exact h'
  | cons htells _ ih => exact .cons htells (ih h')

theorem single (h : tells s e s') : Owes tells s [e] s' := .cons h (.nil s')

/-- The replica takes an event. -/
theorem take (h : Owes tells s (e :: q) s') : ∃ s₁, tells s e s₁ ∧ Owes tells s₁ q s' := by
  cases h with
  | cons htells hrest => exact ⟨_, htells, hrest⟩

/-- The replica has caught up. -/
theorem caughtUp (h : Owes tells s [] s') : s = s' := by
  cases h
  rfl

end Owes

end Replica
