import Mathlib.Data.List.Basic
import Mathlib.Tactic.Common

set_option autoImplicit false

/-! # A queue filled by polls

Calls take elements from a queue, dropping those that do not pass. A call that finds the queue empty
polls its environment, which answers with more elements or with nothing, and then the call ends
empty-handed. -/

namespace Queue

variable {α C S : Type}

/-- A list of calls is served: the queue and the environment before, the calls, what each poll was
    answered (`none`: nothing), what each call returned, and the queue and the environment after. -/
inductive Served (pass : α → Bool) (answer : C → S → Option (List α) → S → Prop) :
    List α → S → List C → List (Option (List α)) → List (Option α) → List α → S → Prop
  | idle (q : List α) (s : S) : Served pass answer q s [] [] [] q s
  | skip {x : α} {q q' : List α} {s s' : S} {c : C} {cs : List C} {ts : List (Option (List α))}
      {es : List (Option α)} (hx : pass x = false)
      (h : Served pass answer q s (c :: cs) ts es q' s') :
      Served pass answer (x :: q) s (c :: cs) ts es q' s'
  | serve {x : α} {q q' : List α} {s s' : S} {c : C} {cs : List C} {ts : List (Option (List α))}
      {es : List (Option α)} (hx : pass x = true) (h : Served pass answer q s cs ts es q' s') :
      Served pass answer (x :: q) s (c :: cs) ts (some x :: es) q' s'
  | nothing {q' : List α} {s s₁ s' : S} {c : C} {cs : List C} {ts : List (Option (List α))}
      {es : List (Option α)} (ha : answer c s none s₁)
      (h : Served pass answer [] s₁ cs ts es q' s') :
      Served pass answer [] s (c :: cs) (none :: ts) (none :: es) q' s'
  | fill {xs q' : List α} {s s₁ s' : S} {c : C} {cs : List C} {ts : List (Option (List α))}
      {es : List (Option α)} (ha : answer c s (some xs) s₁)
      (h : Served pass answer xs s₁ (c :: cs) ts es q' s') :
      Served pass answer [] s (c :: cs) (some xs :: ts) es q' s'

namespace Served

variable {pass : α → Bool} {answer : C → S → Option (List α) → S → Prop} {q q' : List α} {s s' : S}
  {cs : List C} {ts : List (Option (List α))} {es : List (Option α)}

/-- Nothing that passes is lost, served twice or served out of order. -/
theorem fifo (h : Served pass answer q s cs ts es q' s') :
    (q ++ (ts.filterMap id).flatten).filter pass = es.filterMap id ++ q'.filter pass := by
  induction h with
  | idle => simp
  | skip hx _ ih => simpa [hx] using ih
  | serve hx _ ih => simpa [hx] using ih
  | nothing _ _ ih => simpa using ih
  | fill _ _ ih => simpa using ih

/-- Every call returns once. -/
theorem length_eq (h : Served pass answer q s cs ts es q' s') : es.length = cs.length := by
  induction h with
  | idle => rfl
  | skip _ _ ih => exact ih
  | serve _ _ ih => simp [ih]
  | nothing _ _ ih => simp [ih]
  | fill _ _ ih => exact ih

/-- The queue is empty after a call that returned nothing. -/
theorem drained (h : Served pass answer q s cs ts es q' s') (hlast : es.getLast? = some none) :
    q' = [] := by
  induction h with
  | idle => simp at hlast
  | skip _ _ ih => exact ih hlast
  | @serve _ _ _ _ _ _ _ _ es _ _ ih =>
      cases es with
      | nil => simp at hlast
      | cons e es => exact ih (by simpa [List.getLast?_cons_cons] using hlast)
  | @nothing _ _ _ _ _ cs _ es _ h ih =>
      cases es with
      | nil =>
          have hcs : cs = [] := List.eq_nil_of_length_eq_zero h.length_eq.symm
          subst hcs
          cases h
          rfl
      | cons e es => exact ih (by simpa [List.getLast?_cons_cons] using hlast)
  | fill _ _ ih => exact ih hlast

end Served

end Queue
