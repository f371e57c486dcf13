import Mathlib.Logic.Relation
import Mathlib.Tactic.Common

set_option autoImplicit false

/-! # Stateful programs that can fault

A `Prog ε σ α` reads and writes a state `σ` and either returns an `α` or stops with a fault `ε`
(and then has no state left to speak of). Correctness is stated with `Prog.wp`: a postcondition for
the runs that return and a predicate on the faults that are tolerated. The rules below are all a
proof needs: one per program constructor, consequence, and the passage from a `wp` fact to a fact
about one run that returned. -/

/-- A program over the state `σ` that returns an `α` or stops with a fault `ε`. -/
def Prog (ε σ α : Type) : Type := σ → Except ε (α × σ)

namespace Prog

variable {ε σ α β : Type}

instance : Monad (Prog ε σ) where
  pure a := fun s => .ok (a, s)
  bind x f := fun s =>
    match x s with
    | .ok (a, s') => f a s'
    | .error e => .error e

/-- Stop with a fault. -/
def fault (e : ε) : Prog ε σ α := fun _ => .error e

/-- The current state. -/
def read : Prog ε σ σ := fun s => .ok (s, s)

/-- Replace the state. -/
def update (f : σ → σ) : Prog ε σ Unit := fun s => .ok ((), f s)

/-- Run a state transformer that cannot fault. -/
def lift (f : σ → α × σ) : Prog ε σ α := fun s => .ok (f s)

/-- Stop with the fault `e` unless `c` holds. -/
def guard (c : Bool) (e : ε) : Prog ε σ Unit := if c then pure () else fault e

/-- What a run returns, if it does. -/
def result (m : Prog ε σ α) (s : σ) : Option α :=
  match m s with
  | .ok (a, _) => some a
  | .error _ => none

/-- The state a run leaves, or the one it started in if it stops with a fault. -/
def after (m : Prog ε σ α) (s : σ) : σ :=
  match m s with
  | .ok (_, s') => s'
  | .error _ => s

/-! ## Running -/

theorem pure_run (a : α) (s : σ) : (pure a : Prog ε σ α) s = .ok (a, s) := rfl

theorem pure_bind (a : α) (f : α → Prog ε σ β) : (pure a >>= f) = f a := rfl

theorem bind_run (x : Prog ε σ α) (f : α → Prog ε σ β) (s : σ) :
    (x >>= f) s = match x s with
      | .ok (a, s') => f a s'
      | .error e => .error e := rfl

theorem bind_run_ok {x : Prog ε σ α} {f : α → Prog ε σ β} {s s' : σ} {a : α}
    (h : x s = .ok (a, s')) : (x >>= f) s = f a s' := by
  rw [bind_run, h]

theorem bind_run_error {x : Prog ε σ α} {f : α → Prog ε σ β} {s : σ} {e : ε}
    (h : x s = .error e) : (x >>= f) s = .error e := by
  rw [bind_run, h]

theorem bind_assoc {γ : Type} (x : Prog ε σ α) (f : α → Prog ε σ β) (g : β → Prog ε σ γ) :
    x >>= f >>= g = x >>= fun a => f a >>= g := by
  funext s
  rw [bind_run, bind_run, bind_run]
  cases x s <;> rfl

/-- A sequence returned, so both parts did. -/
theorem bind_ok {x : Prog ε σ α} {f : α → Prog ε σ β} {s t : σ} {b : β}
    (h : (x >>= f) s = .ok (b, t)) : ∃ a s', x s = .ok (a, s') ∧ f a s' = .ok (b, t) := by
  rw [bind_run] at h
  split at h
  · next a s' hx => exact ⟨a, s', hx, h⟩
  · exact absurd h (by simp)

theorem result_of_ok {m : Prog ε σ α} {s s' : σ} {a : α} (h : m s = .ok (a, s')) :
    m.result s = some a := by
  rw [result, h]

theorem after_of_ok {m : Prog ε σ α} {s s' : σ} {a : α} (h : m s = .ok (a, s')) : m.after s = s' := by
  rw [after, h]

theorem run_of_result {m : Prog ε σ α} {s : σ} {a : α} (h : m.result s = some a) :
    m s = .ok (a, m.after s) := by
  unfold result at h
  unfold after
  split at h
  · next hm =>
      cases h
      rw [hm]
  · cases h

theorem result_bind {x : Prog ε σ α} {f : α → Prog ε σ β} {s s' : σ} {a : α}
    (h : x s = .ok (a, s')) : (x >>= f).result s = (f a).result s' := by
  rw [result, bind_run_ok h]
  rfl

/-! ## Weakest preconditions -/

/-- `m` started in `s` returns into `Q`, or stops with a fault that `E` tolerates. -/
def wp (E : ε → Prop) (m : Prog ε σ α) (Q : α → σ → Prop) (s : σ) : Prop :=
  match m s with
  | .ok (a, s') => Q a s'
  | .error e => E e

variable {E : ε → Prop} {Q R : α → σ → Prop} {s : σ}

@[simp] theorem wp_pure (a : α) : wp E (pure a : Prog ε σ α) Q s ↔ Q a s := Iff.rfl

@[simp] theorem wp_bind (x : Prog ε σ α) (f : α → Prog ε σ β) (P : β → σ → Prop) :
    wp E (x >>= f) P s ↔ wp E x (fun a s' => wp E (f a) P s') s := by
  unfold wp
  rw [bind_run]
  cases x s <;> rfl

@[simp] theorem wp_fault (e : ε) : wp E (fault e : Prog ε σ α) Q s ↔ E e := Iff.rfl

@[simp] theorem wp_read (P : σ → σ → Prop) : wp E (read : Prog ε σ σ) P s ↔ P s s := Iff.rfl

@[simp] theorem wp_update (f : σ → σ) (P : Unit → σ → Prop) :
    wp E (update f : Prog ε σ Unit) P s ↔ P () (f s) := Iff.rfl

@[simp] theorem wp_lift (f : σ → α × σ) :
    wp E (lift f : Prog ε σ α) Q s ↔ Q (f s).1 (f s).2 := Iff.rfl

@[simp] theorem wp_guard (c : Bool) (e : ε) (P : Unit → σ → Prop) :
    wp E (guard c e : Prog ε σ Unit) P s ↔ if c then P () s else E e := by
  cases c <;> rfl

/-- Consequence: a stronger postcondition implies a weaker one. -/
theorem wp.mono {m : Prog ε σ α} (h : wp E m Q s) (hQ : ∀ a s', Q a s' → R a s') :
    wp E m R s := by
  unfold wp at h ⊢
  split at h
  · exact hQ _ _ h
  · exact h

/-- Two facts about the same run hold together. -/
theorem wp.and {m : Prog ε σ α} (h : wp E m Q s) (h' : wp E m R s) :
    wp E m (fun a s' => Q a s' ∧ R a s') s := by
  unfold wp at h h' ⊢
  split at h
  · next hm => rw [hm] at h'; exact ⟨h, h'⟩
  · exact h

/-- What `wp` says of a run that returned. -/
theorem wp.ok {m : Prog ε σ α} {a : α} {s' : σ} (h : wp E m Q s) (hm : m s = .ok (a, s')) :
    Q a s' := by
  unfold wp at h
  rw [hm] at h
  exact h

/-- What `wp` says of a run that stopped with a fault. -/
theorem wp.error {m : Prog ε σ α} {e : ε} (h : wp E m Q s) (hm : m s = .error e) : E e := by
  unfold wp at h
  rw [hm] at h
  exact h

theorem wp_of_run {m : Prog ε σ α} (hok : ∀ a s', m s = .ok (a, s') → Q a s')
    (herr : ∀ e, m s = .error e → E e) : wp E m Q s := by
  unfold wp
  split
  · next hm => exact hok _ _ hm
  · next hm => exact herr _ hm

theorem wp_ite {c : Prop} [Decidable c] {m n : Prog ε σ α}
    (ht : c → wp E m Q s) (hf : ¬ c → wp E n Q s) : wp E (if c then m else n) Q s := by
  split
  · next h => exact ht h
  · next h => exact hf h

/-! ## Frames

`Keeps r m`: whenever `m` returns, the state it leaves is related by `r` to the one it was started
in. With `r` reflexive and transitive this composes along a program, whatever its control flow. -/

/-- Every run of `m` that returns moves the state along `r`. -/
def Keeps (r : σ → σ → Prop) (m : Prog ε σ α) : Prop :=
  ∀ s a s', m s = .ok (a, s') → r s s'

variable {r : σ → σ → Prop}

theorem Keeps.weaken {r' : σ → σ → Prop} {m : Prog ε σ α} (h : Keeps r m)
    (hr : ∀ s s', r s s' → r' s s') : Keeps r' m :=
  fun s a s' hm => hr s s' (h s a s' hm)

theorem Keeps.fault (e : ε) : Keeps r (fault e : Prog ε σ α) :=
  fun _ _ _ h => nomatch h

theorem Keeps.pure [Std.Refl r] (a : α) : Keeps r (pure a : Prog ε σ α) := by
  intro s b s' h
  cases h
  exact Std.Refl.refl s

theorem Keeps.read [Std.Refl r] : Keeps r (read : Prog ε σ σ) := by
  intro s b s' h
  cases h
  exact Std.Refl.refl s

theorem Keeps.update {f : σ → σ} (h : ∀ s, r s (f s)) : Keeps r (update f : Prog ε σ Unit) := by
  intro s a s' hm
  cases hm
  exact h s

theorem Keeps.lift {f : σ → α × σ} (h : ∀ s, r s (f s).2) : Keeps r (lift f : Prog ε σ α) := by
  intro s a s' hm
  have hs : f s = (a, s') := Except.ok.inj hm
  have hr := h s
  rwa [hs] at hr

theorem Keeps.bind [IsTrans σ r] {x : Prog ε σ α} {f : α → Prog ε σ β} (hx : Keeps r x)
    (hf : ∀ a, Keeps r (f a)) : Keeps r (x >>= f) := by
  intro s b t h
  obtain ⟨a, s', h₁, h₂⟩ := bind_ok h
  exact IsTrans.trans s s' t (hx s a s' h₁) (hf a s' b t h₂)

theorem Keeps.ite {c : Prop} [Decidable c] {m n : Prog ε σ α} (hm : Keeps r m) (hn : Keeps r n) :
    Keeps r (if c then m else n) := by
  split <;> assumption

/-! ## More fuel

`Extends m n`: wherever `m` returns, `n` returns the same. A program with a loop that is bounded by
fuel is extended by itself with more fuel. -/

/-- Every run of `m` that returns is one of `n`. -/
def Extends (m n : Prog ε σ α) : Prop := ∀ s r, m s = .ok r → n s = .ok r

theorem Extends.refl (m : Prog ε σ α) : Extends m m := fun _ _ h => h

theorem Extends.fault (e : ε) (m : Prog ε σ α) : Extends (fault e) m := fun _ _ h => nomatch h

theorem Extends.bind {x y : Prog ε σ α} {f g : α → Prog ε σ β} (hx : Extends x y)
    (hf : ∀ a, Extends (f a) (g a)) : Extends (x >>= f) (y >>= g) := by
  rintro s ⟨b, t⟩ h
  obtain ⟨a, s', h₁, h₂⟩ := bind_ok h
  rw [bind_run_ok (hx s _ h₁)]
  exact hf a s' _ h₂

/-- The same beginning. -/
theorem Extends.next {x : Prog ε σ α} {f g : α → Prog ε σ β} (hf : ∀ a, Extends (f a) (g a)) :
    Extends (x >>= f) (x >>= g) := .bind (.refl x) hf

/-- The same end. -/
theorem Extends.first {x y : Prog ε σ α} {f : α → Prog ε σ β} (hx : Extends x y) :
    Extends (x >>= f) (y >>= f) := .bind hx fun a => .refl (f a)

theorem Extends.ite {c : Prop} [Decidable c] {m n m' n' : Prog ε σ α} (hm : Extends m m')
    (hn : Extends n n') : Extends (if c then m else n) (if c then m' else n') := by
  split <;> assumption

/-! ## Properties that last -/

/-- `P` is not lost from `s` to `s'`. -/
def Inherits (P : σ → Prop) (s s' : σ) : Prop := P s → P s'

instance (P : σ → Prop) : Std.Refl (Inherits P) := ⟨fun _ => id⟩

instance (P : σ → Prop) : IsTrans σ (Inherits P) := ⟨fun _ _ _ h h' hP => h' (h hP)⟩

end Prog
