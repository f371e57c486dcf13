import InotifyTools.Base.Prog

set_option autoImplicit false

/-! # Two programs side by side

`Related R V m n`: from states related by `R`, the programs `m` and `n` stop with the same fault, or
return results related by `V` in states related by `R` again. The rules follow the program
constructors, so that a program that does not look at what `R` leaves open is related to itself by
its syntax alone. -/

namespace Prog

variable {ε σ τ α β γ δ : Type}

/-- Two outcomes agree: the same fault, or related results in related states. -/
inductive Agree (R : σ → τ → Prop) (V : α → β → Prop) :
    Except ε (α × σ) → Except ε (β × τ) → Prop
  | ok {a : α} {b : β} {s : σ} {t : τ} (hV : V a b) (hR : R s t) : Agree R V (.ok (a, s)) (.ok (b, t))
  | error (e : ε) : Agree R V (.error e) (.error e)

/-- From related states, `m` and `n` agree. -/
def Related (R : σ → τ → Prop) (V : α → β → Prop) (m : Prog ε σ α) (n : Prog ε τ β) : Prop :=
  ∀ s t, R s t → Agree R V (m s) (n t)

variable {R : σ → τ → Prop} {V : α → β → Prop} {W : γ → δ → Prop} {m : Prog ε σ α} {n : Prog ε τ β}

namespace Related

theorem pure {a : α} {b : β} (h : V a b) :
    Related R V (Pure.pure a : Prog ε σ α) (Pure.pure b : Prog ε τ β) :=
  fun _ _ hR => .ok h hR

theorem fault (e : ε) : Related R V (Prog.fault e : Prog ε σ α) (Prog.fault e : Prog ε τ β) :=
  fun _ _ _ => .error e

theorem bind {f : α → Prog ε σ γ} {g : β → Prog ε τ δ} (h : Related R V m n)
    (hf : ∀ a b, V a b → Related R W (f a) (g b)) : Related R W (m >>= f) (n >>= g) := by
  intro s t hR
  have hm := h s t hR
  rw [bind_run, bind_run]
  revert hm
  generalize m s = x, n t = y
  intro hm
  cases hm with
  | ok hV hR' => exact hf _ _ hV _ _ hR'
  | error e => exact .error e

theorem ite {c d : Prop} [Decidable c] [Decidable d] {m' : Prog ε σ α} {n' : Prog ε τ β}
    (hc : c ↔ d) (h : Related R V m n) (h' : Related R V m' n') :
    Related R V (if c then m else m') (if d then n else n') := by
  by_cases hd : c
  · rw [if_pos hd, if_pos (hc.1 hd)]
    exact h
  · rw [if_neg hd, if_neg fun h => hd (hc.2 h)]
    exact h'

theorem update {f : σ → σ} {g : τ → τ} (h : ∀ s t, R s t → R (f s) (g t)) :
    Related R Eq (Prog.update f : Prog ε σ Unit) (Prog.update g : Prog ε τ Unit) :=
  fun s t hR => .ok rfl (h s t hR)

theorem lift {f : σ → α × σ} {g : τ → β × τ} (hV : ∀ s t, R s t → V (f s).1 (g t).1)
    (hR : ∀ s t, R s t → R (f s).2 (g t).2) :
    Related R V (Prog.lift f : Prog ε σ α) (Prog.lift g : Prog ε τ β) :=
  fun s t h => .ok (hV s t h) (hR s t h)

/-- When one of two related programs returns, so does the other. -/
theorem run {a : α} {s s' : σ} {t : τ} (h : Related R V m n) (hR : R s t) (hm : m s = .ok (a, s')) :
    ∃ b t', n t = .ok (b, t') ∧ V a b ∧ R s' t' := by
  have hagree := h s t hR
  rw [hm] at hagree
  revert hagree
  generalize n t = y
  intro hagree
  cases hagree with
  | ok hV hR' => exact ⟨_, _, rfl, hV, hR'⟩

end Related

end Prog
