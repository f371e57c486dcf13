import InotifyTools.Base.Prog
import Mathlib.Algebra.Order.Group.Multiset
import Mathlib.Data.Multiset.Filter

set_option autoImplicit false

/-! # What is taken is given back

A ledger keeps what has been taken and not yet given back, and whether something was given back that
was not held. An account reads off a program state what it owns. `A.Moves s m t` says that `m` takes
over `s` and hands on `t`: whatever else is held stays held, and the books stay square. The rules
follow the program constructors. -/

/-- What is held of the things that can be taken and given back. -/
@[ext] structure Ledger (α : Type) where
  held : Multiset α
  /-- Whether something was given back that was not held. -/
  stray : Bool

namespace Ledger

variable {α : Type}

/-- Nothing taken yet. -/
def empty : Ledger α := ⟨0, false⟩

def take (l : Ledger α) (s : Multiset α) : Ledger α := { l with held := l.held + s }

variable [DecidableEq α]

def give (l : Ledger α) (a : α) : Ledger α :=
  if a ∈ l.held then { l with held := l.held.erase a } else { l with stray := true }

/-- What was held can be given back. -/
theorem give_held (a : α) (s : Multiset α) (b : Bool) :
    (⟨a ::ₘ s, b⟩ : Ledger α).give a = ⟨s, b⟩ := by
  rw [give, if_pos (Multiset.mem_cons_self a s), Multiset.erase_cons_head]

end Ledger

/-- How to read the books off a state. -/
structure Account (σ α : Type) where
  ledger : σ → Ledger α
  /-- What the state is in charge of. -/
  owned : σ → Multiset α
  /-- What is known of the state besides. -/
  inv : σ → Prop

namespace Account

variable {ε σ α β γ : Type} (A : Account σ α)

/-- What is held is what the state owns and `s` besides. -/
structure Square (s : Multiset α) (x : σ) : Prop where
  inv : A.inv x
  ledger : A.ledger x = ⟨A.owned x + s, false⟩

/-- The program `m` takes over `s` and hands on what `t` says of its result. -/
def Moves (s : Multiset α) (m : Prog ε σ β) (t : β → Multiset α) : Prop :=
  ∀ r x b x', A.Square (s + r) x → m x = .ok (b, x') → A.Square (t b + r) x'

/-- The program `m` keeps the books as they are. -/
abbrev Keeps (m : Prog ε σ β) : Prop := A.Moves 0 m fun _ => 0

variable {A} {s t : Multiset α}

/-! ## Steps -/

/-- A step with no entry in the ledger changes hands only between the state and the program. -/
theorem Moves.step {m : Prog ε σ β} {t : β → Multiset α}
    (h : ∀ x b x', A.inv x → m x = .ok (b, x') →
      A.inv x' ∧ A.ledger x' = A.ledger x ∧ A.owned x' + t b = A.owned x + s) : A.Moves s m t := by
  intro r x b x' hx hm
  obtain ⟨hinv, hledger, howned⟩ := h x b x' hx.inv hm
  refine ⟨hinv, ?_⟩
  rw [hledger, hx.ledger, ← add_assoc, ← add_assoc, howned]

theorem Keeps.update {f : σ → σ} (hinv : ∀ x, A.inv x → A.inv (f x))
    (hledger : ∀ x, A.ledger (f x) = A.ledger x) (howned : ∀ x, A.owned (f x) = A.owned x) :
    A.Keeps (Prog.update f : Prog ε σ Unit) :=
  .step fun x b x' hx hm => by
    cases hm
    exact ⟨hinv x hx, hledger x, congrArg (· + 0) (howned x)⟩

theorem Keeps.lift {f : σ → β × σ} (hinv : ∀ x, A.inv x → A.inv (f x).2)
    (hledger : ∀ x, A.ledger (f x).2 = A.ledger x) (howned : ∀ x, A.owned (f x).2 = A.owned x) :
    A.Keeps (Prog.lift f : Prog ε σ β) :=
  .step fun x b x' hx hm => by
    obtain rfl : (f x).2 = x' := congrArg Prod.snd (Except.ok.inj hm)
    exact ⟨hinv x hx, hledger x, congrArg (· + 0) (howned x)⟩

/-- A step that takes what its result says. -/
theorem Moves.take {f : σ → β × σ} {t : β → Multiset α} (hinv : ∀ x, A.inv x → A.inv (f x).2)
    (hledger : ∀ x, A.ledger (f x).2 = (A.ledger x).take (t (f x).1))
    (howned : ∀ x, A.owned (f x).2 = A.owned x) : A.Moves 0 (Prog.lift f : Prog ε σ β) t := by
  intro r x b x' hx hm
  obtain ⟨rfl, rfl⟩ : (f x).1 = b ∧ (f x).2 = x' := Prod.ext_iff.1 (Except.ok.inj hm)
  refine ⟨hinv x hx.inv, ?_⟩
  rw [hledger, howned, hx.ledger, zero_add, Ledger.take, add_assoc, add_comm r]

/-- A step that gives something back. -/
theorem Moves.give [DecidableEq α] {f : σ → σ} {a : α} (hinv : ∀ x, A.inv x → A.inv (f x))
    (hledger : ∀ x, A.ledger (f x) = (A.ledger x).give a) (howned : ∀ x, A.owned (f x) = A.owned x) :
    A.Moves {a} (Prog.update f : Prog ε σ Unit) fun _ => 0 := by
  intro r x b x' hx hm
  cases hm
  refine ⟨hinv x hx.inv, ?_⟩
  have hhead : A.owned x + ({a} + r) = a ::ₘ (A.owned x + r) := by
    rw [Multiset.singleton_add, Multiset.add_cons]
  rw [hledger, howned, hx.ledger, hhead, Ledger.give_held, zero_add]

/-! ## Composition -/

theorem Moves.pure {b : β} {t : β → Multiset α} (h : t b = s) :
    A.Moves s (Pure.pure b : Prog ε σ β) t := by
  intro r x c x' hx hm
  cases hm
  rwa [h]

theorem Moves.fault {e : ε} {t : β → Multiset α} : A.Moves s (Prog.fault e : Prog ε σ β) t :=
  fun _ _ _ _ _ hm => nomatch hm

theorem Moves.bind {m : Prog ε σ β} {f : β → Prog ε σ γ} {t : β → Multiset α} {u : γ → Multiset α}
    (hm : A.Moves s m t) (hf : ∀ b, A.Moves (t b) (f b) u) : A.Moves s (m >>= f) u := by
  intro r x c x' hx hrun
  obtain ⟨b, y, h₁, h₂⟩ := Prog.bind_ok hrun
  exact hf b r y c x' (hm r x b y hx h₁) h₂

theorem Moves.ite {c : Prop} [Decidable c] {m n : Prog ε σ β} {t : β → Multiset α}
    (hm : c → A.Moves s m t) (hn : ¬ c → A.Moves s n t) : A.Moves s (if c then m else n) t := by
  split
  · next h => exact hm h
  · next h => exact hn h

/-- What is held besides stays held. -/
theorem Moves.frame {m : Prog ε σ β} {t : β → Multiset α} (h : A.Moves s m t) (u : Multiset α) :
    A.Moves (s + u) m fun b => t b + u := by
  intro r x b x' hx hm
  rw [add_assoc] at hx ⊢
  exact h (u + r) x b x' hx hm

theorem Keeps.holding {m : Prog ε σ β} (h : A.Keeps m) (u : Multiset α) :
    A.Moves u m fun _ => u := by
  have hframe := h.frame u
  simpa only [zero_add] using hframe

/-- A first part that keeps the books. -/
theorem Moves.after {m : Prog ε σ β} {f : β → Prog ε σ γ} {u : γ → Multiset α} (hm : A.Keeps m)
    (hf : ∀ b, A.Moves s (f b) u) : A.Moves s (m >>= f) u :=
  .bind (hm.holding s) hf

theorem Keeps.pure (b : β) : A.Keeps (Pure.pure b : Prog ε σ β) := Moves.pure rfl

theorem Keeps.bind {m : Prog ε σ β} {f : β → Prog ε σ γ} (hm : A.Keeps m)
    (hf : ∀ b, A.Keeps (f b)) : A.Keeps (m >>= f) := Moves.bind hm hf

theorem Keeps.ite {c : Prop} [Decidable c] {m n : Prog ε σ β} (hm : A.Keeps m) (hn : A.Keeps n) :
    A.Keeps (if c then m else n) := Moves.ite (fun _ => hm) fun _ => hn

theorem Keeps.read : A.Keeps (Prog.read : Prog ε σ σ) :=
  .step fun x b x' hx hm => by
    cases hm
    exact ⟨hx, rfl, rfl⟩

theorem Keeps.guard (c : Bool) (e : ε) : A.Keeps (Prog.guard c e : Prog ε σ Unit) :=
  .ite (.pure ()) .fault

end Account
