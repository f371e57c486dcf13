import Mathlib.Data.Finset.Card
import Mathlib.Data.Finset.Filter
import Mathlib.Tactic.Common

set_option autoImplicit false

/-! # Finite bijections

A `Pairing α β` is a finite bijection between some elements of `α` and some of `β`, as the set of its
pairs. `Next` are the changes it can undergo, one pair at a time. -/

/-- A finite set of pairs in which nothing is paired twice. -/
structure Pairing (α β : Type) where
  pairs : Finset (α × β)
  left : ∀ {a b b'}, (a, b) ∈ pairs → (a, b') ∈ pairs → b = b'
  right : ∀ {a a' b}, (a, b) ∈ pairs → (a', b) ∈ pairs → a = a'

namespace Pairing

variable {α β : Type} [DecidableEq α] [DecidableEq β]

omit [DecidableEq α] [DecidableEq β] in
@[ext] theorem ext {p q : Pairing α β} (h : p.pairs = q.pairs) : p = q := by
  cases p
  cases q
  cases h
  rfl

/-- Nothing is paired. -/
def empty : Pairing α β := ⟨∅, by simp, by simp⟩

/-- Pair two elements that are not paired yet. -/
def add (p : Pairing α β) (a : α) (b : β) (ha : ∀ b', (a, b') ∉ p.pairs)
    (hb : ∀ a', (a', b) ∉ p.pairs) : Pairing α β where
  pairs := insert (a, b) p.pairs
  left {x y y'} h h' := by
    simp only [Finset.mem_insert, Prod.mk.injEq] at h h'
    rcases h with ⟨rfl, rfl⟩ | h <;> rcases h' with ⟨h₁, rfl⟩ | h'
    · rfl
    · exact absurd h' (ha _)
    · exact absurd (h₁ ▸ h) (ha _)
    · exact p.left h h'
  right {x x' y} h h' := by
    simp only [Finset.mem_insert, Prod.mk.injEq] at h h'
    rcases h with ⟨rfl, rfl⟩ | h <;> rcases h' with ⟨rfl, h₁⟩ | h'
    · rfl
    · exact absurd h' (hb _)
    · exact absurd (h₁ ▸ h) (hb _)
    · exact p.right h h'

/-- Forget the pair of `a`. -/
def drop (p : Pairing α β) (a : α) : Pairing α β where
  pairs := p.pairs.filter fun x => x.1 ≠ a
  left h h' := p.left (Finset.mem_filter.1 h).1 (Finset.mem_filter.1 h').1
  right h h' := p.right (Finset.mem_filter.1 h).1 (Finset.mem_filter.1 h').1

omit [DecidableEq β] in
@[simp] theorem mem_drop {p : Pairing α β} {a x : α} {y : β} :
    (x, y) ∈ (p.drop a).pairs ↔ (x, y) ∈ p.pairs ∧ x ≠ a := by
  simp [drop]

@[simp] theorem mem_add {p : Pairing α β} {a x : α} {b y : β} {ha hb} :
    (x, y) ∈ (p.add a b ha hb).pairs ↔ x = a ∧ y = b ∨ (x, y) ∈ p.pairs := by
  simp [add]

/-- Pair `a` with `b` instead, which is not paired with another. -/
def rename (p : Pairing α β) (a : α) (b : β) (hb : ∀ a', (a', b) ∈ p.pairs → a' = a) :
    Pairing α β :=
  (p.drop a).add a b (fun _ h => (mem_drop.1 h).2 rfl)
    fun a' h => (mem_drop.1 h).2 (hb a' (mem_drop.1 h).1)

@[simp] theorem mem_rename {p : Pairing α β} {a x : α} {b y : β} {hb} :
    (x, y) ∈ (p.rename a b hb).pairs ↔ x = a ∧ y = b ∨ (x, y) ∈ p.pairs ∧ x ≠ a := by
  simp [rename]

/-- The number of pairs. -/
def card (p : Pairing α β) : Nat := p.pairs.card

omit [DecidableEq β] in
theorem card_drop {p : Pairing α β} {a : α} {b : β} (h : (a, b) ∈ p.pairs) :
    (p.drop a).card + 1 = p.card := by
  have hone : p.pairs.filter (fun x => x.1 = a) = {(a, b)} := by
    ext ⟨x, y⟩
    simp only [Finset.mem_filter, Finset.mem_singleton, Prod.mk.injEq]
    constructor
    · rintro ⟨hx, rfl⟩
      exact ⟨rfl, p.left hx h⟩
    · rintro ⟨rfl, rfl⟩
      exact ⟨h, rfl⟩
  have hsplit := p.pairs.card_filter_add_card_filter_not (fun x => x.1 = a)
  rw [hone, Finset.card_singleton] at hsplit
  rw [Nat.add_comm]
  exact hsplit

theorem card_add {p : Pairing α β} {a : α} {b : β} {ha hb} :
    (p.add a b ha hb).card = p.card + 1 :=
  Finset.card_insert_of_notMem (ha b)

theorem card_rename {p : Pairing α β} {a : α} {b old : β} {hb} (h : (a, old) ∈ p.pairs) :
    (p.rename a b hb).card = p.card := by
  have hadd : (p.rename a b hb).card = (p.drop a).card + 1 := card_add
  rw [hadd, card_drop h]

/-! ## Changes -/

/-- What happens to a pairing. -/
inductive Change (α β : Type)
  | same
  | add (a : α) (b : β)
  | rename (a : α) (b : β)
  | drop (a : α)
deriving DecidableEq

/-- The change `c` leads from one pairing to another. -/
inductive Next : Pairing α β → Change α β → Pairing α β → Prop
  | same (p : Pairing α β) : Next p .same p
  | add (p : Pairing α β) (a : α) (b : β) (ha hb) : Next p (.add a b) (p.add a b ha hb)
  | rename (p : Pairing α β) (a : α) (b old : β) (h : (a, old) ∈ p.pairs) (hb) :
      Next p (.rename a b) (p.rename a b hb)
  | drop (p : Pairing α β) (a : α) (b : β) (h : (a, b) ∈ p.pairs) : Next p (.drop a) (p.drop a)

/-- A list of changes in turn. -/
inductive Run : Pairing α β → List (Change α β) → Pairing α β → Prop
  | nil (p : Pairing α β) : Run p [] p
  | snoc {p q r : Pairing α β} {cs : List (Change α β)} {c : Change α β} (h : Run p cs q)
      (hc : Next q c r) : Run p (cs ++ [c]) r

def Change.isAdd : Change α β → Bool
  | .add .. => true
  | _ => false

def Change.isDrop : Change α β → Bool
  | .drop .. => true
  | _ => false

theorem Next.card {p q : Pairing α β} {c : Change α β} (h : Next p c q) :
    q.card + c.isDrop.toNat = p.card + c.isAdd.toNat := by
  cases h with
  | same => rfl
  | add => exact card_add
  | rename a b old h => exact card_rename h
  | drop a b h => exact card_drop h

/-- Pairs are counted by what was added less what was dropped. -/
theorem Run.card {p q : Pairing α β} {cs : List (Change α β)} (h : Run p cs q) :
    q.card + cs.countP Change.isDrop = p.card + cs.countP Change.isAdd := by
  induction h with
  | nil => rfl
  | @snoc q r cs c _ hc ih =>
      have hstep := hc.card
      have hd : (cs ++ [c]).countP Change.isDrop = cs.countP Change.isDrop + c.isDrop.toNat := by
        cases h : c.isDrop <;> simp [List.countP_append, h]
      have ha : (cs ++ [c]).countP Change.isAdd = cs.countP Change.isAdd + c.isAdd.toNat := by
        cases h : c.isAdd <;> simp [List.countP_append, h]
      omega

end Pairing
