import Mathlib.Data.List.Basic
import Mathlib.Logic.Relation
import Mathlib.Tactic.Common

set_option autoImplicit false

/-! # Forests in post-order

A forest is given by the children of each node. Listing it in post-order lists every node once that
can be reached, each after what lies below it. -/

variable {α : Type}

/-- `b` is `a` or lies below it. -/
def Reaches (next : α → List α) : α → α → Prop := Relation.ReflTransGen fun x y => y ∈ next x

/-- What can be reached from a list that is closed is in the list. -/
theorem Reaches.mem_of_closed {next : α → List α} {l : List α}
    (hclosed : ∀ a ∈ l, ∀ b ∈ next a, b ∈ l) {a b : α} (ha : a ∈ l) (h : Reaches next a b) :
    b ∈ l := by
  induction h with
  | refl => exact ha
  | tail _ hnext ih => exact hclosed _ ih _ hnext

/-- Each node of the list is the root, or a child of a later one. -/
def Rooted (next : α → List α) (root : α) : List α → Prop
  | [] => True
  | a :: l => (a = root ∨ ∃ b ∈ l, a ∈ next b) ∧ Rooted next root l

instance [DecidableEq α] (next : α → List α) (root : α) : DecidablePred (Rooted next root) :=
  fun l => l.rec (inferInstanceAs (Decidable True)) fun a l ih =>
    letI := ih
    inferInstanceAs (Decidable ((a = root ∨ ∃ b ∈ l, a ∈ next b) ∧ Rooted next root l))

/-- What is rooted can be reached. -/
theorem Rooted.reaches {next : α → List α} {root : α} {l : List α} (h : Rooted next root l) :
    ∀ a ∈ l, Reaches next root a := by
  induction l with
  | nil => exact nofun
  | cons a l ih =>
      obtain ⟨ha, hl⟩ := h
      refine List.forall_mem_cons.2 ⟨?_, ih hl⟩
      rcases ha with rfl | ⟨b, hb, hab⟩
      · exact .refl
      · exact (ih hl b hb).tail hab

/-- The list holds what can be reached, and nothing else. -/
def Spans (next : α → List α) (root : α) (l : List α) : Prop :=
  root ∈ l ∧ (∀ a ∈ l, ∀ b ∈ next a, b ∈ l) ∧ Rooted next root l

instance [DecidableEq α] (next : α → List α) (root : α) : DecidablePred (Spans next root) := fun l =>
  inferInstanceAs (Decidable (root ∈ l ∧ (∀ a ∈ l, ∀ b ∈ next a, b ∈ l) ∧ Rooted next root l))

theorem Spans.mem_iff {next : α → List α} {root : α} {l : List α} (h : Spans next root l) {a : α} :
    a ∈ l ↔ Reaches next root a :=
  ⟨h.2.2.reaches a, Reaches.mem_of_closed h.2.1 h.1⟩

/-- `l` lists the trees of `as` in post-order. -/
inductive PostOrder (next : α → List α) : List α → List α → Prop
  | nil : PostOrder next [] []
  | cons {a : α} {as below rest : List α} (hbelow : PostOrder next (next a) below)
      (hrest : PostOrder next as rest) : PostOrder next (a :: as) (below ++ a :: rest)

namespace PostOrder

variable {next : α → List α} {as bs l l' : List α}

theorem append (h : PostOrder next as l) (h' : PostOrder next bs l') :
    PostOrder next (as ++ bs) (l ++ l') := by
  induction h with
  | nil => exact h'
  | cons hbelow _ _ ih =>
      rw [List.append_assoc]
      exact .cons hbelow ih

theorem singleton {a : α} (h : PostOrder next (next a) l) : PostOrder next [a] (l ++ [a]) :=
  .cons h .nil

/-- What can be reached is listed. -/
theorem mem_iff (h : PostOrder next as l) (b : α) : b ∈ l ↔ ∃ a ∈ as, Reaches next a b := by
  induction h with
  | nil => simp
  | @cons a as below rest _ _ ihbelow ihrest =>
      have hhead : Reaches next a b ↔ a = b ∨ ∃ c ∈ next a, Reaches next c b :=
        Relation.ReflTransGen.cases_head_iff
      rw [List.mem_append, List.mem_cons, ihbelow, ihrest, List.exists_mem_cons_iff, hhead,
        eq_comm, or_left_comm, or_assoc]

/-- What is earlier is not `R`-related to what is later, if no node is to its ancestors, nor to what
    lies below a later sibling of one. -/
theorem pairwise {R : α → α → Prop} (h : PostOrder next as l)
    (hup : ∀ a c x, c ∈ next a → Reaches next c x → ¬ R x a)
    (hside : ∀ a, (next a).Pairwise fun b c => ∀ x y, Reaches next b x → Reaches next c y → ¬ R x y)
    (hroots : as.Pairwise fun b c => ∀ x y, Reaches next b x → Reaches next c y → ¬ R x y) :
    l.Pairwise fun x y => ¬ R x y := by
  induction h with
  | nil => exact .nil
  | @cons a as below rest hbelow hrest ihbelow ihrest =>
      obtain ⟨hfirst, hroots⟩ := List.pairwise_cons.1 hroots
      have hlater : ∀ x, Reaches next a x → ∀ y ∈ rest, ¬ R x y := by
        intro x hx y hy
        obtain ⟨b, hb, hby⟩ := (hrest.mem_iff y).1 hy
        exact hfirst b hb x y hx hby
      refine List.pairwise_append.2 ⟨ihbelow (hside a), ?_, ?_⟩
      · exact List.pairwise_cons.2 ⟨hlater a .refl, ihrest hroots⟩
      · intro x hx y hy
        obtain ⟨c, hc, hcx⟩ := (hbelow.mem_iff x).1 hx
        rcases List.mem_cons.1 hy with rfl | hy
        · exact hup _ c x hc hcx
        · exact hlater x (.head hc hcx) y hy

end PostOrder
