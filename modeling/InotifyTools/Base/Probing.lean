import Mathlib.Data.Finset.Card
import Mathlib.Data.Nat.Find
import Mathlib.Logic.Function.Iterate

set_option autoImplicit false

/-! # Probing

From a place, `next` is taken again and again until the place is not occupied. A search that ends at
all ends soon: the places it passes are all occupied and all different, since one that came back
would lead it around forever. -/

namespace Probing

variable {α : Type} {next : α → α} {taken : α → Bool} {a b : α} {n m : Nat}

/-- The first place behind `a` that is not occupied, if `n` steps lead to one. -/
def probe (next : α → α) (taken : α → Bool) : Nat → α → Option α
  | 0, _ => none
  | n + 1, a => if taken (next a) then probe next taken n (next a) else some (next a)

theorem probe_eq_none_iff :
    probe next taken n a = none ↔ ∀ i < n, taken (next^[i + 1] a) = true := by
  induction n generalizing a with
  | zero => exact ⟨fun _ i hi => absurd hi (Nat.not_lt_zero i), fun _ => rfl⟩
  | succ n ih =>
      rw [probe, Nat.forall_lt_succ_left]
      by_cases htaken : taken (next a) = true
      · rw [if_pos htaken, ih]
        exact (and_iff_right htaken).symm
      · rw [if_neg htaken]
        exact ⟨nofun, fun h => absurd h.1 htaken⟩

/-- What is found is not occupied. -/
theorem probe_free (h : probe next taken n a = some b) : taken b = false := by
  induction n generalizing a with
  | zero => cases h
  | succ n ih =>
      rw [probe] at h
      split at h
      · exact ih h
      · next hfree =>
          cases h
          exact Bool.eq_false_iff.2 hfree

/-- More steps do not change what is found. -/
theorem probe_mono (h : probe next taken n a = some b) (hle : n ≤ m) :
    probe next taken m a = some b := by
  induction n generalizing m a with
  | zero => cases h
  | succ n ih =>
      obtain ⟨m, rfl⟩ := Nat.exists_eq_add_of_le' (Nat.le_of_add_left_le hle)
      rw [probe] at h ⊢
      split
      · next htaken =>
          rw [if_pos htaken] at h
          exact ih h (by omega)
      · next hfree =>
          rw [if_neg hfree] at h
          exact h

/-- The places passed before the first free one are different. -/
theorem visited_injOn (htaken : ∀ i < n, taken (next^[i + 1] a) = true)
    (hfree : taken (next^[n + 1] a) ≠ true) :
    Set.InjOn (fun i => next^[i + 1] a) (Finset.range n) := by
  have hlate : ∀ i j, i < j → j < n → next^[i + 1] a ≠ next^[j + 1] a := by
    intro i j hij hj heq
    have hshift : next^[n - j + (i + 1)] a = next^[n - j + (j + 1)] a := by
      rw [Function.iterate_add_apply next (n - j) (i + 1), heq, ← Function.iterate_add_apply]
    have hlast : n - j + (j + 1) = n + 1 := by omega
    have hearlier : n - j + (i + 1) = (n - j + i) + 1 := rfl
    rw [hlast, hearlier] at hshift
    exact hfree (hshift ▸ htaken (n - j + i) (by omega))
  intro i hi j hj heq
  rw [Finset.coe_range, Set.mem_Iio] at hi hj
  by_contra hne
  rcases Nat.lt_or_gt_of_ne hne with hlt | hlt
  · exact hlate i j hlt hj heq
  · exact hlate j i hlt hi heq.symm

/-- **A search that ends takes at most one step more than there are occupied places on its way.** -/
theorem probe_ends {S : Finset α} (hends : ∃ n, probe next taken n a ≠ none)
    (hS : ∀ i, taken (next^[i + 1] a) = true → next^[i + 1] a ∈ S) :
    ∃ b, probe next taken (S.card + 1) a = some b := by
  have hlast := Nat.find_spec hends
  have hbefore : ∀ n, n < Nat.find hends → probe next taken n a = none :=
    fun n hn => not_not.1 (Nat.find_min hends hn)
  obtain ⟨n, hn⟩ : ∃ n, Nat.find hends = n + 1 := by
    refine Nat.exists_eq_add_one_of_ne_zero fun hzero => ?_
    rw [hzero] at hlast
    exact hlast rfl
  rw [hn] at hlast hbefore
  have htaken := probe_eq_none_iff.1 (hbefore n n.lt_add_one)
  have hfree : taken (next^[n + 1] a) ≠ true := by
    intro hnext
    refine hlast (probe_eq_none_iff.2 fun i hi => ?_)
    rcases Nat.lt_succ_iff_lt_or_eq.1 hi with hi | rfl
    · exact htaken i hi
    · exact hnext
  have hcard : n ≤ S.card := by
    have hle := Finset.card_le_card_of_injOn (s := Finset.range n) (fun i => next^[i + 1] a)
      (fun i hi => hS i (htaken i (Finset.mem_range.1 hi))) (visited_injOn htaken hfree)
    rwa [Finset.card_range] at hle
  obtain ⟨b, hb⟩ := Option.ne_none_iff_exists'.1 hlast
  exact ⟨b, probe_mono hb (by omega)⟩

end Probing
