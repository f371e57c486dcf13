import Mathlib.Data.Int.Init
import Mathlib.Tactic.Common

set_option autoImplicit false

/-! # Bit masks

Masks of 32 bits as signed numbers: what a union of masks has, and masks of a single bit. -/

namespace Masks

/-! ## Unions -/

theorem and_or_distrib_left (m a b : Int32) : m &&& (a ||| b) = m &&& a ||| m &&& b := by
  rw [← Int32.toBitVec_inj]
  exact BitVec.and_or_distrib_left

theorem and_or_distrib_right (a b m : Int32) : (a ||| b) &&& m = a &&& m ||| b &&& m := by
  rw [← Int32.toBitVec_inj]
  exact BitVec.and_or_distrib_right

/-- The union of some masks and `acc`. -/
def union (acc : Int32) (ms : List Int32) : Int32 := ms.foldl (· ||| ·) acc

@[simp] theorem union_nil (acc : Int32) : union acc [] = acc := rfl

@[simp] theorem union_cons (acc m : Int32) (ms : List Int32) :
    union acc (m :: ms) = union (acc ||| m) ms := rfl

theorem union_eq_or (acc : Int32) (ms : List Int32) : union acc ms = acc ||| union 0 ms := by
  induction ms generalizing acc with
  | nil => exact Int32.or_zero.symm
  | cons m ms ih =>
      rw [union_cons, union_cons, ih, ih (0 ||| m), Int32.or_assoc, Int32.zero_or]

/-- A union is empty when all its parts are. -/
theorem union_eq_zero_iff {acc : Int32} {ms : List Int32} :
    union acc ms = 0 ↔ acc = 0 ∧ ∀ m ∈ ms, m = 0 := by
  induction ms generalizing acc with
  | nil => simp
  | cons m ms ih => rw [union_cons, ih, Int32.or_eq_zero_iff, List.forall_mem_cons, and_assoc]

/-- A union of masks within `k` is within `k`. -/
theorem union_within {k acc : Int32} {ms : List Int32} (hacc : acc &&& k = acc)
    (h : ∀ m ∈ ms, m &&& k = m) : union acc ms &&& k = union acc ms := by
  induction ms generalizing acc with
  | nil => exact hacc
  | cons m ms ih =>
      rw [List.forall_mem_cons] at h
      exact ih (by rw [and_or_distrib_right, hacc, h.1]) h.2

theorem union_append (acc : Int32) (ms ns : List Int32) :
    union acc (ms ++ ns) = union acc ms ||| union 0 ns := by
  rw [union, List.foldl_append]
  exact union_eq_or _ ns

/-! ## Single bits -/

/-- A mask of one bit, which another mask has or has not. -/
def Single (f : Int32) : Prop := ∃ i < 32, f.toBitVec = BitVec.twoPow 32 i

instance : DecidablePred Single := fun f =>
  inferInstanceAs (Decidable (∃ i < 32, f.toBitVec = BitVec.twoPow 32 i))

theorem Single.and {f : Int32} (h : Single f) (m : Int32) :
    m &&& f = if f &&& m = 0 then 0 else f := by
  obtain ⟨i, -, hi⟩ := h
  have hand : (m &&& f).toBitVec = if m.toBitVec.getLsbD i then f.toBitVec else 0 := by
    rw [Int32.toBitVec_and, hi, BitVec.and_twoPow]
    rfl
  rw [Int32.and_comm f m]
  split
  · next hzero => exact hzero
  · next hne =>
      rw [← Int32.toBitVec_inj, hand]
      split
      · rfl
      · next hbit =>
          rw [if_neg hbit] at hand
          exact absurd (Int32.toBitVec_inj.1 hand) hne

/-- The single bits that a mask has make up what it has of their union. -/
theorem union_filter_single {ms : List Int32} (m : Int32) (h : ∀ f ∈ ms, Single f) :
    union 0 (ms.filter fun f => f &&& m ≠ 0) = m &&& union 0 ms := by
  induction ms with
  | nil => exact Int32.and_zero.symm
  | cons f ms ih =>
      rw [List.forall_mem_cons] at h
      rw [union_cons, Int32.zero_or, union_eq_or f ms, and_or_distrib_left, ← ih h.2, h.1.and]
      by_cases hf : f &&& m = 0
      · rw [List.filter_cons_of_neg (by simpa using hf), if_pos hf, Int32.zero_or]
      · rw [List.filter_cons_of_pos (by simpa using hf), if_neg hf, union_cons, Int32.zero_or,
          union_eq_or f]

end Masks
