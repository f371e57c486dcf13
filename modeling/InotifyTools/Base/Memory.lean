import Mathlib.Algebra.Order.Ring.Int
import Mathlib.Data.List.TakeWhile
import Mathlib.Tactic.Common

set_option autoImplicit false

/-! # Byte memory

A fixed-size byte buffer is a function from offsets to bytes; the size is the caller's business and
is passed where reading past the end is defined. Writes replace a range, and a word is stored little
endian. -/

/-- A byte string. -/
abbrev Bytes := List UInt8

/-- The bytes of a string of ASCII characters. -/
def ascii (s : String) : Bytes := s.toList.map (·.toUInt8)

/-- The contents of a byte buffer. -/
abbrev Mem := Nat → UInt8

namespace Mem

/-- The buffer of zero bytes. -/
def zero : Mem := fun _ => 0

/-- Replace the `n` bytes at `off` by `f 0, f 1, …`. -/
def write (m : Mem) (off n : Nat) (f : Nat → UInt8) : Mem :=
  fun i => if off ≤ i ∧ i < off + n then f (i - off) else m i

/-- Store the byte string `bs` at `off`. -/
def blit (m : Mem) (off : Nat) (bs : Bytes) : Mem := m.write off bs.length (bs.getD · 0)

/-- Store one byte. -/
def set (m : Mem) (off : Nat) (b : UInt8) : Mem := m.write off 1 fun _ => b

/-- The `n` bytes at `off`. -/
def slice (m : Mem) (off : Nat) : Nat → Bytes
  | 0 => []
  | n + 1 => m off :: m.slice (off + 1) n

/-- The byte at `off` of a buffer of `size` bytes, 0 past its end. -/
def get (m : Mem) (size off : Nat) : UInt8 := if off < size then m off else 0

/-! ## Reading back what was written -/

theorem write_of_lt {m : Mem} {off n i : Nat} {f : Nat → UInt8} (h : i < off) :
    m.write off n f i = m i := by
  simp [write, Nat.not_le.2 h]

theorem write_of_ge {m : Mem} {off n i : Nat} {f : Nat → UInt8} (h : off + n ≤ i) :
    m.write off n f i = m i := by
  simp [write, Nat.not_lt.2 h]

theorem write_of_mem {m : Mem} {off n i : Nat} {f : Nat → UInt8} (h : i < n) :
    m.write off n f (off + i) = f i := by
  simp [write, h]

theorem blit_of_mem {m : Mem} {off i : Nat} {bs : Bytes} (h : i < bs.length) :
    m.blit off bs (off + i) = bs[i] := by
  simp [blit, write_of_mem h, h]

theorem blit_of_ge {m : Mem} {off i : Nat} {bs : Bytes} (h : off + bs.length ≤ i) :
    m.blit off bs i = m i := write_of_ge h

theorem blit_of_lt {m : Mem} {off i : Nat} {bs : Bytes} (h : i < off) :
    m.blit off bs i = m i := write_of_lt h

theorem set_eq_blit (m : Mem) (off : Nat) (b : UInt8) : m.set off b = m.blit off [b] := by
  funext i
  unfold set blit write
  rw [List.length_singleton]
  split
  · next h =>
      rw [Nat.sub_eq_zero_of_le (by omega)]
      rfl
  · rfl

@[simp] theorem length_slice (m : Mem) (off n : Nat) : (m.slice off n).length = n := by
  induction n generalizing off with
  | zero => rfl
  | succ n ih => simp [slice, ih]

@[simp] theorem getElem_slice (m : Mem) (off n i : Nat) (h : i < (m.slice off n).length) :
    (m.slice off n)[i] = m (off + i) := by
  induction n generalizing off i with
  | zero => simp at h
  | succ n ih =>
      cases i with
      | zero => rfl
      | succ i =>
          have hi : i < (m.slice (off + 1) n).length := by simpa using h
          calc (m.slice off (n + 1))[i + 1] = (m.slice (off + 1) n)[i] := rfl
            _ = m (off + 1 + i) := ih (off + 1) i hi
            _ = m (off + (i + 1)) := by rw [Nat.add_assoc, Nat.add_comm 1]

/-- A slice is the list whose bytes stand at its offsets. -/
theorem slice_eq_iff {m : Mem} {off : Nat} {bs : Bytes} :
    m.slice off bs.length = bs ↔ ∀ i (h : i < bs.length), m (off + i) = bs[i] := by
  constructor
  · intro h i hi
    have hs : i < (m.slice off bs.length).length := by simpa using hi
    calc m (off + i) = (m.slice off bs.length)[i] := (getElem_slice m off bs.length i hs).symm
      _ = bs[i] := by simp only [h]
  · intro h
    apply List.ext_getElem
    · simp
    · intro i _ hi
      rw [getElem_slice]
      exact h i hi

theorem slice_append (m : Mem) (off n k : Nat) :
    m.slice off (n + k) = m.slice off n ++ m.slice (off + n) k := by
  apply List.ext_getElem
  · simp
  · intro i h₁ h₂
    rw [getElem_slice, List.getElem_append]
    split
    · simp
    · next hlt =>
        simp only [length_slice] at hlt
        simp only [length_slice, getElem_slice]
        congr 1
        omega

/-- The two parts of a byte string stand one behind the other. -/
theorem slice_append_eq {m : Mem} {off : Nat} {xs ys : Bytes}
    (h : m.slice off (xs ++ ys).length = xs ++ ys) :
    m.slice off xs.length = xs ∧ m.slice (off + xs.length) ys.length = ys := by
  rw [List.length_append, slice_append] at h
  exact List.append_inj h (by simp)

theorem slice_blit (m : Mem) (off : Nat) (bs : Bytes) : (m.blit off bs).slice off bs.length = bs :=
  slice_eq_iff.2 fun _ h => blit_of_mem h

theorem slice_congr {m m' : Mem} {off n : Nat} (h : ∀ i, i < n → m (off + i) = m' (off + i)) :
    m.slice off n = m'.slice off n := by
  apply List.ext_getElem
  · simp
  · intro i hi _
    simp only [getElem_slice]
    exact h i (by simpa using hi)

/-- A write elsewhere leaves a slice alone. -/
theorem slice_write_of_disjoint {m : Mem} {off n o k : Nat} {f : Nat → UInt8}
    (h : off + n ≤ o ∨ o + k ≤ off) : (m.write o k f).slice off n = m.slice off n := by
  refine slice_congr fun i hi => ?_
  rcases h with h | h
  · exact write_of_lt (by omega)
  · exact write_of_ge (by omega)

theorem blit_append (m : Mem) (off : Nat) (xs ys : Bytes) :
    m.blit off (xs ++ ys) = (m.blit off xs).blit (off + xs.length) ys := by
  have hlen : (xs ++ ys).length = xs.length + ys.length := List.length_append
  funext i
  rcases Nat.lt_or_ge i (off + xs.length) with hlt | hge
  · rw [blit_of_lt hlt]
    rcases Nat.lt_or_ge i off with hlt' | hge'
    · rw [blit_of_lt hlt', blit_of_lt hlt']
    · obtain ⟨k, rfl⟩ := Nat.exists_eq_add_of_le hge'
      rw [blit_of_mem (by omega), blit_of_mem (by omega), List.getElem_append_left]
  · rcases Nat.lt_or_ge i (off + xs.length + ys.length) with hlt' | hge'
    · obtain ⟨k, rfl⟩ := Nat.exists_eq_add_of_le hge
      rw [blit_of_mem (by omega), Nat.add_assoc, blit_of_mem (by omega),
        List.getElem_append_right (by omega)]
      congr 1
      omega
    · rw [blit_of_ge hge', blit_of_ge hge, blit_of_ge (by omega)]

/-- The middle of a byte string is replaced by as many bytes. -/
theorem slice_blit_inside {m : Mem} {off : Nat} {xs ys ys' zs : Bytes}
    (h : m.slice off (xs ++ (ys ++ zs)).length = xs ++ (ys ++ zs)) (hlen : ys'.length = ys.length) :
    (m.blit (off + xs.length) ys').slice off (xs ++ (ys' ++ zs)).length = xs ++ (ys' ++ zs) := by
  obtain ⟨hxs, hrest⟩ := slice_append_eq h
  obtain ⟨-, hzs⟩ := slice_append_eq hrest
  rw [List.length_append, slice_append, List.length_append, slice_append, slice_blit]
  unfold blit
  rw [slice_write_of_disjoint (.inl (by omega)), slice_write_of_disjoint (.inr (by omega)), hxs, hlen,
    hzs]

end Mem

/-! ## Little-endian words -/

/-- The number a little-endian byte string stands for. -/
def leNat : Bytes → Nat
  | [] => 0
  | b :: bs => b.toNat + 256 * leNat bs

/-- The `k` low bytes of `n`, little endian. -/
def leBytes : Nat → Nat → Bytes
  | 0, _ => []
  | k + 1, n => UInt8.ofNat n :: leBytes k (n / 256)

@[simp] theorem length_leBytes (k n : Nat) : (leBytes k n).length = k := by
  induction k generalizing n with
  | zero => rfl
  | succ k ih => simp [leBytes, ih]

/-- Reading back the `k` low bytes of `n` gives `n` modulo `256 ^ k`. -/
theorem leNat_leBytes (k n : Nat) : leNat (leBytes k n) = n % 256 ^ k := by
  induction k generalizing n with
  | zero => simp [leBytes, leNat, Nat.mod_one]
  | succ k ih =>
      have hb : (UInt8.ofNat n).toNat = n % 256 := by simp
      rw [leBytes, leNat, ih, hb, Nat.pow_succ, Nat.mul_comm (256 ^ k) 256, Nat.mod_mul]

/-- A number that fits in `k` bytes is read back. -/
theorem leNat_leBytes_of_lt {k n : Nat} (h : n < 256 ^ k) : leNat (leBytes k n) = n := by
  rw [leNat_leBytes, Nat.mod_eq_of_lt h]
