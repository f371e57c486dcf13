import InotifyTools.Base.KeyedMap

set_option autoImplicit false

/-! # Moving entries to other keys

The entries of a map are moved one by one: each is erased and made again under its new key, unless
that is taken. If the new keys differ from each other and from the keys of other entries, nothing is
lost on the way, and the map ends as the image of what it was. -/

namespace KeyedMap

open Std (TreeMap TransCmp LawfulEqCmp)

variable {κ ν : Type} {cmp : κ → κ → Ordering} [TransCmp cmp] [LawfulEqCmp cmp] [DecidableEq κ]

/-- `f` can move the entries of `idx`, which has a key for each value: no two come together, and none
    comes to the key of another. -/
structure Movable (f : κ → κ) (idx : TreeMap κ ν cmp) : Prop where
  single : ∀ (a b : κ) (v : ν), idx[a]? = some v → idx[b]? = some v → a = b
  inj : ∀ (a b : κ) (u v : ν), idx[a]? = some u → idx[b]? = some v → f a = f b → a = b
  free : ∀ (a b : κ) (u v : ν), idx[a]? = some u → idx[b]? = some v → f a = b → a = b

/-- `idx` is `idx₀` with all entries moved by `f`, but for those of the values in `rest`. -/
def Rekeyed (f : κ → κ) (idx₀ idx : TreeMap κ ν cmp) (rest : List ν) : Prop :=
  ∀ (k : κ) (v : ν), idx[k]? = some v ↔
    ∃ k₀ : κ, idx₀[k₀]? = some v ∧ (v ∈ rest ∧ k₀ = k ∨ v ∉ rest ∧ f k₀ = k)

namespace Rekeyed

variable {f : κ → κ} {idx₀ idx : TreeMap κ ν cmp} {rest : List ν} {k : κ} {v : ν}

omit [DecidableEq κ] in
/-- Nothing has been moved yet. -/
theorem start (f : κ → κ) (idx : TreeMap κ ν cmp) : Rekeyed f idx idx idx.values := by
  intro k v
  constructor
  · exact fun hk => ⟨k, hk, .inl ⟨(mem_values _ _).2 ⟨k, hk⟩, rfl⟩⟩
  · rintro ⟨k₀, hk, ⟨-, rfl⟩ | ⟨hv, -⟩⟩
    · exact hk
    · exact absurd ((mem_values _ _).2 ⟨k₀, hk⟩) hv

omit [TransCmp cmp] [LawfulEqCmp cmp] [DecidableEq κ] in
/-- Everything has been moved. -/
theorem finish (h : Rekeyed f idx₀ idx []) (k : κ) (v : ν) :
    idx[k]? = some v ↔ ∃ k₀ : κ, idx₀[k₀]? = some v ∧ f k₀ = k := by
  rw [h]
  simp

omit [TransCmp cmp] [LawfulEqCmp cmp] [DecidableEq κ] in
/-- An entry that is still to come is where it was. -/
theorem waiting (h : Rekeyed f idx₀ idx (v :: rest)) (hk : idx₀[k]? = some v) :
    idx[k]? = some v := (h k v).2 ⟨k, hk, .inl ⟨List.mem_cons_self, rfl⟩⟩

omit [TransCmp cmp] [LawfulEqCmp cmp] [DecidableEq κ] in
/-- The new key of the next entry is not taken by another. -/
theorem vacant (h : Rekeyed f idx₀ idx (v :: rest)) (hf : Movable f idx₀) (hk : idx₀[k]? = some v)
    {u : ν} (hu : idx[f k]? = some u) : f k = k := by
  obtain ⟨k₀, hk₀, ⟨-, he⟩ | ⟨hnot, he⟩⟩ := (h _ u).1 hu
  · exact (hf.free k k₀ v u hk hk₀ he.symm ▸ he.symm : f k = k)
  · have hsame : k₀ = k := hf.inj k₀ k u v hk₀ hk he
    subst hsame
    cases hk.symm.trans hk₀
    exact absurd List.mem_cons_self hnot

omit [TransCmp cmp] [LawfulEqCmp cmp] [DecidableEq κ] in
/-- The next entry stays where it is. -/
theorem stay (h : Rekeyed f idx₀ idx (v :: rest)) (hf : Movable f idx₀) (hk : idx₀[k]? = some v)
    (hfix : f k = k) : Rekeyed f idx₀ idx rest := by
  intro a u
  rw [h]
  refine exists_congr fun k₀ => and_congr_right fun hk₀ => ?_
  by_cases hu : u = v
  · subst hu
    cases hf.single k₀ k u hk₀ hk
    simp only [List.mem_cons_self, true_and, not_true_eq_false, false_and, or_false, hfix]
    tauto
  · simp only [List.mem_cons, hu, false_or]

/-- The next entry is erased and made again under its new key. -/
theorem move (h : Rekeyed f idx₀ idx (v :: rest)) (hf : Movable f idx₀) (hk : idx₀[k]? = some v)
    (hv : v ∉ rest) : Rekeyed f idx₀ ((idx.erase k).insertIfNew (f k) v) rest := by
  have hvacant : (idx.erase k)[f k]? = none := by
    rw [lookup_erase]
    split
    · rfl
    · next hne =>
        cases hu : idx[f k]? with
        | none => rfl
        | some u => exact absurd (h.vacant hf hk hu).symm hne
  intro a u
  rw [lookup_insertIfNew]
  by_cases ha : f k = a
  · -- the new entry, and no other comes here
    rw [if_pos ha, ← ha, hvacant, Option.getD_none]
    constructor
    · rintro ⟨⟩
      exact ⟨k, hk, .inr ⟨hv, rfl⟩⟩
    · rintro ⟨k₀, hk₀, hplace⟩
      have hsame : k₀ = k := by
        rcases hplace with ⟨-, he⟩ | ⟨-, he⟩
        · exact (hf.free k k₀ v u hk hk₀ he.symm).symm
        · exact hf.inj k₀ k u v hk₀ hk he
      subst hsame
      exact hk.symm.trans hk₀
  · rw [if_neg ha, lookup_erase]
    split
    · next he =>
        -- nothing stands where the entry was
        subst he
        refine iff_of_false nofun ?_
        rintro ⟨k₀, hk₀, ⟨hu, rfl⟩ | ⟨-, he⟩⟩
        · cases hk.symm.trans hk₀
          exact hv hu
        · exact ha (hf.free k₀ k u v hk₀ hk he ▸ he)
    · next hne =>
        rw [h]
        refine exists_congr fun k₀ => and_congr_right fun hk₀ => ?_
        by_cases hu : u = v
        · subst hu
          cases hf.single k₀ k u hk₀ hk
          simp only [List.mem_cons_self, hne, ha, and_false, or_self]
        · simp only [List.mem_cons, hu, false_or]

end Rekeyed

end KeyedMap
