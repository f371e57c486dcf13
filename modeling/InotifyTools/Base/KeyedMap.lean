import Mathlib.Order.Interval.Finset.Nat
import Std.Data.TreeMap.Lemmas
import Mathlib.Tactic.Common

set_option autoImplicit false

/-! # Lookups in keyed maps

`Std.TreeMap` lookups after an update, for comparisons that only call equal keys equal, so that the
key tests are plain equations. -/

namespace KeyedMap

open Std (TreeMap TransCmp LawfulEqCmp)

variable {α β : Type} {cmp : α → α → Ordering} [TransCmp cmp] [LawfulEqCmp cmp] [DecidableEq α]

theorem lookup_insert (t : TreeMap α β cmp) (k a : α) (v : β) :
    (t.insert k v)[a]? = if k = a then some v else t[a]? := by
  simp [TreeMap.getElem?_insert]

/-- Inserting keeps an entry that is already there. -/
theorem lookup_insertIfNew (t : TreeMap α β cmp) (k a : α) (v : β) :
    (t.insertIfNew k v)[a]? = if k = a then some (t[a]?.getD v) else t[a]? := by
  rw [TreeMap.getElem?_insertIfNew]
  by_cases hk : k = a
  · subst hk
    cases h : t[k]? with
    | none =>
        have hmem : k ∉ t := by
          rw [TreeMap.mem_iff_isSome_getElem?, h]
          simp
        simp [hmem]
    | some x =>
        have hmem : k ∈ t := by
          rw [TreeMap.mem_iff_isSome_getElem?, h]
          rfl
        simp [hmem]
  · simp [hk]

theorem lookup_erase (t : TreeMap α β cmp) (k a : α) :
    (t.erase k)[a]? = if k = a then none else t[a]? := by
  simp [TreeMap.getElem?_erase]

omit [LawfulEqCmp cmp] [DecidableEq α] in
theorem contains_eq_isSome (t : TreeMap α β cmp) (a : α) : t.contains a = t[a]?.isSome :=
  TreeMap.isSome_getElem?_eq_contains.symm

omit [TransCmp cmp] [LawfulEqCmp cmp] [DecidableEq α] in
theorem values_eq_map (t : TreeMap α β cmp) : t.values = t.toList.map Prod.snd := by
  calc t.values = t.foldr (fun _ v l => v :: l) [] := rfl
    _ = t.toList.foldr (fun p l => p.2 :: l) [] := TreeMap.foldr_eq_foldr_toList
    _ = t.toList.map Prod.snd := List.map_eq_foldr.symm

omit [DecidableEq α] in
/-- The values of a map are those its keys lead to. -/
theorem mem_values (t : TreeMap α β cmp) (v : β) :
    v ∈ t.values ↔ ∃ a : α, t[a]? = some v := by
  rw [values_eq_map, List.mem_map]
  constructor
  · rintro ⟨⟨a, v'⟩, h, rfl⟩
    exact ⟨a, TreeMap.mem_toList_iff_getElem?_eq_some.1 h⟩
  · rintro ⟨a, h⟩
    exact ⟨(a, v), TreeMap.mem_toList_iff_getElem?_eq_some.2 h, rfl⟩

omit [DecidableEq α] in
theorem mem_keys_of_lookup {t : TreeMap α β cmp} {a : α} {v : β} (h : t[a]? = some v) :
    a ∈ t.keys := by
  rw [TreeMap.mem_keys, TreeMap.mem_iff_isSome_getElem?, h]
  rfl

omit [DecidableEq α] in
/-- A map with at most one key for each value lists every value once. -/
theorem nodup_values {t : TreeMap α β cmp}
    (h : ∀ (a b : α) (v : β), t[a]? = some v → t[b]? = some v → a = b) : t.values.Nodup := by
  rw [values_eq_map, List.Nodup, List.pairwise_map]
  refine List.Pairwise.imp_of_mem ?_ TreeMap.distinct_keys_toList
  rintro ⟨a, v⟩ ⟨b, v'⟩ ha hb hne (rfl : v = v')
  have hab : a = b := h a b v (TreeMap.mem_toList_iff_getElem?_eq_some.1 ha)
    (TreeMap.mem_toList_iff_getElem?_eq_some.1 hb)
  subst hab
  exact hne Std.ReflCmp.compare_self

/-- A map has as many entries as there are keys. -/
theorem size_eq_card (t : TreeMap α β cmp) (s : Finset α)
    (h : ∀ a : α, a ∈ s ↔ ∃ v, t[a]? = some v) : t.size = s.card := by
  have hnodup : t.keys.Nodup := by
    refine List.Pairwise.imp ?_ (TreeMap.distinct_keys (t := t))
    rintro a b hne rfl
    exact hne Std.ReflCmp.compare_self
  have hkeys : t.keys.toFinset = s := by
    ext a
    rw [List.mem_toFinset, TreeMap.mem_keys, TreeMap.mem_iff_isSome_getElem?,
      Option.isSome_iff_exists, h]
  rw [← TreeMap.length_keys, ← List.toFinset_card_of_nodup hnodup, hkeys]

/-- There are fewer than 2^31 positive numbers. -/
theorem card_lt_of_positive {s : Finset Int32} (h : ∀ n ∈ s, 0 < n) : s.card < 2 ^ 31 := by
  have hpos : ∀ n ∈ s, 0 < n.toInt := fun n hn => Int32.lt_iff_toInt_lt.1 (h n hn)
  have hle : s.card ≤ (Finset.Ico 1 (2 ^ 31)).card := by
    refine Finset.card_le_card_of_injOn (fun n => n.toInt.toNat) (fun n hn => ?_) ?_
    · have hlow := hpos n hn
      have hhigh : n.toInt < 2 ^ 31 := n.toInt_lt
      simp only [Finset.coe_Ico, Set.mem_Ico]
      omega
    · intro n hn m hm (he : n.toInt.toNat = m.toInt.toNat)
      have hlow := hpos n hn
      have hlow' := hpos m hm
      exact Int32.toInt_inj.1 (by omega)
  rw [Nat.card_Ico] at hle
  exact Nat.lt_of_le_of_lt hle (by omega)

/-- A map with positive keys has fewer than 2^31 entries. -/
theorem size_lt_of_positive {β : Type} {t : TreeMap Int32 β} (h : ∀ n ∈ t, 0 < n) :
    t.size < 2 ^ 31 := by
  have hkeys : ∀ n : Int32, n ∈ t.keys.toFinset ↔ ∃ v, t[n]? = some v := by
    intro n
    rw [List.mem_toFinset, TreeMap.mem_keys, TreeMap.mem_iff_isSome_getElem?,
      Option.isSome_iff_exists]
  rw [size_eq_card t _ hkeys]
  exact card_lt_of_positive fun n hn => h n (TreeMap.mem_keys.1 (List.mem_toFinset.1 hn))

end KeyedMap
