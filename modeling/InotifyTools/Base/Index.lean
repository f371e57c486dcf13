import InotifyTools.Base.KeyedMap

set_option autoImplicit false

/-! # Indexes over a table

A table keeps records under numbers; an index leads from keys to numbers. `Indexes key tbl idx` says
that no entry of the index dangles and that every entry stands under the key of its record. Nothing
says that every record is indexed, so an index may refuse an entry whose key is taken. -/

namespace KeyedMap

open Std (TreeMap TransCmp LawfulEqCmp)

variable {ρ κ : Type} {cmp : κ → κ → Ordering} [TransCmp cmp] [LawfulEqCmp cmp] [DecidableEq κ]

/-- Every entry of `idx` leads to a record of `tbl` whose key is that of the entry. -/
def Indexes (key : ρ → Option κ) (tbl : TreeMap Nat ρ) (idx : TreeMap κ Nat cmp) : Prop :=
  ∀ (k : κ) (id : Nat), idx[k]? = some id → ∃ r, tbl[id]? = some r ∧ key r = some k

namespace Indexes

variable {key : ρ → Option κ} {tbl : TreeMap Nat ρ} {idx : TreeMap κ Nat cmp} {id : Nat} {r : ρ}
  {k : κ}

omit [LawfulEqCmp cmp] [DecidableEq κ] in
theorem empty (key : ρ → Option κ) (tbl : TreeMap Nat ρ) :
    Indexes key tbl (∅ : TreeMap κ Nat cmp) := by
  intro k id h
  simp at h

omit [TransCmp cmp] [LawfulEqCmp cmp] [DecidableEq κ] in
/-- The key of an entry is the key of the record it leads to. -/
theorem key_eq (h : Indexes key tbl idx) (hk : idx[k]? = some id) (hr : tbl[id]? = some r) :
    key r = some k := by
  obtain ⟨r', hr', hkey⟩ := h k id hk
  cases hr.symm.trans hr'
  exact hkey

omit [TransCmp cmp] [LawfulEqCmp cmp] [DecidableEq κ] in
/-- At most one entry leads to a record. -/
theorem inj {k' : κ} (h : Indexes key tbl idx) (hk : idx[k]? = some id)
    (hk' : idx[k']? = some id) : k = k' := by
  obtain ⟨r, hr, hkey⟩ := h k id hk
  exact Option.some.inj (hkey.symm.trans (h.key_eq hk' hr))

omit [TransCmp cmp] [LawfulEqCmp cmp] [DecidableEq κ] in
/-- Writing a record whose key is that of the entry leading to it, if there is one. -/
theorem set (h : Indexes key tbl idx) (hr : ∀ k : κ, idx[k]? = some id → key r = some k) :
    Indexes key (tbl.insert id r) idx := by
  intro k id' hk
  by_cases hid : id = id'
  · subst hid
    exact ⟨r, by rw [lookup_insert, if_pos rfl], hr k hk⟩
  · rw [lookup_insert, if_neg hid]
    exact h k id' hk

omit [TransCmp cmp] [LawfulEqCmp cmp] [DecidableEq κ] in
/-- Replacing a record by one with the same key. -/
theorem set_same {r' : ρ} (h : Indexes key tbl idx) (hr : tbl[id]? = some r)
    (hkey : key r' = key r) : Indexes key (tbl.insert id r') idx :=
  h.set fun _ hk => hkey.trans (h.key_eq hk hr)

omit [TransCmp cmp] [LawfulEqCmp cmp] [DecidableEq κ] in
/-- Entries stay right when a record no entry leads to is dropped. -/
theorem drop (h : Indexes key tbl idx) (hid : ∀ k : κ, idx[k]? ≠ some id) :
    Indexes key (tbl.erase id) idx := by
  intro k id' hk
  have hne : id ≠ id' := fun he => hid k (he ▸ hk)
  rw [lookup_erase, if_neg hne]
  exact h k id' hk

/-- Entering a record under its key, which may be taken. -/
theorem enter (h : Indexes key tbl idx) (hr : tbl[id]? = some r) (hk : key r = some k) :
    Indexes key tbl (idx.insertIfNew k id) := by
  intro k' id' hk'
  rw [lookup_insertIfNew] at hk'
  by_cases hkk : k = k'
  · subst hkk
    rw [if_pos rfl] at hk'
    cases hx : idx[k]? with
    | none =>
        rw [hx] at hk'
        cases hk'
        exact ⟨r, hr, hk⟩
    | some x =>
        rw [hx] at hk'
        cases hk'
        exact h k _ hx
  · rw [if_neg hkk] at hk'
    exact h k' id' hk'

theorem eraseKey (h : Indexes key tbl idx) (k : κ) : Indexes key tbl (idx.erase k) := by
  intro k' id' hk'
  rw [lookup_erase] at hk'
  split at hk'
  · cases hk'
  · exact h k' id' hk'

/-- After its key is erased no entry leads to a record. -/
theorem not_indexed (h : Indexes key tbl idx) (hr : tbl[id]? = some r) (hk : key r = some k)
    (k' : κ) : (idx.erase k)[k']? ≠ some id := by
  intro hk'
  rw [lookup_erase] at hk'
  split at hk'
  · cases hk'
  · next hne => exact hne (Option.some.inj (hk.symm.trans (h.key_eq hk' hr)))

/-- Dropping a record together with the entry under its key. -/
theorem remove (h : Indexes key tbl idx) (hr : tbl[id]? = some r) (hk : key r = some k) :
    Indexes key (tbl.erase id) (idx.erase k) :=
  (h.eraseKey k).drop (h.not_indexed hr hk)

omit [TransCmp cmp] [LawfulEqCmp cmp] [DecidableEq κ] in
/-- Dropping a record without a key. -/
theorem remove_keyless (h : Indexes key tbl idx) (hr : tbl[id]? = some r) (hk : key r = none) :
    Indexes key (tbl.erase id) idx :=
  h.drop fun _ hk' => by simpa [hk] using h.key_eq hk' hr

end Indexes

end KeyedMap
