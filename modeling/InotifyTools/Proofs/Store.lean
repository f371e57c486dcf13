import InotifyTools.Base.Index
import InotifyTools.Implementation.Format

set_option autoImplicit false

/-! # Integrity of the watch store

`Store.WellIndexed`: the three indexes never dangle, an entry stands under the current key of its
watch, and ids are below the counter. `Store.Precedes` relates a store to a later one: ids are not
reused, so whatever an old id still leads to is the watch it led to before. Both hold of every change
the library makes to the store. -/

namespace InotifyTools

open KeyedMap

namespace Store

/-! ## The invariant -/

/-- The key of a watch in each index. -/
def wdKey (w : Watch) : Option Int32 := some w.wd
def fidKey (w : Watch) : Option FidKey := w.fid.map FidKey.new
def filenameKey (w : Watch) : Option Bytes := some w.filename.bytes

/-- Every index entry leads to a watch with that key, and every id is below the counter. -/
structure WellIndexed (s : Store) : Prop where
  byWd : Indexes wdKey s.watches s.byWd
  byFid : Indexes fidKey s.watches s.byFid
  byFilename : Indexes filenameKey s.watches s.byFilename
  idLt : ∀ id w, s.watches[id]? = some w → id < s.nextId

/-- An entry made by `insertIfNew` leads to the new value, or was there before. -/
theorem insertIfNew_eq {κ : Type} {cmp : κ → κ → Ordering} [Std.TransCmp cmp]
    [Std.LawfulEqCmp cmp] [DecidableEq κ] {idx : Std.TreeMap κ Nat cmp} {k a : κ} {n id : Nat}
    (h : (idx.insertIfNew k n)[a]? = some id) : id = n ∧ k = a ∨ idx[a]? = some id := by
  rw [lookup_insertIfNew] at h
  split at h
  · next he =>
      cases hx : idx[a]? with
      | none =>
          rw [hx] at h
          cases h
          exact .inl ⟨rfl, he⟩
      | some x =>
          rw [hx] at h
          cases h
          exact .inr rfl
  · exact .inr h

/-- What is left after an erasure was there before. -/
theorem erase_eq {κ ρ : Type} {cmp : κ → κ → Ordering} [Std.TransCmp cmp]
    [Std.LawfulEqCmp cmp] [DecidableEq κ] {idx : Std.TreeMap κ ρ cmp} {k a : κ} {v : ρ}
    (h : (idx.erase k)[a]? = some v) : idx[a]? = some v := by
  rw [lookup_erase] at h
  split at h
  · cases h
  · exact h

/-- Some entry by descriptor or by name leads to `id`. -/
def Listed (s : Store) (id : Nat) : Prop :=
  (∃ wd : Int32, s.byWd[wd]? = some id) ∨ ∃ n : Bytes, s.byFilename[n]? = some id

/-- `s'` is a later store than `s`: an id given out before leads to the watch it led to then (with
    its descriptor, fid and directory, possibly renamed and counted), or to nothing. -/
structure Precedes (s s' : Store) : Prop where
  nextId : s.nextId ≤ s'.nextId
  same : ∀ id w', id < s.nextId → s'.watches[id]? = some w' →
    ∃ w, s.watches[id]? = some w ∧ w.wd = w'.wd ∧ w.fid = w'.fid ∧ w.dirf = w'.dirf

namespace Precedes

variable {s s' s'' : Store}

theorem refl (s : Store) : s.Precedes s :=
  ⟨le_refl _, fun _ w _ h => ⟨w, h, rfl, rfl, rfl⟩⟩

theorem trans (h : s.Precedes s') (h' : s'.Precedes s'') : s.Precedes s'' where
  nextId := h.nextId.trans h'.nextId
  same id w'' hid hw := by
    obtain ⟨w', hw', hwd', hfid', hdirf'⟩ := h'.same id w'' (hid.trans_le h.nextId) hw
    obtain ⟨w, hw, hwd, hfid, hdirf⟩ := h.same id w' hid hw'
    exact ⟨w, hw, hwd.trans hwd', hfid.trans hfid', hdirf.trans hdirf'⟩

/-- Dropping watches keeps the rest what they are. -/
theorem of_subset (hn : s'.nextId = s.nextId)
    (h : ∀ (id : Nat) (w : Watch), s'.watches[id]? = some w → s.watches[id]? = some w) :
    s.Precedes s' :=
  ⟨hn.ge, fun id w _ hw => ⟨w, h id w hw, rfl, rfl, rfl⟩⟩

/-- Renaming or counting a watch keeps its identity. -/
theorem of_update {id : Nat} {w w' : Watch} (hn : s'.nextId = s.nextId)
    (hw : s.watches[id]? = some w) (hs : s'.watches = s.watches.insert id w')
    (hwd : w.wd = w'.wd) (hfid : w.fid = w'.fid) (hdirf : w.dirf = w'.dirf) : s.Precedes s' where
  nextId := hn.ge
  same id' v _ hv := by
    rw [hs, lookup_insert] at hv
    split at hv
    · next he =>
        cases hv
        exact ⟨w, he ▸ hw, hwd, hfid, hdirf⟩
    · exact ⟨v, hv, rfl, rfl, rfl⟩

end Precedes

variable {s : Store} {id : Nat} {w : Watch}

/-! ## Starting over -/

theorem wellIndexed_empty : Store.empty.WellIndexed where
  byWd := .empty _ _
  byFid := .empty _ _
  byFilename := .empty _ _
  idLt id w h := by simp [Store.empty] at h

theorem WellIndexed.clearIndexes (h : s.WellIndexed) : s.clearIndexes.WellIndexed where
  byWd := .empty _ _
  byFid := .empty _ _
  byFilename := .empty _ _
  idLt := h.idLt

theorem WellIndexed.clear (s : Store) : s.clear.WellIndexed where
  byWd := .empty _ _
  byFid := .empty _ _
  byFilename := .empty _ _
  idLt id w h := by simp [Store.clear] at h

theorem WellIndexed.counter (h : s.WellIndexed) (wd : Int32) :
    { s with nextFanotifyWd := wd }.WellIndexed :=
  ⟨h.byWd, h.byFid, h.byFilename, h.idLt⟩

theorem precedes_clearIndexes (s : Store) : s.Precedes s.clearIndexes :=
  .of_subset rfl fun _ _ h => h

theorem precedes_clear (s : Store) : s.Precedes s.clear :=
  .of_subset rfl fun _ _ h => by simp [Store.clear] at h

theorem precedes_counter (s : Store) (wd : Int32) : s.Precedes { s with nextFanotifyWd := wd } :=
  .of_subset rfl fun _ _ h => h

/-! ## Creating a watch -/

/-- The next id is not in use. -/
theorem WellIndexed.nextId_free (h : s.WellIndexed) : s.watches[s.nextId]? = none := by
  cases hw : s.watches[s.nextId]? with
  | none => rfl
  | some w => exact absurd (h.idLt _ _ hw) (Nat.lt_irrefl _)

/-- No index leads to the next id. -/
theorem not_indexed_nextId {κ : Type} {cmp : κ → κ → Ordering} {key : Watch → Option κ}
    {idx : Std.TreeMap κ Nat cmp} (h : s.WellIndexed) (hi : Indexes key s.watches idx) (k : κ) :
    idx[k]? ≠ some s.nextId := by
  intro hk
  obtain ⟨w, hw, -⟩ := hi k _ hk
  simp [h.nextId_free] at hw

/-- An index stays right when the next id is entered under the key of the watch it is given to. -/
theorem Indexes.create {κ : Type} {cmp : κ → κ → Ordering} [Std.TransCmp cmp]
    [Std.LawfulEqCmp cmp] [DecidableEq κ] {key : Watch → Option κ} {idx : Std.TreeMap κ Nat cmp}
    {k : κ} (h : s.WellIndexed) (hi : Indexes key s.watches idx) (hk : key w = some k) :
    Indexes key (s.watches.insert s.nextId w) (idx.insertIfNew k s.nextId) := by
  apply KeyedMap.Indexes.enter (r := w)
  · exact hi.set fun k' hk' => absurd hk' (not_indexed_nextId h hi k')
  · rw [lookup_insert, if_pos rfl]
  · exact hk

/-- Entering an id under a key that is taken changes no lookup. -/
theorem lookup_insertIfNew_taken {κ : Type} {cmp : κ → κ → Ordering} [Std.TransCmp cmp]
    [Std.LawfulEqCmp cmp] [DecidableEq κ] {idx : Std.TreeMap κ Nat cmp} {k : κ} (v : Nat)
    (h : idx.contains k = true) (a : κ) : (idx.insertIfNew k v)[a]? = idx[a]? := by
  rw [contains_eq_isSome, Option.isSome_iff_exists] at h
  obtain ⟨x, hx⟩ := h
  rw [lookup_insertIfNew]
  split
  · next he => rw [← he, hx, Option.getD_some]
  · rfl

/-- `accepts` is false only of a watch all of whose keys are taken. -/
theorem taken_of_not_accepts (h : s.accepts w = false) :
    s.byWd.contains w.wd = true ∧ (∀ f, w.fid = some f → s.byFid.contains (FidKey.new f) = true) ∧
      s.byFilename.contains w.filename.bytes = true := by
  simp only [accepts, Bool.or_eq_false_iff, Bool.not_eq_false'] at h
  obtain ⟨⟨hwd, hfid⟩, hname⟩ := h
  refine ⟨hwd, fun f hf => ?_, hname⟩
  rw [hf] at hfid
  simpa using hfid

/-- A watch no index accepts leaves every lookup as it was. -/
theorem lookups_of_not_accepts (h : s.accepts w = false) :
    (s.insert w).watches = s.watches ∧
      (∀ k : Int32, (s.insert w).byWd[k]? = s.byWd[k]?) ∧
      (∀ k : FidKey, (s.insert w).byFid[k]? = s.byFid[k]?) ∧
      (∀ k : Bytes, (s.insert w).byFilename[k]? = s.byFilename[k]?) := by
  obtain ⟨hwd, hfid, hname⟩ := taken_of_not_accepts h
  refine ⟨?_, lookup_insertIfNew_taken _ hwd, ?_, lookup_insertIfNew_taken _ hname⟩
  · simp [insert, h]
  · intro k
    cases hf : w.fid with
    | none => simp [insert, insertFid, hf]
    | some f =>
        simp only [insert, insertFid, hf]
        exact lookup_insertIfNew_taken _ (hfid f hf) k

theorem WellIndexed.insert (h : s.WellIndexed) (w : Watch) : (s.insert w).WellIndexed := by
  by_cases ha : s.accepts w = true
  · have hwatches : (s.insert w).watches = s.watches.insert s.nextId w := by simp [Store.insert, ha]
    refine ⟨?_, ?_, ?_, ?_⟩
    · rw [hwatches]
      exact Indexes.create h h.byWd rfl
    · rw [hwatches]
      cases hf : w.fid with
      | none =>
          simp only [Store.insert, insertFid, hf]
          exact h.byFid.set fun k hk => absurd hk (not_indexed_nextId h h.byFid k)
      | some f =>
          simp only [Store.insert, insertFid, hf]
          exact Indexes.create h h.byFid (by simp [fidKey, hf])
    · rw [hwatches]
      exact Indexes.create h h.byFilename rfl
    · intro id v hv
      rw [hwatches, lookup_insert] at hv
      split at hv
      · next he => exact he ▸ Nat.lt_succ_self _
      · exact (h.idLt id v hv).trans (Nat.lt_succ_self _)
  · obtain ⟨hw, hwd, hfid, hname⟩ := lookups_of_not_accepts (Bool.eq_false_iff.2 ha)
    refine ⟨?_, ?_, ?_, ?_⟩
    · intro k id hk
      exact hw ▸ h.byWd k id (hwd k ▸ hk)
    · intro k id hk
      exact hw ▸ h.byFid k id (hfid k ▸ hk)
    · intro k id hk
      exact hw ▸ h.byFilename k id (hname k ▸ hk)
    · intro id v hv
      exact (h.idLt id v (hw ▸ hv)).trans (Nat.lt_succ_self _)

theorem precedes_insert (s : Store) (w : Watch) : s.Precedes (s.insert w) where
  nextId := Nat.le_succ _
  same id v hid hv := by
    refine ⟨v, ?_, rfl, rfl, rfl⟩
    simp only [insert] at hv
    split at hv
    · rwa [lookup_insert, if_neg (Nat.ne_of_gt hid)] at hv
    · exact hv

/-! ## Destroying a watch -/

theorem WellIndexed.remove (h : s.WellIndexed) (hw : s.watches[id]? = some w) :
    (s.remove id w).WellIndexed where
  byWd := h.byWd.remove hw rfl
  byFid := by
    cases hf : w.fid with
    | none =>
        simp only [Store.remove, hf]
        exact h.byFid.remove_keyless hw (by simp [fidKey, hf])
    | some f =>
        simp only [Store.remove, hf]
        exact h.byFid.remove hw (by simp [fidKey, hf])
  byFilename := h.byFilename.remove hw rfl
  idLt id' v hv := by
    simp only [Store.remove, lookup_erase] at hv
    split at hv
    · cases hv
    · exact h.idLt id' v hv

theorem precedes_remove (s : Store) (id : Nat) (w : Watch) : s.Precedes (s.remove id w) := by
  refine .of_subset rfl fun id' v hv => ?_
  simp only [remove, lookup_erase] at hv
  split at hv
  · cases hv
  · exact hv

/-! ## Renaming a watch -/

/-- The name index without the entry of the watch `id` under its old name. -/
def releaseName (s : Store) (id : Nat) (w : Watch) : Std.TreeMap Bytes Nat :=
  if s.byFilename[w.filename.bytes]? = some id then s.byFilename.erase w.filename.bytes
  else s.byFilename

theorem rename_byFilename (s : Store) (id : Nat) (w : Watch) (n : CString) :
    (s.rename id w n).byFilename = (s.releaseName id w).insertIfNew n.bytes id := rfl

/-- Once it is released no name leads to the watch. -/
theorem releaseName_ne (h : s.WellIndexed) (hw : s.watches[id]? = some w) (k : Bytes) :
    (s.releaseName id w)[k]? ≠ some id := by
  unfold releaseName
  split
  · exact h.byFilename.not_indexed hw rfl k
  · next hne =>
      intro hk
      have hkey := h.byFilename.key_eq hk hw
      cases hkey
      exact hne hk

theorem WellIndexed.rename (h : s.WellIndexed) (hw : s.watches[id]? = some w) (n : CString) :
    (s.rename id w n).WellIndexed where
  byWd := h.byWd.set_same hw rfl
  byFid := h.byFid.set_same hw rfl
  byFilename := by
    rw [rename_byFilename]
    have hreleased : Indexes filenameKey s.watches (s.releaseName id w) := by
      unfold releaseName
      split
      · exact h.byFilename.eraseKey _
      · exact h.byFilename
    apply KeyedMap.Indexes.enter (r := { w with filename := n })
    · exact hreleased.set fun k hk => absurd hk (releaseName_ne h hw k)
    · exact (lookup_insert ..).trans (if_pos rfl)
    · rfl
  idLt id' v hv := by
    simp only [Store.rename, lookup_insert] at hv
    split at hv
    · next he => exact he ▸ h.idLt id w hw
    · exact h.idLt id' v hv

theorem precedes_rename (hw : s.watches[id]? = some w) (n : CString) :
    s.Precedes (s.rename id w n) :=
  .of_update rfl hw rfl rfl rfl rfl

/-- Names lead where they did after another watch is renamed. -/
theorem rename_keeps (w : Watch) (n : CString) {k : Bytes} {i : Nat} (hi : i ≠ id) (hk : s.byFilename[k]? = some i) :
    (s.rename id w n).byFilename[k]? = some i := by
  have hreleased : (s.releaseName id w)[k]? = some i := by
    unfold releaseName
    split
    · next hown =>
        rw [lookup_erase, if_neg]
        · exact hk
        · rintro rfl
          rw [hown] at hk
          exact hi (Option.some.inj hk).symm
    · exact hk
  rw [rename_byFilename, lookup_insertIfNew]
  split
  · next he => rw [hreleased, Option.getD_some]
  · exact hreleased

/-! ## Counting events -/

theorem WellIndexed.setStats (h : s.WellIndexed) (hw : s.watches[id]? = some w)
    (stats : WatchStats) : (s.setStats id w stats).WellIndexed where
  byWd := h.byWd.set_same hw rfl
  byFid := h.byFid.set_same hw rfl
  byFilename := h.byFilename.set_same hw rfl
  idLt id' v hv := by
    simp only [Store.setStats, lookup_insert] at hv
    split at hv
    · next he => exact he ▸ h.idLt id w hw
    · exact h.idLt id' v hv

theorem precedes_setStats (hw : s.watches[id]? = some w) (stats : WatchStats) :
    s.Precedes (s.setStats id w stats) :=
  .of_update rfl hw rfl rfl rfl rfl

end Store

end InotifyTools
