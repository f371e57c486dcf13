import InotifyTools.Proofs.Invariants

set_option autoImplicit false

/-! # Descriptors and names

What `wd_from_filename` and `filename_from_wd` find, as functions of the store, and how each change of
the store moves them. -/

namespace InotifyTools

open KeyedMap

namespace Store

/-- The descriptor of the watch found under a name. -/
def wdOf (s : Store) (n : Bytes) : Option Int32 :=
  s.byFilename[n]?.bind fun id => s.watches[id]?.map Watch.wd

/-- The name of the watch found under a descriptor. -/
def nameOf (s : Store) (wd : Int32) : Option Bytes :=
  s.byWd[wd]?.bind fun id => s.watches[id]?.map fun v => v.filename.bytes

variable {s : Store} {id : Nat} {v : Watch} {n : Bytes} {wd : Int32}

theorem wdOf_some (hn : s.byFilename[n]? = some id) (hv : s.watches[id]? = some v) :
    s.wdOf n = some v.wd := by
  simp [wdOf, hn, hv]

theorem nameOf_some (hwd : s.byWd[wd]? = some id) (hv : s.watches[id]? = some v) :
    s.nameOf wd = some v.filename.bytes := by
  simp [nameOf, hwd, hv]

theorem wdOf_none (hn : s.byFilename[n]? = none) : s.wdOf n = none := by
  simp [wdOf, hn]

theorem nameOf_none (hwd : s.byWd[wd]? = none) : s.nameOf wd = none := by
  simp [nameOf, hwd]

theorem mem_keys_of_wdOf (h : s.wdOf n ≠ none) : n ∈ s.byFilename.keys := by
  rw [Std.TreeMap.mem_keys, Std.TreeMap.mem_iff_isSome_getElem?]
  cases hid : s.byFilename[n]? with
  | none => exact absurd (wdOf_none hid) h
  | some id => rfl

/-- The names found are C strings. -/
theorem nameOf_noNul (h : s.nameOf wd = some n) : 0 ∉ n := by
  simp only [nameOf, Option.bind_eq_some_iff, Option.map_eq_some_iff] at h
  obtain ⟨id, -, v, -, rfl⟩ := h
  exact v.filename.noNul

/-- An entry by name is found together with its watch, which has that name. -/
theorem WellIndexed.found_filename (h : s.WellIndexed) (hn : s.byFilename[n]? = some id) :
    ∃ v, s.watches[id]? = some v ∧ v.filename.bytes = n ∧ s.wdOf n = some v.wd := by
  obtain ⟨v, hv, hkey⟩ := h.byFilename n id hn
  exact ⟨v, hv, Option.some.inj hkey, wdOf_some hn hv⟩

theorem WellIndexed.found_wd (h : s.WellIndexed) (hwd : s.byWd[wd]? = some id) :
    ∃ v, s.watches[id]? = some v ∧ v.wd = wd ∧ s.nameOf wd = some v.filename.bytes := by
  obtain ⟨v, hv, hkey⟩ := h.byWd wd id hwd
  exact ⟨v, hv, Option.some.inj hkey, nameOf_some hwd hv⟩

/-- A name is found exactly when it is a key of the name index. -/
theorem WellIndexed.wdOf_eq_none (h : s.WellIndexed) : s.wdOf n = none ↔ s.byFilename[n]? = none := by
  refine ⟨fun hn => ?_, wdOf_none⟩
  cases hid : s.byFilename[n]? with
  | none => rfl
  | some id =>
      obtain ⟨v, -, -, hwd⟩ := h.found_filename hid
      rw [hwd] at hn
      cases hn

theorem WellIndexed.nameOf_eq_none (h : s.WellIndexed) : s.nameOf wd = none ↔ s.byWd[wd]? = none := by
  refine ⟨fun hwd => ?_, nameOf_none⟩
  cases hid : s.byWd[wd]? with
  | none => rfl
  | some id =>
      obtain ⟨v, -, -, hn⟩ := h.found_wd hid
      rw [hn] at hwd
      cases hwd

/-- Descriptors that are found are positive. -/
theorem Positive.nameOf (hp : s.Positive) (h : s.WellIndexed) (hn : s.nameOf wd = some n) :
    0 < wd := by
  cases hid : s.byWd[wd]? with
  | none => rw [nameOf_none hid] at hn; cases hn
  | some id =>
      obtain ⟨v, hv, rfl, -⟩ := h.found_wd hid
      exact hp id v hv

theorem Positive.wdOf (hp : s.Positive) (hu : s.wdOf n = some wd) : 0 < wd := by
  simp only [Store.wdOf, Option.bind_eq_some_iff, Option.map_eq_some_iff] at hu
  obtain ⟨id, -, v, hv, rfl⟩ := hu
  exact hp id v hv

/-! ## Creating a watch -/

/-- A watch that is already there stays what it is. -/
theorem watches_insert_old (h : s.WellIndexed) {u : Watch} (hu : s.watches[id]? = some u) :
    (s.insert v).watches[id]? = some u := by
  have hne : s.nextId ≠ id := (Nat.ne_of_lt (h.idLt id u hu)).symm
  simp only [insert]
  split
  · rwa [lookup_insert, if_neg hne]
  · exact hu

theorem watches_insert_new (h : s.accepts v = true) :
    (s.insert v).watches[s.nextId]? = some v := by
  simp only [insert, h, if_true]
  rw [lookup_insert, if_pos rfl]

/-- The new name is found unless it was taken; nothing else changes. -/
theorem wdOf_insert (h : s.WellIndexed) (v : Watch) (n : Bytes) :
    (s.insert v).wdOf n = if v.filename.bytes = n then some ((s.wdOf n).getD v.wd) else s.wdOf n := by
  cases hn : s.byFilename[n]? with
  | some id =>
      obtain ⟨u, hu, -, hwd⟩ := h.found_filename hn
      have hn' : (s.insert v).byFilename[n]? = some id := by
        simp only [insert, lookup_insertIfNew, hn, Option.getD_some, ite_self]
      rw [wdOf_some hn' (watches_insert_old h hu), hwd, Option.getD_some, ite_self]
  | none =>
      rw [wdOf_none hn]
      by_cases he : v.filename.bytes = n
      · subst he
        have hnew : s.byFilename.contains v.filename.bytes = false := by
          rw [contains_eq_isSome, hn]
          rfl
        have hacc : s.accepts v = true := by
          rw [accepts, hnew]
          simp
        have hn' : (s.insert v).byFilename[v.filename.bytes]? = some s.nextId := by
          simp only [insert, lookup_insertIfNew, hn, Option.getD_none, if_true]
        rw [if_pos rfl, wdOf_some hn' (watches_insert_new hacc), Option.getD_none]
      · have hn' : (s.insert v).byFilename[n]? = none := by
          simp only [insert, lookup_insertIfNew, if_neg he, hn]
        rw [if_neg he, wdOf_none hn']

/-- The new descriptor leads to the new name unless it was taken; nothing else changes. -/
theorem nameOf_insert (h : s.WellIndexed) (v : Watch) (wd : Int32) :
    (s.insert v).nameOf wd =
      if v.wd = wd then some ((s.nameOf wd).getD v.filename.bytes) else s.nameOf wd := by
  cases hwd : s.byWd[wd]? with
  | some id =>
      obtain ⟨u, hu, -, hn⟩ := h.found_wd hwd
      have hwd' : (s.insert v).byWd[wd]? = some id := by
        simp only [insert, lookup_insertIfNew, hwd, Option.getD_some, ite_self]
      rw [nameOf_some hwd' (watches_insert_old h hu), hn, Option.getD_some, ite_self]
  | none =>
      rw [nameOf_none hwd]
      by_cases he : v.wd = wd
      · subst he
        have hnew : s.byWd.contains v.wd = false := by
          rw [contains_eq_isSome, hwd]
          rfl
        have hacc : s.accepts v = true := by
          rw [accepts, hnew]
          simp
        have hwd' : (s.insert v).byWd[v.wd]? = some s.nextId := by
          simp only [insert, lookup_insertIfNew, hwd, Option.getD_none, if_true]
        rw [if_pos rfl, nameOf_some hwd' (watches_insert_new hacc), Option.getD_none]
      · have hwd' : (s.insert v).byWd[wd]? = none := by
          simp only [insert, lookup_insertIfNew, if_neg he, hwd]
        rw [if_neg he, nameOf_none hwd']

/-! ## Destroying a watch -/

/-- What is found by name after a watch is destroyed: everything but its name. -/
theorem wdOf_remove (h : s.WellIndexed) (hv : s.watches[id]? = some v) (n : Bytes) :
    (s.remove id v).wdOf n = if v.filename.bytes = n then none else s.wdOf n := by
  by_cases he : v.filename.bytes = n
  · rw [if_pos he]
    apply wdOf_none
    simp only [remove, lookup_erase, if_pos he]
  · rw [if_neg he]
    have hn' : (s.remove id v).byFilename[n]? = s.byFilename[n]? := by
      simp only [remove, lookup_erase, if_neg he]
    cases hn : s.byFilename[n]? with
    | none => rw [wdOf_none hn, wdOf_none (hn'.trans hn)]
    | some i =>
        obtain ⟨u, hu, hname, hwd⟩ := h.found_filename hn
        have hne : id ≠ i := by
          rintro rfl
          cases hv.symm.trans hu
          exact he hname
        have hu' : (s.remove id v).watches[i]? = some u := by
          simp only [remove, lookup_erase, if_neg hne, hu]
        rw [wdOf_some (hn'.trans hn) hu', hwd]

theorem nameOf_remove (h : s.WellIndexed) (hv : s.watches[id]? = some v) (wd : Int32) :
    (s.remove id v).nameOf wd = if v.wd = wd then none else s.nameOf wd := by
  by_cases he : v.wd = wd
  · rw [if_pos he]
    apply nameOf_none
    simp only [remove, lookup_erase, if_pos he]
  · rw [if_neg he]
    have hwd' : (s.remove id v).byWd[wd]? = s.byWd[wd]? := by
      simp only [remove, lookup_erase, if_neg he]
    cases hwd : s.byWd[wd]? with
    | none => rw [nameOf_none hwd, nameOf_none (hwd'.trans hwd)]
    | some i =>
        obtain ⟨u, hu, hkey, hn⟩ := h.found_wd hwd
        have hne : id ≠ i := by
          rintro rfl
          cases hv.symm.trans hu
          exact he hkey
        have hu' : (s.remove id v).watches[i]? = some u := by
          simp only [remove, lookup_erase, if_neg hne, hu]
        rw [nameOf_some (hwd'.trans hwd) hu', hn]

/-! ## Renaming a watch -/

/-- A renamed watch keeps its descriptor. -/
theorem watches_rename_wd {m : CString} (hv : s.watches[id]? = some v) (i : Nat) :
    ((s.rename id v m).watches[i]?).map Watch.wd = s.watches[i]?.map Watch.wd := by
  simp only [rename, lookup_insert]
  split
  · next he => rw [← he, hv]; rfl
  · rfl

theorem nameOf_rename (h : s.WellIndexed) (hv : s.watches[id]? = some v) (m : CString)
    (wd : Int32) : (s.rename id v m).nameOf wd =
      if s.byWd[wd]? = some id then some m.bytes else s.nameOf wd := by
  have hwd' : (s.rename id v m).byWd[wd]? = s.byWd[wd]? := rfl
  cases hwd : s.byWd[wd]? with
  | none => rw [nameOf_none hwd, nameOf_none (hwd'.trans hwd), if_neg (by simp)]
  | some i =>
      by_cases he : i = id
      · subst he
        have hv' : (s.rename i v m).watches[i]? = some { v with filename := m } :=
          (lookup_insert ..).trans (if_pos rfl)
        rw [if_pos rfl, nameOf_some (hwd'.trans hwd) hv']
      · obtain ⟨u, hu, -, hn⟩ := h.found_wd hwd
        have hu' : (s.rename id v m).watches[i]? = some u :=
          (lookup_insert ..).trans ((if_neg (Ne.symm he)).trans hu)
        rw [if_neg (by simpa using he), nameOf_some (hwd'.trans hwd) hu', hn]

/-! ## Counting events -/

/-- Counting changes no name. -/
theorem nameOf_setStats (hv : s.watches[id]? = some v) (stats : WatchStats) (wd : Int32) :
    (s.setStats id v stats).nameOf wd = s.nameOf wd := by
  unfold nameOf
  have hwatch : ∀ i : Nat, (s.setStats id v stats).watches[i]?.map (fun v => v.filename.bytes)
      = s.watches[i]?.map fun v => v.filename.bytes := by
    intro i
    simp only [setStats, lookup_insert]
    split
    · next he => rw [← he, hv]; rfl
    · rfl
  simp only [hwatch]
  rfl

end Store

end InotifyTools
