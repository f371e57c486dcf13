import InotifyTools.Implementation.Garden
import InotifyTools.Proofs.Landscapes

set_option autoImplicit false

/-! # The garden on the map -/

namespace InotifyTools

namespace Garden

variable {d : Garden} {watched : List Bytes}

/-! ## Descriptors -/

theorem toInt_ofNat {n : Nat} (h : n < capacity) : (Int32.ofNat (n + 1)).toInt = n + 1 := by
  have hcapacity : capacity = 1073741824 := rfl
  rw [Int32.toInt_ofNat_of_lt (by omega)]
  rfl

theorem charted_ofNat {n : Nat} (h : n < capacity) :
    charted watched (Int32.ofNat (n + 1)) = watched[n]? := by
  have hint := toInt_ofNat h
  have hpos : (0 : Int32) < Int32.ofNat (n + 1) := by
    rw [Int32.lt_iff_toInt_lt, hint, Int32.toInt_zero]
    omega
  unfold charted
  rw [if_pos hpos, hint]
  rfl

theorem charted_nil (wd : Int32) : charted [] wd = none := by
  unfold charted
  split <;> rfl

theorem mem_of_charted {wd : Int32} {p : Bytes} (h : charted watched wd = some p) : p ∈ watched := by
  unfold charted at h
  split at h
  · exact List.mem_of_getElem? h
  · cases h

theorem charted_map (f : Bytes → Bytes) (wd : Int32) :
    charted (watched.map f) wd = (charted watched wd).map f := by
  unfold charted
  split
  · exact List.getElem?_map
  · rfl

theorem charted_append (h : watched.length < capacity) (p : Bytes) :
    charted (watched ++ [p]) =
      Function.update (charted watched) (Int32.ofNat (watched.length + 1)) (some p) := by
  have hint := toInt_ofNat h
  funext wd
  rw [Function.update_apply]
  split
  · next he =>
      rw [he, charted_ofNat h]
      simp
  · next hne =>
      unfold charted
      split
      · next hpos =>
          rw [Int32.lt_iff_toInt_lt, Int32.toInt_zero] at hpos
          have hint' : wd.toInt ≠ watched.length + 1 := fun he =>
            hne (Int32.toInt_inj.1 (he.trans hint.symm))
          generalize wd.toInt = i at hpos hint'
          rw [List.getElem?_append]
          split
          · rfl
          · rw [List.getElem?_eq_none (by simp; omega), List.getElem?_eq_none (by omega)]
      · rfl

/-! ## What it knows -/

/-- What the kernel knows. -/
def view (d : Garden) : Terrain where
  tree := d.tree
  chart := charted d.watched
  room := capacity - d.watched.length

theorem pending_setStream {dir : Nat} {rest : Option (List CString)}
    (h : d.pending dir ≠ none ∨ rest = none) :
    (d.setStream dir rest).pending = Function.update d.pending dir rest := by
  funext i
  rw [pending, setStream, List.getElem?_set, Function.update_apply]
  by_cases hi : i = dir
  · rw [if_pos hi, if_pos hi.symm]
    split
    · rfl
    · next hge =>
        have hnone : d.pending dir = none := by
          rw [pending, List.getElem?_eq_none (not_lt.1 hge)]
          rfl
        rw [h.resolve_left (not_not.2 hnone)]
        rfl
  · rw [if_neg hi, if_neg (Ne.symm hi)]
    rfl

theorem view_peek {d d' : Garden} (h : Peek d d') : d'.view = d.view := by
  cases h with
  | opendir p =>
      simp only [Sys.opendir]
      split <;> rfl
  | readdir dir =>
      simp only [Sys.readdir]
      split <;> rfl
  | closedir dir => rfl
  | lstat p =>
      simp only [Sys.lstat]
      split <;> rfl

/-- What is new to the chart gets the next descriptor. -/
theorem addWatch_new {p : Bytes} (hread : (d.tree.look p).isReadable = true)
    (hroom : d.watched.length < capacity) (hfresh : Desk.trim p ++ [slash] ∉ d.watched) :
    d.addWatch p = (Int32.ofNat (d.watched.length + 1),
      { d with watched := d.watched ++ [Desk.trim p ++ [slash]] }) := by
  unfold addWatch
  rw [if_pos hread, List.idxOf?_eq_none_iff.2 hfresh, if_pos hroom]

/-- It answers by what it knows. -/
def landscape : Landscape Garden where
  fd := instanceFd
  view := view
  pending := pending
  peek := view_peek
  fwrite _ _ _ := ⟨rfl, rfl⟩
  syslog _ _ := rfl
  opendir p d names h := by
    change d.tree.look p.bytes = _ at h
    refine ⟨d.streams.length, ?_, ?_, ?_⟩
    · simp [Sys.opendir, h]
    · simp [pending]
    · have hstate : (Sys.opendir p d).2 = { d with streams := d.streams ++ [some names] } := by
        simp [Sys.opendir, h]
      rw [hstate]
      funext i
      rw [pending, List.getElem?_append, Function.update_apply]
      split
      · next hlt => rw [if_neg hlt.ne]; rfl
      · next hge =>
          by_cases hi : i = d.streams.length
          · rw [if_pos hi, hi, Nat.sub_self]
            rfl
          · rw [if_neg hi, pending, List.getElem?_eq_none (by simp; omega),
              List.getElem?_eq_none (by omega)]
  opendir_sealed p d h := by
    change d.tree.look p.bytes = _ at h
    have hstate : Sys.opendir p d = (none, { d with errno := eacces }) := by simp [Sys.opendir, h]
    rw [hstate]
    exact ⟨rfl, rfl, rfl⟩
  readdir_cons dir d n names h := by
    have hstate : Sys.readdir dir d = (some n, d.setStream dir (some names)) := by
      simp [Sys.readdir, h]
    rw [hstate]
    exact ⟨rfl, pending_setStream (.inl (by simp [h]))⟩
  readdir_nil dir d h := by simp [Sys.readdir, h]
  closedir _ _ := pending_setStream (.inr rfl)
  lstat p d h := by
    change d.tree.hidden _ = _ at h
    refine ⟨if (d.tree.look p.bytes).isDirectory then sIfdir else 0x8000, ?_, ?_⟩
    · simp [Sys.lstat, h]
    · show _ ↔ (d.tree.look p.bytes).isDirectory = true
      cases (d.tree.look p.bytes).isDirectory <;> decide
  lstat_hidden p d h := by
    change d.tree.hidden _ = _ at h
    simp [Sys.lstat, Sys.errno, h]
  lstat_pending p d := by
    simp only [Sys.lstat]
    split <;> rfl
  addWatch p mask d hread hroom hfresh := by
    have hlen : d.watched.length < capacity := Nat.lt_of_sub_pos hroom
    have hnew : Desk.trim p.bytes ++ [slash] ∉ d.watched := by
      intro hmem
      obtain ⟨i, hi, hget⟩ := List.getElem_of_mem hmem
      refine hfresh (Int32.ofNat (i + 1)) ?_
      show charted d.watched _ = _
      rw [charted_ofNat (hi.trans hlen), List.getElem?_eq_getElem hi, hget, spelled_eq_trim]
    have hanswer : Sys.inotifyAddWatch instanceFd p mask d = _ := addWatch_new hread hlen hnew
    have hint := toInt_ofNat hlen
    rw [hanswer, spelled_eq_trim]
    refine ⟨?_, ?_, rfl, ?_⟩
    · rw [Int32.lt_iff_toInt_lt, hint, Int32.toInt_zero]
      omega
    · show charted d.watched _ = none
      rw [charted_ofNat hlen, List.getElem?_eq_none le_rfl]
    · unfold view
      dsimp only
      rw [charted_append hlen, List.length_append, List.length_singleton, Nat.sub_add_eq]

end Garden

end InotifyTools
