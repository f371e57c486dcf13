import InotifyTools.Proofs.EventStrings
import InotifyTools.Proofs.Fids

set_option autoImplicit false

/-! # The path of a fid

A record that names a file is resolved in a buffer of its own: the path of the directory, a slash and
the name, and a mark behind it when the file is gone. -/

namespace InotifyTools

variable {f : Bytes}

/-! ## The name in a record -/

/-- Where the name of a record begins. -/
def fidNameOff (f : Bytes) : Nat := fidHdr + (Fid.handleBytes f).toNat

/-- The name in a record, up to its first NUL. -/
def fidName (f : Bytes) : Bytes := (f.drop (fidNameOff f)).takeWhile (· ≠ 0)

/-- The name of a record: none where there is no place for it or it is empty, and else one of at most
    255 bytes whose NUL belongs to the record. -/
def recordName (f : Bytes) : Option Bytes :=
  if Fid.infoType f ≠ fanEventInfoTypeDfidName ∨ (Fid.hdrLen f).toNat = fidNameOff f ∨
      fidName f = [] then some []
  else if (fidName f).length ≤ 255 ∧ fidNameOff f + (fidName f).length < (Fid.hdrLen f).toNat then
    some (fidName f)
  else none

/-- Behind the bytes taken stands a zero, or nothing. -/
theorem getD_takeWhile (bs : Bytes) : bs.getD (bs.takeWhile (· ≠ 0)).length 0 = 0 := by
  induction bs with
  | nil => rfl
  | cons b bs ih =>
      by_cases hb : b = 0
      · subst hb
        rfl
      · rw [List.takeWhile_cons_of_pos (by simpa using hb), List.length_cons, List.getD_cons_succ]
        exact ih

theorem Fid.get_add (f : Bytes) (off i : Nat) : Fid.get f (off + i) = (f.drop off).getD i 0 := by
  rw [Fid.get, List.getD_eq_getElem?_getD, List.getD_eq_getElem?_getD, List.getElem?_drop]

theorem fidName_noNul (f : Bytes) : 0 ∉ fidName f :=
  fun hmem => absurd (List.mem_takeWhile_imp hmem) (by decide)

/-- The bytes of the name, and the zero behind it. -/
theorem get_fidName (f : Bytes) {i : Nat} (hi : i < (fidName f ++ [0]).length) :
    Fid.get f (fidNameOff f + i) = (fidName f ++ [0])[i] := by
  rw [Fid.get_add]
  rcases Nat.lt_or_ge i (fidName f).length with hlt | hge
  · have hprefix : fidName f <+: f.drop (fidNameOff f) := List.takeWhile_prefix _
    rw [List.getElem_append_left hlt, List.getD_eq_getElem?_getD,
      List.getElem?_eq_getElem (hlt.trans_le hprefix.length_le), Option.getD_some, hprefix.getElem hlt]
  · rw [List.length_append, List.length_singleton] at hi
    obtain rfl : i = (fidName f).length := by omega
    rw [List.getElem_append_right le_rfl]
    exact (getD_takeWhile _).trans (by simp)

/-- A name is empty when its first byte is a zero. -/
theorem fidName_eq_nil_iff (f : Bytes) : fidName f = [] ↔ Fid.get f (fidNameOff f) = 0 := by
  have hfirst : Fid.get f (fidNameOff f) = (f.drop (fidNameOff f)).getD 0 0 := Fid.get_add f _ 0
  rw [hfirst, fidName]
  cases f.drop (fidNameOff f) with
  | nil => exact iff_of_true rfl rfl
  | cons b bs =>
      rw [List.takeWhile_eq_nil_iff, List.getD_cons_zero]
      simp

/-- What a record has for its name and the padding behind it. -/
theorem toInt_nameLen (hrecord : fidNameOff f ≤ (Fid.hdrLen f).toNat) :
    (Int32.ofNat (Fid.hdrLen f).toNat - Int32.ofNat (fidNameOff f)).toInt
      = ((Fid.hdrLen f).toNat : Int) - fidNameOff f := by
  have hshort : (Fid.hdrLen f).toNat < 2 ^ 16 := (Fid.hdrLen f).toNat_lt
  rw [Int32.toInt_sub, Int32.toInt_ofNat_of_lt (by omega), Int32.toInt_ofNat_of_lt (by omega)]
  exact Int.bmod_eq_of_le (by omega) (by omega)

theorem fidNameLen_eq (f : Bytes) : fidNameLen f =
    if Fid.infoType f = fanEventInfoTypeDfidName then
      if Int32.ofNat (Fid.hdrLen f).toNat - Int32.ofNat (fidNameOff f) ≠ 0 ∧ fidName f = [] then 0
      else Int32.ofNat (Fid.hdrLen f).toNat - Int32.ofNat (fidNameOff f)
    else 0 := by
  simp only [fidName_eq_nil_iff]
  rfl

/-- How many bytes behind the path are copied, for the name a record has. -/
theorem fidNameLen_recordName (hrecord : fidNameOff f ≤ (Fid.hdrLen f).toNat) {name : Bytes}
    (hname : name ∈ recordName f) :
    name = [] ∧ fidNameLen f = 0 ∨
      name ≠ [] ∧ name = fidName f ∧ name.length ≤ 255 ∧ (name.length : Int) < (fidNameLen f).toInt := by
  have hlen := toInt_nameLen hrecord
  rw [fidNameLen_eq]
  unfold recordName at hname
  split at hname
  · next hnone =>
      refine .inl ⟨(Option.some.inj hname).symm, ?_⟩
      by_cases htype : Fid.infoType f = fanEventInfoTypeDfidName
      · rw [if_pos htype]
        split
        · rfl
        · next hempty =>
            rcases hnone with hother | hplace | hnil
            · exact absurd htype hother
            · refine Int32.toInt_inj.1 (hlen.trans ?_)
              rw [hplace]
              exact Int.sub_self _
            · exact not_not.1 fun hne => hempty ⟨hne, hnil⟩
      · exact if_neg htype
  · next hsome =>
      rw [not_or, not_or, not_not] at hsome
      obtain ⟨htype, -, hne⟩ := hsome
      split at hname
      · next hfits =>
          obtain rfl := Option.some.inj hname
          rw [if_pos htype, if_neg fun h => hne h.2, hlen]
          exact .inr ⟨hne, rfl, hfits.1, by omega⟩
      · cases hname

/-! ## The buffer -/

variable {σ : Type} {w : World σ} {s t : Bytes}

/-- The mark goes behind what the buffer holds. -/
theorem markDeleted_run (h : HoldsString w.lib.fidname 0 s) (hroom : s.length + 11 ≤ fidnameSize) :
    ∃ m, markDeleted w = .ok ((), w.withFidname m) ∧ HoldsString m 0 (s ++ ascii " (deleted)") := by
  have hmark : (ascii " (deleted)" ++ [0]).length = 11 := by decide
  have hstop : ((w.lib.fidname.slice 0 fidnameSize).findIdx? (· = 0)).getD 0 = s.length := by
    rw [h.findIdx? (by omega)]
    rfl
  refine ⟨w.lib.fidname.blit s.length (ascii " (deleted)" ++ [0]), ?_, ?_⟩
  · unfold markDeleted
    rw [getLib_bind, hstop, if_pos (by omega)]
    exact blitFidname_run (by omega) w
  · have happend := h.append (t := ascii " (deleted)") (by decide)
    rwa [Nat.zero_add, Mem.set_eq_blit, ← Mem.blit_append] at happend

/-- The path of the directory, with the slash behind it. -/
theorem writeTarget_run {target : Bytes} (hlen : target.length ≤ pathMax - 2) (hnul : 0 ∉ target)
    (w : World σ) :
    ∃ m, HoldsString m 0 (target ++ [slash]) ∧ ∀ {α : Type} (rest : M σ α), (do
        blitFidname 0 target
        setFidname target.length slash
        setFidname (target.length + 1) 0
        rest) w = rest (w.withFidname m) := by
  have hsize : fidnameSize = 4608 := rfl
  have hpath : pathMax = 4096 := rfl
  refine ⟨((w.lib.fidname.blit 0 target).set target.length slash).set (target.length + 1) 0, ?_,
    fun rest => ?_⟩
  · have hslash : 0 ∉ target ++ [slash] := by
      rw [List.mem_append, not_or]
      exact ⟨hnul, by decide⟩
    have hwrite := HoldsString.write w.lib.fidname 0 hslash
    rwa [Mem.blit_append, Nat.zero_add, Nat.zero_add, List.length_append, List.length_singleton,
      ← Mem.set_eq_blit] at hwrite
  · rw [Prog.bind_run_ok (blitFidname_run (by omega) w),
      Prog.bind_run_ok (setFidname_run (by omega) slash _),
      Prog.bind_run_ok (setFidname_run (by omega) 0 _)]
    rfl

/-- The bytes copied behind a path hold the name, whatever comes after it in the record. -/
theorem holdsString_copied {m : Mem} {n l : Nat} (h : HoldsString m 0 s)
    (hn : (fidName f).length < n) (hl : s.length + (fidName f).length < l) :
    HoldsString ((m.blit s.length ((List.range n).map fun i => Fid.get f (fidNameOff f + i))).set l 0)
      0 (s ++ fidName f) := by
  refine .join h.noNul ?_ ⟨fidName_noNul f, ?_⟩
  · unfold Mem.set Mem.blit
    rw [Mem.slice_write_of_disjoint (.inl (by omega)), Mem.slice_write_of_disjoint (.inl (by omega)),
      h.slice]
  · refine Mem.slice_eq_iff.2 fun i hi => ?_
    have hle : i < (fidName f).length + 1 := by rwa [List.length_append] at hi
    have hcopied : i < ((List.range n).map fun i => Fid.get f (fidNameOff f + i)).length := by
      rw [List.length_map, List.length_range]
      omega
    rw [Nat.zero_add, Mem.set, Mem.write_of_lt (by omega), Mem.blit_of_mem hcopied, List.getElem_map,
      List.getElem_range, get_fidName f hi]

theorem copyName_run {n : Nat} (h : HoldsString w.lib.fidname 0 s)
    (hname : (fidName f).length < n) (hshort : (fidName f).length ≤ 255) (hs : s.length ≤ pathMax)
    (hn : n ≤ fidnameSize - 16 - s.length) :
    ∃ m, HoldsString m 0 (s ++ fidName f) ∧ ∀ {α : Type} (rest : M σ α), (do
        blitFidname s.length ((List.range n).map fun i => Fid.get f (fidNameOff f + i))
        setFidname (min (s.length + n) (fidnameSize - 12)) 0
        rest) w = rest (w.withFidname m) := by
  have hsize : fidnameSize = 4608 := rfl
  have hpath : pathMax = 4096 := rfl
  refine ⟨_, holdsString_copied h hname (l := min (s.length + n) (fidnameSize - 12)) (by omega),
    fun rest => ?_⟩
  have hcopied : s.length + ((List.range n).map fun i => Fid.get f (fidNameOff f + i)).length
      ≤ fidnameSize := by
    rw [List.length_map, List.length_range]
    omega
  rw [Prog.bind_run_ok (blitFidname_run hcopied w),
    Prog.bind_run_ok (setFidname_run (by omega) 0 _)]
  rfl

variable [Sys σ]

/-- `faccessat` reports that there is no file of the name in the directory. -/
def Gone (f : Bytes) (dirf : Int32) (os : σ) : Prop :=
  (Sys.faccessat dirf (cstring (fidName f)) os).1 ≠ 0 ∧
    Sys.errno (Sys.faccessat dirf (cstring (fidName f)) os).2 = enoent

instance (f : Bytes) (dirf : Int32) (os : σ) : Decidable (Gone f dirf os) :=
  inferInstanceAs (Decidable (_ ∧ _))

/-- What stands behind the name: a mark, if the file is gone. -/
def goneMark (f : Bytes) (dirf : Int32) (os : σ) : Bytes :=
  if Gone f dirf os then ascii " (deleted)" else []

theorem length_goneMark (f : Bytes) (dirf : Int32) (os : σ) : (goneMark f dirf os).length ≤ 10 := by
  unfold goneMark
  split <;> decide

/-- The path of a record whose directory has the path `target`. -/
def recordPath (f target name : Bytes) (dirf : Int32) (os : σ) : Bytes :=
  target ++ [slash] ++ name ++ if name = [] then [] else goneMark f dirf os

/-- A name that is appended stands behind the path, with the mark behind it. -/
theorem appendFidName_holds {nameLen dirf : Int32} {w' : World σ} (h : HoldsString w.lib.fidname 0 s)
    (hs : s.length ≤ pathMax) (hshort : (fidName f).length ≤ 255)
    (hended : ((fidName f).length : Int) < nameLen.toInt)
    (hrun : appendFidName f nameLen dirf s.length w = .ok (true, w')) :
    HoldsString w'.lib.fidname 0 (s ++ fidName f ++ goneMark f dirf w.os) := by
  have hsize : fidnameSize = 4608 := rfl
  have hpath : pathMax = 4096 := rfl
  generalize hos : (Sys.faccessat dirf (cstring (fidName f)) w.os).2 = os
  have haccess : call (Sys.faccessat dirf (cstring (fidName f))) w
      = .ok ((Sys.faccessat dirf (cstring (fidName f)) w.os).1, { w with os }) := by
    rw [← hos]
    rfl
  have herrno : errno { w with os } = .ok (Sys.errno os, { w with os }) := rfl
  rw [appendFidName] at hrun
  dsimp only at hrun
  change (call (Sys.faccessat dirf (cstring (fidName f))) >>= _) w = _ at hrun
  rw [Prog.bind_run_ok haccess, Prog.bind_run_ok herrno] at hrun
  split at hrun
  · cases hrun
  · next hfound =>
      -- The bound on what is copied leaves room for the whole name, and for the mark behind it.
      have hn : (fidName f).length < min nameLen.toInt.toNat (fidnameSize - 16 - s.length) := by omega
      obtain ⟨m, hholds, hcopy⟩ := copyName_run (w := { w with os }) h hn hshort hs (min_le_right _ _)
      have hrun := (hcopy _).symm.trans hrun
      unfold goneMark
      by_cases hdeleted : (Sys.faccessat dirf (cstring (fidName f)) w.os).1 ≠ 0
      · have hgone : Gone f dirf w.os :=
          ⟨hdeleted, hos.symm ▸ not_not.1 fun hne => hfound ⟨hdeleted, hne⟩⟩
        have hroom : (s ++ fidName f).length + 11 ≤ fidnameSize := by
          rw [List.length_append]
          omega
        obtain ⟨m', hmark, hholds'⟩ :=
          markDeleted_run (w := World.withFidname { w with os } m) hholds hroom
        rw [if_pos hdeleted, Prog.bind_run_ok hmark] at hrun
        rw [if_pos hgone]
        cases hrun
        exact hholds'
      · rw [if_neg hdeleted] at hrun
        rw [if_neg fun h => hdeleted h.1, List.append_nil]
        cases hrun
        exact hholds

/-- Behind the path of the directory comes what the record has for a name. -/
theorem recordPath_holds (hrecord : fidNameOff f ≤ (Fid.hdrLen f).toNat) {target name : Bytes}
    (hlen : target.length ≤ pathMax - 2) (hname : name ∈ recordName f)
    (h : HoldsString w.lib.fidname 0 (target ++ [slash])) {dirf : Int32} {w' : World σ}
    (hrun : (if fidNameLen f > 0 then appendFidName f (fidNameLen f) dirf (target.length + 1)
      else pure true : M σ Bool) w = .ok (true, w')) :
    HoldsString w'.lib.fidname 0 (recordPath f target name dirf w.os) ∧
      (recordPath f target name dirf w.os).length < fidnameSize := by
  have hsize : fidnameSize = 4608 := rfl
  have hpath : pathMax = 4096 := rfl
  have hslash : (target ++ [slash]).length = target.length + 1 := List.length_append
  unfold recordPath
  rcases fidNameLen_recordName hrecord hname with ⟨rfl, hzero⟩ | ⟨hne, rfl, hshort, hended⟩
  · rw [hzero, if_neg (by decide)] at hrun
    cases hrun
    rw [if_pos rfl, List.append_nil, List.append_nil]
    exact ⟨h, by omega⟩
  · have hpos : fidNameLen f > 0 := by
      rw [gt_iff_lt, Int32.lt_iff_toInt_lt, Int32.toInt_zero]
      omega
    have hmark := length_goneMark f dirf w.os
    rw [if_pos hpos, ← hslash] at hrun
    rw [if_neg hne]
    refine ⟨appendFidName_holds h (by omega) hshort hended hrun, ?_⟩
    rw [List.length_append, List.length_append]
    omega

/-- **Resolving a fid stays in its buffer.** Where it returns a path, that is the path of the directory,
    a slash, the name of the record, and a mark just when the file is gone. -/
theorem filenameFromFid_path (hrecord : fidNameOff f ≤ (Fid.hdrLen f).toNat)
    (hw : w.lib.store.WellIndexed) :
    ∃ r w', filenameFromFid f w = .ok (r, w') ∧ ∀ p ∈ r, ∃ dirf w₁ target,
      openFid f (fidNameLen f) w = .ok (some dirf, w₁) ∧
      (Sys.readlinkFd dirf (pathMax - 2) w₁.os).1 = some target ∧
      (target.length ≤ pathMax - 2 → 0 ∉ target → ∀ name ∈ recordName f,
        p = fidnameString w'.lib ∧
        p.bytes = recordPath f target name dirf (Sys.readlinkFd dirf (pathMax - 2) w₁.os).2) := by
  obtain ⟨r, w', hrun, -⟩ := filenameFromFid_calm f w hw
  refine ⟨r, w', hrun, ?_⟩
  rintro p rfl
  obtain ⟨dirf, w₁, hopen, hrest⟩ := Prog.bind_ok hrun
  cases dirf with
  | none => cases hrest
  | some dirf =>
      obtain ⟨target, w₂, hread, hrest⟩ := Prog.bind_ok hrest
      cases target with
      | none => cases hrest
      | some target =>
          obtain ⟨htarget, rfl⟩ := Prod.mk.inj (Except.ok.inj hread)
          refine ⟨dirf, w₁, target, hopen, htarget, fun hlen hnul name hname => ?_⟩
          obtain ⟨m, hholds, hwrite⟩ := writeTarget_run hlen hnul
            { w₁ with os := (Sys.readlinkFd dirf (pathMax - 2) w₁.os).2 }
          dsimp only at hrest
          rw [List.take_of_length_le hlen, hwrite] at hrest
          obtain ⟨ok, w₃, happend, hrest⟩ := Prog.bind_ok hrest
          cases ok with
          | false => cases hrest
          | true =>
              cases hrest
              obtain ⟨hpath, hfits⟩ := recordPath_holds hrecord hlen hname hholds happend
              exact ⟨rfl, hpath.cstring hfits⟩

/-- A record without a handle, for the name `ab`. -/
def deskRecord : Bytes :=
  Fid.setHdrLen (Fid.setInfoType (List.replicate fidHdr 0) fanEventInfoTypeDfidName) 24
    ++ ascii "ab" ++ [0, 0]

/-- A handle whose directories lead to `/d`. -/
def deskLinked : World Desk := { lib := Inotifytools.new, os := { links := [ascii "/d"] } }

theorem filenameFromFid_path_desk :
    ∃ p w', filenameFromFid deskRecord deskLinked = .ok (some p, w') ∧ p.bytes = ascii "/d/ab" := by
  have hrecord : fidNameOff deskRecord ≤ (Fid.hdrLen deskRecord).toNat := by decide +kernel
  have hfound : ((filenameFromFid deskRecord).result deskLinked).join.isSome := by decide +kernel
  have hopen : (openFid deskRecord (fidNameLen deskRecord)).result deskLinked = some (some 3) := by
    decide +kernel
  have hname : recordName deskRecord = some (ascii "ab") := by decide +kernel
  obtain ⟨r, w', hrun, hpath⟩ := filenameFromFid_path hrecord (w := deskLinked) Store.wellIndexed_empty
  rw [Prog.result_of_ok hrun] at hfound
  obtain ⟨p, rfl⟩ := Option.isSome_iff_exists.1 (hfound : r.isSome)
  obtain ⟨dirf, w₁, target, hopen₁, htarget, hbytes⟩ := hpath p rfl
  obtain ⟨⟨⟩, rfl⟩ := Prod.mk.inj (Except.ok.inj (hopen₁.symm.trans (Prog.run_of_result hopen)))
  have hread : (Sys.readlinkFd 3 (pathMax - 2)
      ((openFid deskRecord (fidNameLen deskRecord)).after deskLinked).os).1 = some (ascii "/d") := by
    decide +kernel
  obtain rfl : target = ascii "/d" := Option.some.inj (htarget.symm.trans hread)
  refine ⟨p, w', hrun, (hbytes (by decide) (by decide) _ hname).2.trans ?_⟩
  exact (by decide : ascii "/d" ++ [slash] ++ ascii "ab" ++ [] = ascii "/d/ab")

end InotifyTools
