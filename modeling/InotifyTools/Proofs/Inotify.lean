import InotifyTools.Proofs.Lookups

set_option autoImplicit false

/-! # The operations with inotify

On an initialised handle in inotify mode, each operation on watches as an equation: its result and
the store it leaves. From there on the handle is what `Store.wdOf` and `Store.nameOf` say. -/

namespace InotifyTools

variable {σ : Type} [Sys σ] {w w' : World σ}

/-- An initialised handle in inotify mode, its store in order. -/
structure Inotify (w : World σ) : Prop where
  initialized : w.lib.initialized = true
  mode : w.lib.fanotifyMode = false
  wellIndexed : w.lib.store.WellIndexed
  plain : w.lib.store.Plain

/-- An initialised handle, its store in order, whose watches have the names stored in it: with inotify,
    or with fanotify marks on inodes. -/
structure StoredNames (w : World σ) : Prop where
  initialized : w.lib.initialized = true
  wellIndexed : w.lib.store.WellIndexed
  stored : w.lib.fanotifyMode = false ∧ w.lib.store.Plain ∨ w.lib.fanotifyMarkType = 0

omit [Sys σ] in
theorem Inotify.storedNames (h : Inotify w) : StoredNames w :=
  ⟨h.initialized, h.wellIndexed, .inl ⟨h.mode, h.plain⟩⟩

/-- `w'` is `w` with the store `s`, but for the error number and the operating system. -/
def Leaves (w : World σ) (s : Store) (w' : World σ) : Prop :=
  ∃ error os, w' = { lib := { w.lib with error, store := s }, os }

omit [Sys σ] in
theorem Leaves.store {s : Store} (h : Leaves w s w') : w'.lib.store = s := by
  obtain ⟨e, os, rfl⟩ := h
  rfl

omit [Sys σ] in
theorem Inotify.leaves {s : Store} (h : Inotify w) (hl : Leaves w s w') (hs : s.WellIndexed)
    (hp : s.Plain) : Inotify w' := by
  obtain ⟨e, os, rfl⟩ := hl
  exact ⟨h.initialized, h.mode, hs, hp⟩

theorem Reachable.inotify {env : σ → σ → Prop} (hz : ¬ AnsweredZero σ) (h : Reachable env w)
    (hi : w.lib.initialized = true) (hm : w.lib.fanotifyMode = false) : Inotify w :=
  ⟨hi, hm, h.wellIndexed, h.plain hz hi hm⟩

/-! ## Queries -/

theorem assertInit_run (hi : w.lib.initialized = true) : assertInit w = .ok ((), w) := by
  unfold assertInit niceassert
  rw [getLib_bind, if_pos hi]
  rfl

/-- `wd_from_filename` finds the watch of a name, and -1 for an empty name. -/
theorem wdFromFilename_run (h : StoredNames w) (n : Bytes) :
    wdFromFilename n w = .ok (if n = [] then -1 else (w.lib.store.wdOf n).getD (-1), w) := by
  unfold wdFromFilename
  rw [Prog.bind_run_ok (assertInit_run h.initialized)]
  by_cases hn : n = []
  · subst hn
    rfl
  · rw [if_neg (by simpa using hn), if_neg hn]
    show (watchFromFilename n >>= _) w = _
    rw [Prog.bind_run_ok (rfl : watchFromFilename n w = .ok (w.lib.store.byFilename[n]?, w))]
    cases hid : w.lib.store.byFilename[n]? with
    | none => rw [Store.wdOf_none hid]; rfl
    | some id =>
        obtain ⟨v, hv, -, hwd⟩ := h.wellIndexed.found_filename hid
        rw [hwd]
        show (watch id >>= _) w = _
        rw [Prog.bind_run_ok (watch_run hv)]
        rfl

/-- The name of the watch found under a descriptor, empty if there is none. -/
def Store.filenameOf (s : Store) (wd : Int32) : CString :=
  (s.byWd[wd]?.bind fun id => s.watches[id]?.map Watch.filename).getD CString.empty

theorem Store.filenameOf_bytes (s : Store) (wd : Int32) :
    (s.filenameOf wd).bytes = (s.nameOf wd).getD [] := by
  unfold filenameOf nameOf
  cases s.byWd[wd]? with
  | none => rfl
  | some id => cases h : s.watches[id]? <;> simp [h, CString.empty]

theorem filenameFromWdPtr_run (h : StoredNames w) (wd : Int32) :
    filenameFromWdPtr wd w =
      .ok (if wd = 0 then CString.empty else w.lib.store.filenameOf wd, w) := by
  unfold filenameFromWdPtr
  rw [Prog.bind_run_ok (assertInit_run h.initialized)]
  by_cases hwd : wd = 0
  · rw [if_pos hwd, if_pos hwd]
    rfl
  · rw [if_neg hwd, if_neg hwd,
      Prog.bind_run_ok (rfl : watchFromWd wd w = .ok (w.lib.store.byWd[wd]?, w))]
    cases hid : w.lib.store.byWd[wd]? with
    | none =>
        unfold Store.filenameOf
        rw [hid]
        rfl
    | some id =>
        obtain ⟨v, hv, -, -⟩ := h.wellIndexed.found_wd hid
        unfold Store.filenameOf
        rw [hid, Option.bind_some, hv]
        show filenameFromWatchId id w = _
        unfold filenameFromWatchId
        rw [Prog.bind_run_ok (watch_run hv)]
        cases hfid : v.fid with
        | none => rfl
        | some f =>
            have hmark : w.lib.fanotifyMarkType = 0 := h.stored.resolve_left fun hplain => by
              rw [hplain.2 id v (.inl ⟨wd, hid⟩) hv] at hfid
              cases hfid
            exact congrFun (if_pos hmark) w

/-- `filename_from_wd` finds the name of a descriptor, and nothing for 0. -/
theorem filenameFromWd_run (h : StoredNames w) (wd : Int32) :
    filenameFromWd wd w = .ok (if wd = 0 then [] else (w.lib.store.nameOf wd).getD [], w) := by
  unfold filenameFromWd
  rw [Prog.bind_run_ok (filenameFromWdPtr_run h wd), ← Store.filenameOf_bytes]
  split <;> rfl

/-! ## Changes -/

/-- The watch entered for a file the kernel accepts. -/
def acceptedWatch (w : World σ) (fname : Bytes) (events : Int32) : Watch :=
  let r := addAnswer w (cstring fname) events
  numberedWatch (cstring fname) r.1 r.2

/-- Watching one file is one round of `watch_files`. -/
theorem watchFile_eq (hi : w.lib.initialized = true) (fuel : Nat) (fname : Bytes)
    (events : Int32) : watchFile fuel fname events w =
      (watchOne fuel fname events >>= fun r => pure r.1)
        { w with lib := { w.lib with error := 0 } } := by
  unfold watchFile watchFiles
  rw [Prog.bind_run_ok (assertInit_run hi)]
  show (watchOne fuel fname events >>= _) { w with lib := { w.lib with error := 0 } } = _
  rw [Prog.bind_run, Prog.bind_run]
  split
  · next r w' _ =>
      obtain ⟨ok, ev⟩ := r
      cases ok <;> rfl
  · rfl

theorem watchFile_watched (h : Inotify w) {fname : Bytes} {events : Int32}
    (hwd : 0 < (addAnswer w (cstring fname) events).1) (fuel : Nat) :
    ∃ w', watchFile fuel fname events w = .ok (true, w') ∧
      Leaves w (w.lib.store.insert (acceptedWatch w fname events)) w' := by
  obtain ⟨os, -, hrun⟩ := watchOne_run_watched (w := { w with lib := { w.lib with error := 0 } })
    h.mode hwd fuel
  refine ⟨_, ?_, 0, os, rfl⟩
  rw [watchFile_eq h.initialized, Prog.bind_run_ok hrun]
  rfl

theorem watchFile_refused (h : Inotify w) {fname : Bytes} {events : Int32}
    (hwd : (addAnswer w (cstring fname) events).1 < 0) (fuel : Nat) :
    ∃ w', watchFile fuel fname events w = .ok (false, w') ∧ Leaves w w.lib.store w' := by
  obtain ⟨e, os, -, hrun⟩ := watchOne_run_refused (w := { w with lib := { w.lib with error := 0 } })
    h.mode hwd fuel
  refine ⟨_, ?_, e, os, rfl⟩
  rw [watchFile_eq h.initialized, Prog.bind_run_ok hrun]
  rfl

theorem setFilenameByWd_missing (h : Inotify w) {wd : Int32}
    (hid : w.lib.store.byWd[wd]? = none) (n : Bytes) : setFilenameByWd wd n w = .ok ((), w) := by
  unfold setFilenameByWd
  rw [Prog.bind_run_ok (assertInit_run h.initialized),
    Prog.bind_run_ok (rfl : watchFromWd wd w = .ok (w.lib.store.byWd[wd]?, w)), hid]
  rfl

omit [Sys σ] in
theorem setFilenameByFilename_missing {old : Bytes} (hid : w.lib.store.byFilename[old]? = none)
    (n : Bytes) : setFilenameByFilename old n w = .ok ((), w) := by
  unfold setFilenameByFilename
  rw [Prog.bind_run_ok
    (rfl : watchFromFilename old w = .ok (w.lib.store.byFilename[old]?, w)), hid]
  rfl

theorem removeWatch_missing (hi : w.lib.initialized = true) :
    removeWatch none w = .ok (true, w) := by
  unfold removeWatch
  rw [Prog.bind_run_ok (assertInit_run hi)]
  rfl

/-- Removing a watch without a fid: the kernel decides, and the store follows. -/
theorem removeWatch_run (hi : w.lib.initialized = true) {id : Nat} {v : Watch}
    (hv : w.lib.store.watches[id]? = some v) (hfid : v.fid = none) :
    let accepted := 0 ≤ (Sys.inotifyRmWatch w.lib.fd v.wd w.os).1
    ∃ w', removeWatch (some id) w = .ok (decide accepted, w') ∧
      Leaves w (if accepted then w.lib.store.remove id v else w.lib.store) w' := by
  have hrm := removeInotifyWatch_run hv
  rw [if_neg (by simp [hfid])] at hrm
  unfold removeWatch
  rw [Prog.bind_run_ok (assertInit_run hi)]
  show ∃ w', (removeInotifyWatch id >>= _) w = _ ∧ _
  by_cases hneg : (Sys.inotifyRmWatch w.lib.fd v.wd w.os).1 < 0
  · have hacc : ¬ 0 ≤ (Sys.inotifyRmWatch w.lib.fd v.wd w.os).1 := Int32.not_le.2 hneg
    rw [if_pos hneg] at hrm
    rw [Prog.bind_run_ok hrm, decide_eq_false hacc, if_neg hacc]
    exact ⟨_, rfl, _, _, rfl⟩
  · have hacc : 0 ≤ (Sys.inotifyRmWatch w.lib.fd v.wd w.os).1 := Int32.not_lt.1 hneg
    rw [if_neg hneg] at hrm
    rw [Prog.bind_run_ok hrm, decide_eq_true hacc, if_pos hacc]
    show ∃ w', (destroyWatch id >>= fun _ => pure true) _ = _ ∧ _
    rw [Prog.bind_run, destroyWatch_run (w := ⟨{ w.lib with error := 0 }, _⟩) hv]
    unfold dropWatch
    by_cases hdirf : v.dirf ≠ 0
    · rw [if_pos hdirf]
      exact ⟨_, rfl, _, _, rfl⟩
    · rw [if_neg hdirf]
      exact ⟨_, rfl, _, _, rfl⟩

end InotifyTools
