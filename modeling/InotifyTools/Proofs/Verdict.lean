import InotifyTools.Implementation.Reading
import InotifyTools.Proofs.Inotify
import Mathlib.Data.List.GetD

set_option autoImplicit false

/-! # The verdict of the filters

What `next_events` compares with the installed pattern, and what it decides: with inotify both depend
on the event and on the name of its watch alone. -/

namespace InotifyTools

variable {σ : Type} [Sys σ] {w : World σ}

/-! ## The path of an event -/

/-- The path of an event with inotify: the name of its watch, and its own name. -/
def Store.eventPath (s : Store) (ev : Event) : EventPath where
  filename := if ev.wd = 0 then [] else (s.nameOf ev.wd).getD []
  dirnamelen := (if ev.wd = 0 then [] else (s.nameOf ev.wd).getD []).length
  eventname := if ev.len > 0 then ev.name else []

/-- The path of an event whose watch has its name stored. With fanotify that name ends in the name of
    the file, if the watch is one of a file. -/
def Inotifytools.eventPath (l : Inotifytools) (ev : Event) : EventPath :=
  let path := l.store.eventPath ev
  match if l.fanotifyMode then rposition path.filename slash else none with
  | none => path
  | some i =>
      { path with
        dirnamelen := i + 1
        eventname := if path.filename.length > i + 1 then path.filename.drop (i + 1)
          else path.eventname }

theorem Inotifytools.eventPath_inotify {l : Inotifytools} (hm : l.fanotifyMode = false) (ev : Event) :
    l.eventPath ev = l.store.eventPath ev := by
  unfold eventPath
  rw [hm]
  rfl

theorem StoredNames.filenameFromEvent_run (h : StoredNames w) (ev : Event) :
    filenameFromEvent ev w = .ok (w.lib.eventPath ev, w) := by
  let f := if ev.wd = 0 then CString.empty else w.lib.store.filenameOf ev.wd
  have hf : f.bytes = (w.lib.store.eventPath ev).filename := by
    show f.bytes = if ev.wd = 0 then [] else (w.lib.store.nameOf ev.wd).getD []
    unfold f
    split
    · rfl
    · exact Store.filenameOf_bytes _ _
  have hdir : dirnameFromEventPtr ev.wd w =
      .ok ((f, match if w.lib.fanotifyMode then rposition f.bytes slash else none with
        | none => f.bytes.length
        | some i => i + 1), w) := by
    unfold dirnameFromEventPtr
    rw [Prog.bind_run_ok (filenameFromWdPtr_run h ev.wd), getLib_bind]
    show (match if w.lib.fanotifyMode then rposition f.bytes slash else none with
      | none => pure (f, f.bytes.length)
      | some i => pure (f, i + 1) : M σ (CString × Nat)) w = _
    cases (if w.lib.fanotifyMode then rposition f.bytes slash else none) <;> rfl
  unfold filenameFromEvent filenameFromEventPtr
  rw [Prog.bind_assoc, Prog.bind_run_ok hdir]
  show Except.ok (_, w) = _
  unfold Inotifytools.eventPath
  rw [hf]
  dsimp only
  generalize (if w.lib.fanotifyMode = true then
    rposition (w.lib.store.eventPath ev).filename slash else none) = sep
  cases sep with
  | none =>
      dsimp only
      rw [if_neg (Nat.lt_irrefl _)]
      rfl
  | some i =>
      dsimp only
      by_cases hlong : (w.lib.store.eventPath ev).filename.length > i + 1
      · rw [if_pos hlong, if_pos hlong]
      · rw [if_neg hlong, if_neg hlong]
        rfl

theorem filenameFromEvent_run (h : Inotify w) (ev : Event) :
    filenameFromEvent ev w = .ok (w.lib.store.eventPath ev, w) := by
  rw [h.storedNames.filenameFromEvent_run, Inotifytools.eventPath_inotify h.mode]

/-! ## The path compared with the pattern -/

/-- The buffer after `%w`. -/
def wroteDirname (path : EventPath) : OutCursor :=
  if path.dirnamelen ≤ maxStrlen then
    { buf := strncpy NString.new.buf 0 path.filename path.dirnamelen
      ind := 0 + UInt32.ofNat path.dirnamelen }
  else { buf := NString.new.buf, ind := 0 }

/-- The buffer after `%w%f`. -/
def wrotePath (path : EventPath) : OutCursor :=
  if ((wroteDirname path).ind.toNat : Int) < maxStrlen - 1 then
    (wroteDirname path).copy path.eventname
      ((maxStrlen : Int) - (wroteDirname path).ind.toNat).toNat
  else wroteDirname path

/-- What `%w%f` expands to, as far as it fits. -/
def matchName (path : EventPath) : Bytes :=
  (wrotePath path).buf.slice 0 (min (wrotePath path).ind.toNat maxStrlen)

omit [Sys σ] in
/-- `strncpy` writes the source at the cursor, as far as the buffer goes. -/
theorem strncpy_of_mem {buf : Mem} {ind : UInt32} {src : Bytes} {n i : Nat} (hi : i < n)
    (hlen : ind.toNat + i < maxStrlen) : strncpy buf ind src n (ind.toNat + i) = src.getD i 0 := by
  unfold strncpy
  rw [if_neg (by omega)]
  exact Mem.write_of_mem (by omega)

omit [Sys σ] in
/-- `strncpy` leaves what stands before the cursor. -/
theorem strncpy_of_lt {buf : Mem} {ind : UInt32} {src : Bytes} {n i : Nat} (hi : i < ind.toNat) :
    strncpy buf ind src n i = buf i := by
  unfold strncpy
  split
  · rfl
  · exact Mem.write_of_lt hi

omit [Sys σ] in
/-- The directory name is at the front of the buffer if it fits. -/
theorem wroteDirname_eq {path : EventPath} (hd : path.dirnamelen ≤ path.filename.length)
    (hlen : path.dirname.length < maxStrlen) :
    (wroteDirname path).ind.toNat = path.dirname.length ∧
      ∀ i, i < path.dirname.length → (wroteDirname path).buf i = path.dirname.getD i 0 := by
  have hmax : maxStrlen = 4096 := rfl
  have hdir : path.dirname.length = path.dirnamelen := List.length_take_of_le hd
  rw [hdir] at hlen ⊢
  unfold wroteDirname
  rw [if_pos (by omega)]
  constructor
  · show (0 + UInt32.ofNat path.dirnamelen).toNat = _
    rw [UInt32.zero_add, UInt32.toNat_ofNat_of_lt' (by simp [UInt32.size]; omega)]
  · intro i hi
    have hmem : strncpy NString.new.buf 0 path.filename path.dirnamelen
        ((0 : UInt32).toNat + i) = path.filename.getD i 0 := strncpy_of_mem hi (by simp; omega)
    have hget : path.dirname.getD i 0 = path.filename.getD i 0 := by
      simp [EventPath.dirname, List.getD_eq_getElem?_getD, hi]
    rw [hget]
    simpa using hmem

omit [Sys σ] in
/-- Both parts of a path stand in the buffer if they fit. -/
theorem wrotePath_eq {path : EventPath} (hd : path.dirnamelen ≤ path.filename.length)
    (hlen : path.dirname.length + path.eventname.length < maxStrlen) :
    (wrotePath path).ind.toNat = path.dirname.length + path.eventname.length ∧
      ∀ i, i < path.dirname.length + path.eventname.length →
        (wrotePath path).buf i = (path.dirname ++ path.eventname).getD i 0 := by
  have hmax : maxStrlen = 4096 := rfl
  obtain ⟨hind, hbuf⟩ := wroteDirname_eq hd (by omega)
  by_cases hroom : ((wroteDirname path).ind.toNat : Int) < maxStrlen - 1
  · rw [wrotePath, if_pos hroom]
    constructor
    · show ((wroteDirname path).ind + UInt32.ofNat path.eventname.length).toNat = _
      rw [UInt32.toNat_add, hind, UInt32.toNat_ofNat_of_lt' (by simp [UInt32.size]; omega)]
      omega
    · intro i hi
      show strncpy _ _ _ _ i = _
      by_cases hfile : i < path.dirname.length
      · rw [strncpy_of_lt (by omega), hbuf i hfile, List.getD_append _ _ _ _ hfile]
      · rw [List.getD_append_right _ _ _ _ (by omega),
          show i = (wroteDirname path).ind.toNat + (i - path.dirname.length) by omega,
          strncpy_of_mem (by omega) (by omega)]
        congr 1
        omega
  · have hempty : path.eventname = [] := List.eq_nil_of_length_eq_zero (by omega)
    rw [wrotePath, if_neg hroom, hempty, List.append_nil, List.length_nil,
      Nat.add_zero]
    exact ⟨hind, hbuf⟩

omit [Sys σ] in
/-- Where a path fits, `%w%f` expands to its two parts. -/
theorem matchName_eq {path : EventPath} (hd : path.dirnamelen ≤ path.filename.length)
    (hlen : path.dirname.length + path.eventname.length < maxStrlen) :
    matchName path = path.dirname ++ path.eventname := by
  obtain ⟨hind, hbuf⟩ := wrotePath_eq hd hlen
  rw [matchName, hind, Nat.min_eq_left (by omega), ← List.length_append, Mem.slice_eq_iff]
  intro i hi
  rw [Nat.zero_add, hbuf i (by simpa using hi), List.getD_eq_getElem _ _ hi]

theorem conversion_dirname (path : EventPath) (ev : Event) (o : OutCursor) (room : Nat) :
    (conversion path ev 0x77 room o : M σ (Option OutCursor)) =
      pure (some (if path.dirnamelen ≤ room then
        { buf := strncpy o.buf o.ind path.filename path.dirnamelen
          ind := o.ind + UInt32.ofNat path.dirnamelen } else o)) := by
  unfold conversion
  rw [if_neg (by decide), if_neg (by decide), if_neg (by decide), if_pos rfl]
  split <;> rfl

theorem conversion_eventname (path : EventPath) (ev : Event) (o : OutCursor) (room : Nat) :
    (conversion path ev 0x66 room o : M σ (Option OutCursor)) =
      pure (some (o.copy path.eventname room)) := by
  unfold conversion
  rw [if_neg (by decide), if_neg (by decide), if_neg (by decide), if_neg (by decide), if_pos rfl]

theorem scan_path (path : EventPath) (ev : Event) :
    (snprintfScan path ev maxStrlen (ascii "%w%f") { buf := NString.new.buf, ind := 0 }
      : M σ (ScanEnd × OutCursor)) = pure (.done, wrotePath path) := by
  have hfmt : ascii "%w%f" = [0x25, 0x77, 0x25, 0x66] := by decide
  rw [hfmt, snprintfScan, if_neg (by decide), if_neg (by decide)]
  dsimp only
  have hroom₀ : ((maxStrlen : Int) - (UInt32.toNat 0 : Nat)).toNat = maxStrlen := by decide
  rw [if_pos (by decide), hroom₀, conversion_dirname, Prog.pure_bind]
  show snprintfScan path ev maxStrlen [0x25, 0x66] (wroteDirname path) = _
  rw [snprintfScan]
  unfold wrotePath
  by_cases hroom : ((wroteDirname path).ind.toNat : Int) < maxStrlen - 1
  · rw [if_neg (not_not.2 hroom), if_neg (by decide)]
    dsimp only
    rw [if_pos (by decide), conversion_eventname, if_pos hroom, Prog.pure_bind]
    dsimp only
    rw [snprintfScan]
  · rw [if_pos hroom, if_neg hroom]

omit [Sys σ] in
theorem asBytes_mk (buf : Mem) (len : UInt32) :
    NString.asBytes ⟨buf, len⟩ = buf.slice 0 (min len.toNat maxStrlen) := rfl

omit [Sys σ] in
theorem rposition_lt {s : Bytes} {c : UInt8} {i : Nat} (h : rposition s c = some i) :
    i < s.length := by
  obtain ⟨j, hj, rfl⟩ := Option.map_eq_some_iff.1 h
  have hlt := (List.findIdx?_eq_some_iff_findIdx_eq.1 hj).1
  rw [List.length_reverse] at hlt
  omega

/-- The path of an event is the name of its watch, cut into a directory part, which is not empty
    unless all of it is, and the name of the event. -/
theorem filenameFromEvent_parts {w' : World σ} {ev : Event} {path : EventPath}
    (hrun : filenameFromEvent ev w = .ok (path, w')) :
    ∃ (p : CString) (w₁ : World σ), filenameFromWdPtr ev.wd w = .ok (p, w₁) ∧
      path.filename = p.bytes ∧ path.dirnamelen ≤ p.bytes.length ∧
      (path.dirnamelen = 0 → p.bytes = []) ∧
      path.eventname = if p.bytes.length > path.dirnamelen then p.bytes.drop path.dirnamelen
        else if ev.len > 0 then ev.name else [] := by
  obtain ⟨⟨f, dl, off⟩, w₁, hptr, hrest⟩ := Prog.bind_ok hrun
  cases hrest
  obtain ⟨⟨g, dl'⟩, w₂, hdir, hrest⟩ := Prog.bind_ok hptr
  cases hrest
  obtain ⟨p, w₃, hname, hrest⟩ := Prog.bind_ok hdir
  obtain ⟨l, w₄, -, hrest⟩ := Prog.bind_ok hrest
  have hcut : f = p ∧ dl ≤ p.bytes.length ∧ (dl = 0 → p.bytes = []) := by
    dsimp only at hrest
    generalize hsep : (if l.fanotifyMode = true then rposition p.bytes slash else none) = sep
      at hrest
    cases sep with
    | none =>
        cases hrest
        exact ⟨rfl, le_rfl, List.eq_nil_of_length_eq_zero⟩
    | some i =>
        cases hrest
        split at hsep
        · exact ⟨rfl, rposition_lt hsep, nofun⟩
        · cases hsep
  obtain ⟨rfl, hle, hzero⟩ := hcut
  refine ⟨f, w₃, hname, rfl, hle, hzero, ?_⟩
  dsimp only
  by_cases hmore : f.bytes.length > dl
  · rw [if_pos hmore, if_pos hmore]
  · rw [if_neg hmore, if_neg hmore]

/-- The directory part of a path is a part of it. -/
theorem filenameFromEvent_dirname {w' : World σ} {ev : Event} {path : EventPath}
    (hrun : filenameFromEvent ev w = .ok (path, w')) : path.dirnamelen ≤ path.filename.length := by
  obtain ⟨p, w₁, -, hfilename, hle, -⟩ := filenameFromEvent_parts hrun
  rwa [hfilename]

/-- Formatting an event as its path, as the filters do. -/
theorem snprintf_path_run {w' : World σ} {ev : Event} {path : EventPath}
    (hpath : filenameFromEvent ev w = .ok (path, w')) :
    ∃ ret out, snprintf NString.new (Int32.ofNat maxStrlen) ev (some (ascii "%w%f")) w =
      .ok ((ret, out), w') ∧ out.asBytes = matchName path := by
  have hscan : snprintfScan path ev (Int32.ofNat maxStrlen).toInt (ascii "%w%f")
      { buf := NString.new.buf, ind := 0 } w' = .ok ((.done, wrotePath path), w') :=
    congrFun (scan_path path ev) w'
  refine ⟨((wrotePath path).ind - 1).toInt32, ⟨(wrotePath path).buf, (wrotePath path).ind⟩, ?_,
    asBytes_mk _ _⟩
  unfold snprintf
  rw [Prog.bind_run_ok hpath, Option.getD_some]
  rw [if_neg (by decide), if_neg (by decide), Prog.bind_run_ok hscan]
  rfl

/-! ## The verdict -/

/-- The installed filters reject a path. -/
def Inotifytools.rejectsPath (l : Inotifytools) (path : EventPath) : Bool :=
  match l.regex with
  | none => false
  | some re => re (cstring (matchName path)) ≠ l.invertRegexp

/-- Whether the installed filters drop an event. -/
def Inotifytools.rejects (l : Inotifytools) (ev : Event) : Bool :=
  match l.regex with
  | none => false
  | some re => re (cstring (matchName (l.store.eventPath ev))) ≠ l.invertRegexp

/-- An event is dropped if its path is rejected, unless it is exempt. -/
theorem filterEvent_of_path {path : EventPath}
    (hpath : filenameFromEvent w.lib.stream.currentEvent w = .ok (path, w)) :
    filterEvent w =
      .ok (w.lib.rejectsPath path && !filterExempt w.lib w.lib.stream.currentEvent.mask, w) := by
  unfold filterEvent Inotifytools.rejectsPath
  rw [getLib_bind]
  cases hre : w.lib.regex with
  | none => rfl
  | some re =>
      by_cases hexempt : filterExempt w.lib w.lib.stream.currentEvent.mask = true
      · rw [hexempt, Bool.not_true, Bool.and_false]
        exact congrFun (if_pos hexempt) w
      · obtain ⟨ret, out, hrun, hout⟩ := snprintf_path_run hpath
        rw [Bool.eq_false_iff.2 hexempt, Bool.not_false, Bool.and_true, ← hout]
        refine (congrFun (if_neg hexempt) w).trans ?_
        rw [Prog.bind_run_ok hrun]
        rfl

theorem filterEvent_run (h : Inotify w) : filterEvent w =
    .ok (w.lib.rejects w.lib.stream.currentEvent &&
      !filterExempt w.lib w.lib.stream.currentEvent.mask, w) :=
  filterEvent_of_path (filenameFromEvent_run h _)

end InotifyTools
