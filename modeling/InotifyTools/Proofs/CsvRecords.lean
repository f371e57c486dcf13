import InotifyTools.Base.Csv
import InotifyTools.Implementation.Desk
import InotifyTools.Proofs.EventStrings
import InotifyTools.Proofs.Fids
import InotifyTools.Proofs.Verdict
import InotifyTools.Tools.Inotifywait

set_option autoImplicit false

/-! # Records of events

With `--csv` every event is a line of separated values. It has a field for the directory part, one
for the names of the events and one for the name, if there is a directory part at all. -/

namespace InotifyTools

/-! ## What is printed -/

/-- An operating system that also keeps what was written to `stdout`, and counts how often the program
    was told of a request for statistics. -/
structure Taped (σ : Type) where
  os : σ
  tape : Bytes := []
  requests : Nat := 0

namespace Taped

variable {σ α : Type}

def pass (f : σ → α × σ) (t : Taped σ) : α × Taped σ := ((f t.os).1, { t with os := (f t.os).2 })

def act (f : σ → σ) (t : Taped σ) : Taped σ := { t with os := f t.os }

variable [Sys σ]

def write (st : Stream) (b : Bytes) (t : Taped σ) : Taped σ :=
  { t with
    os := Sys.fwrite st b t.os
    tape := if st = .stdout then t.tape ++ b else t.tape }

def tell (t : Taped σ) : Bool × Taped σ :=
  let r := Sys.printNow t.os
  (r.1, { t with os := r.2, requests := if r.1 then t.requests + 1 else t.requests })

instance : Sys (Taped σ) where
  errno t := Sys.errno t.os
  strerror e := Sys.strerror σ e
  fwrite := write
  getpid := pass Sys.getpid
  close fd := act (Sys.close fd)
  inotifyInit := pass Sys.inotifyInit
  inotifyAddWatch fd p mask := pass (Sys.inotifyAddWatch fd p mask)
  inotifyRmWatch fd wd := pass (Sys.inotifyRmWatch fd wd)
  fanotifyInit flags := pass (Sys.fanotifyInit flags)
  fanotifyMark fd flags mask p := pass (Sys.fanotifyMark fd flags mask p)
  lstat p := pass (Sys.lstat p)
  statfs p := pass (Sys.statfs p)
  openPath p flags := pass (Sys.openPath p flags)
  dup fd := pass (Sys.dup fd)
  nameToHandleAt p := pass (Sys.nameToHandleAt p)
  openByHandleAt fd h := pass (Sys.openByHandleAt fd h)
  readlinkFd fd n := pass (Sys.readlinkFd fd n)
  faccessat fd p := pass (Sys.faccessat fd p)
  opendir p := pass (Sys.opendir p)
  readdir d := pass (Sys.readdir d)
  closedir d := act (Sys.closedir d)
  ppoll fd t := pass (Sys.ppoll fd t)
  fionread fd := pass (Sys.fionread fd)
  read fd n := pass (Sys.read fd n)
  regcomp p flags := pass (Sys.regcomp p flags)
  strftimeNow f := pass (Sys.strftimeNow f)
  flushAll := act Sys.flushAll
  syslog b := act (Sys.syslog b)
  slurp p := pass (Sys.slurp p)
  printNow := tell
  done := pass Sys.done

end Taped

variable {σ α : Type}

/-- Nothing was written to `stdout`. -/
structure NothingPrinted (w w' : World (Taped σ)) : Prop where
  tape : w'.os.tape = w.os.tape

instance : Std.Refl (NothingPrinted (σ := σ)) := ⟨fun _ => ⟨rfl⟩⟩

instance : IsTrans (World (Taped σ)) NothingPrinted := ⟨fun _ _ _ h h' => ⟨h'.tape.trans h.tape⟩⟩

/-- `m` writes nothing to `stdout`. -/
abbrev Mute (m : M (Taped σ) α) : Prop := Prog.Keeps NothingPrinted m

theorem getLib_mute : Mute (getLib : M (Taped σ) Inotifytools) := .bind .read fun _ => .pure _

theorem modifyLib_mute (f : Inotifytools → Inotifytools) :
    Mute (modifyLib f : M (Taped σ) Unit) := .update fun _ => ⟨rfl⟩

theorem guard_mute (c : Bool) (e : Fault) : Mute (Prog.guard c e : M (Taped σ) Unit) := by
  cases c
  · exact .fault e
  · exact .pure ()

theorem watch_mute (id : Nat) : Mute (watch id : M (Taped σ) Watch) := by
  refine .bind getLib_mute fun l => ?_
  cases l.store.watches[id]? with
  | none => exact .fault _
  | some v => exact .pure v

theorem setFidname_mute (i : Nat) (b : UInt8) : Mute (setFidname i b : M (Taped σ) Unit) :=
  .bind (guard_mute _ _) fun _ => modifyLib_mute _

theorem blitFidname_mute (off : Nat) (bs : Bytes) : Mute (blitFidname off bs : M (Taped σ) Unit) :=
  .bind (guard_mute _ _) fun _ => modifyLib_mute _

theorem call_mute (f : σ → α × σ) : Mute (call (Taped.pass f) : M (Taped σ) α) :=
  .lift fun _ => ⟨rfl⟩

theorem exec_mute (f : σ → σ) : Mute (exec (Taped.act f) : M (Taped σ) Unit) := .update fun _ => ⟨rfl⟩

variable [Sys σ]

theorem ceprint_mute (ps : List Piece) : Mute (ceprint ps : M (Taped σ) Unit) := .update fun _ => ⟨rfl⟩

theorem openFid_mute (f : Bytes) (nameLen : Int32) :
    Mute (openFid f nameLen : M (Taped σ) (Option Int32)) := by
  unfold openFid
  refine .bind ?_ fun mount => .bind (call_mute _) fun dirf => .ite (.pure _) ?_
  · refine .bind (.bind getLib_mute fun _ => .pure _) fun id => ?_
    cases id with
    | none => exact .pure _
    | some id => exact .bind (watch_mute id) fun _ => .pure _
  · refine .bind getLib_mute fun l => .ite (.bind (ceprint_mute _) fun _ => .pure _) ?_
    refine .ite (.pure _) (.bind (.bind getLib_mute fun _ => .pure _) fun id => ?_)
    cases id with
    | none => exact .bind (ceprint_mute _) fun _ => .pure _
    | some id =>
        refine .bind (watch_mute id) fun v => .bind (.ite (call_mute _) (.pure _)) fun _ => ?_
        exact .ite (.bind (ceprint_mute _) fun _ => .pure _) (.pure _)

theorem appendFidName_mute (f : Bytes) (nameLen dirf : Int32) (len : Nat) :
    Mute (appendFidName f nameLen dirf len : M (Taped σ) Bool) := by
  unfold appendFidName
  refine .bind (call_mute _) fun deleted => .bind (.bind .read fun _ => .pure _) fun e => .ite ?_ ?_
  · exact .bind (.pure _) fun _ => .bind (ceprint_mute _) fun _ => .pure _
  · refine .bind (blitFidname_mute _ _) fun _ => .bind (setFidname_mute _ _) fun _ => ?_
    refine .bind (.ite ?_ (.pure _)) fun _ => .pure _
    exact .bind getLib_mute fun _ => .ite (blitFidname_mute _ _) (.pure _)

theorem filenameFromFid_mute (f : Bytes) : Mute (filenameFromFid f : M (Taped σ) (Option CString)) := by
  unfold filenameFromFid
  refine .bind (openFid_mute f _) fun dirf => ?_
  cases dirf with
  | none => exact .pure _
  | some dirf =>
      refine .bind (call_mute _) fun target => ?_
      cases target with
      | none => exact .bind (exec_mute _) fun _ => .bind (ceprint_mute _) fun _ => .pure _
      | some target =>
          refine .bind (blitFidname_mute _ _) fun _ => .bind (setFidname_mute _ _) fun _ => ?_
          refine .bind (setFidname_mute _ _) fun _ => ?_
          refine .bind (.ite (appendFidName_mute _ _ _ _) (.pure _)) fun ok => ?_
          exact .bind (exec_mute _) fun _ => .ite (.pure _) (.bind getLib_mute fun _ => .pure _)

theorem filenameFromWdPtr_mute (wd : Int32) : Mute (filenameFromWdPtr wd : M (Taped σ) CString) := by
  refine .bind (.bind getLib_mute fun _ => .ite (.pure _) (ceprint_mute _)) fun _ => .ite (.pure _) ?_
  refine .bind (.bind getLib_mute fun _ => .pure _) fun id => ?_
  cases id with
  | none => exact .pure _
  | some id =>
      refine .bind (watch_mute id) fun v => ?_
      cases v.fid with
      | none => exact .pure _
      | some f =>
          refine .bind getLib_mute fun _ => .ite (.pure _) (.bind (filenameFromFid_mute f) fun p => ?_)
          cases p with
          | some p => exact .pure _
          | none => exact .bind (watch_mute id) fun _ => .pure _

theorem filenameFromEvent_mute (ev : Event) : Mute (filenameFromEvent ev : M (Taped σ) EventPath) := by
  refine .bind (.bind (.bind (filenameFromWdPtr_mute _) fun _ => .bind getLib_mute fun _ => ?_)
    fun _ => .pure _) fun _ => .pure _
  dsimp only
  split <;> exact .pure _

/-! ## Fields -/

/-- Commas separate, a newline ends a record, and `"` quotes. -/
def csvDialect : Csv.Dialect UInt8 where
  sep := 0x2c
  eol := 0x0a
  quote := 0x22
  sep_ne_eol := by decide
  sep_ne_quote := by decide
  eol_ne_quote := by decide

/-- What is escaped is a field, whatever the escaping was decided on. -/
theorem csvEscapeLen_form {string : Bytes} {len : Nat} (hlen : len ≤ string.length)
    (hmax : len ≤ maxStrlen) : Csv.Form csvDialect (Inotifywait.csvEscapeLen string len) (string.take len) := by
  unfold Inotifywait.csvEscapeLen
  by_cases hnone : len = 0 ∨ len > maxStrlen ∨ len > string.length
  · obtain rfl : len = 0 := by omega
    rw [if_pos hnone, List.take_zero]
    exact .plain nofun
  rw [if_neg hnone]
  split
  · next hplain =>
      obtain ⟨hquote, hsep, heol, -⟩ := hplain
      refine .plain fun c hc => ?_
      have hmem := List.mem_of_mem_take hc
      have habsent : ∀ x : UInt8, (!string.contains x) = true → c ≠ x := by
        rintro x hx rfl
        rw [List.contains_iff_mem.2 hmem] at hx
        cases hx
      exact ⟨habsent _ hsep, habsent _ heol, habsent _ hquote⟩
  · exact .quoted (string.take len)

/-- **An escaped field ends itself:** whatever follows it behind a comma or a newline, what was
    escaped is read back and no more is taken. -/
theorem readField_csvEscapeLen {string r : Bytes} {len : Nat}
    (hlen : len ≤ min string.length maxStrlen) (hr : r.head? = some 0x2c ∨ r.head? = some 0x0a) :
    Csv.readField csvDialect (Inotifywait.csvEscapeLen string len ++ r) = some (string.take len, r) := by
  have hform := csvEscapeLen_form (hlen.trans (min_le_left _ _)) (hlen.trans (min_le_right _ _))
  cases r with
  | nil => rcases hr with hr | hr <;> cases hr
  | cons e r =>
      rw [List.head?_cons, Option.some.injEq, Option.some.injEq] at hr
      exact Csv.readField_form hform hr r

theorem readField_csvEscapeLen_desk :
    Csv.readField csvDialect (Inotifywait.csvEscapeLen (ascii "a\"b,c") 3 ++ ascii ",d\n")
      = some (ascii "a\"b", ascii ",d\n") :=
  readField_csvEscapeLen (by decide) (by decide)

theorem csvEscape_form {string : Bytes} (hmax : string.length ≤ maxStrlen) :
    Csv.Form csvDialect (Inotifywait.csvEscape string) string := by
  have hform : Csv.Form csvDialect (Inotifywait.csvEscape string) (string.take string.length) :=
    csvEscapeLen_form le_rfl hmax
  rwa [List.take_length] at hform

/-- Only nothing is escaped as nothing. -/
theorem csvEscapeLen_eq_nil_iff {string : Bytes} {len : Nat} (hlen : len ≤ string.length)
    (hmax : len ≤ maxStrlen) : Inotifywait.csvEscapeLen string len = [] ↔ string.take len = [] := by
  rw [List.take_eq_nil_iff]
  unfold Inotifywait.csvEscapeLen
  by_cases hnone : len = 0 ∨ len > maxStrlen ∨ len > string.length
  · rw [if_pos hnone]
    exact iff_of_true rfl (.inl (by omega))
  · rw [if_neg hnone]
    split
    · exact List.take_eq_nil_iff
    · refine iff_of_false (by simp) ?_
      rintro (rfl | rfl)
      · exact hnone (.inl rfl)
      · exact hnone (.inl (Nat.le_zero.1 hlen))

/-! ## Lines -/

/-- The fields of a line: none for a directory part that is empty. -/
def csvFields (path : EventPath) (mask : UInt32) : List Bytes :=
  let filename := Inotifywait.csvEscapeLen path.filename path.dirnamelen
  (if filename.isEmpty then [] else [filename]) ++
    [Inotifywait.csvEscape (eventString mask.toInt32 0x2c), Inotifywait.csvEscape path.eventname]

/-- The line printed for an event. -/
def csvLine (path : EventPath) (mask : UInt32) : Bytes :=
  [csvDialect.sep].intercalate (csvFields path mask) ++ [csvDialect.eol]

variable {w w₁ : World (Taped σ)} {path : EventPath} {ev : Event}

omit [Sys σ] in
theorem cat_field (b : Bytes) : cat [.bytes b, .text ","] = b ++ [csvDialect.sep] := by
  have hcomma : (Piece.text ",").put = [csvDialect.sep] := by decide +kernel
  rw [cat, List.flatMap_cons, List.flatMap_singleton, hcomma]
  rfl

omit [Sys σ] in
theorem cat_last (b : Bytes) : cat [.bytes b] ++ cat [.text "\n"] = b ++ [csvDialect.eol] := by
  have hnewline : (Piece.text "\n").put = [csvDialect.eol] := by decide +kernel
  rw [cat, cat, List.flatMap_singleton, List.flatMap_singleton, hnewline]
  rfl

theorem csvLine_eq (path : EventPath) (mask : UInt32) :
    csvLine path mask =
      (if !(Inotifywait.csvEscapeLen path.filename path.dirnamelen).isEmpty then
        Inotifywait.csvEscapeLen path.filename path.dirnamelen ++ [csvDialect.sep] else []) ++
      (Inotifywait.csvEscape (eventString mask.toInt32 0x2c) ++ [csvDialect.sep]) ++
      (Inotifywait.csvEscape path.eventname ++ [csvDialect.eol]) := by
  unfold csvLine csvFields
  cases Inotifywait.csvEscapeLen path.filename path.dirnamelen with
  | nil => simp [List.intercalate_cons_cons, List.intercalate_singleton]
  | cons c cs => simp [List.intercalate_cons_cons, List.intercalate_singleton]

theorem outputEventCsv_run (hpath : filenameFromEvent ev w = .ok (path, w₁)) :
    ∃ w', Inotifywait.outputEventCsv ev w = .ok ((), w') ∧
      w'.os.tape = w.os.tape ++ csvLine path ev.mask := by
  have htape := (filenameFromEvent_mute ev w path w₁ hpath).tape
  obtain ⟨w₂, hdir, htape₂⟩ : ∃ w₂ : World (Taped σ),
      (if !(Inotifywait.csvEscapeLen path.filename path.dirnamelen).isEmpty then
        cprint [.bytes (Inotifywait.csvEscapeLen path.filename path.dirnamelen), .text ","]
        else pure () : M (Taped σ) Unit) w₁ = .ok ((), w₂) ∧
      w₂.os.tape = w₁.os.tape ++
        (if !(Inotifywait.csvEscapeLen path.filename path.dirnamelen).isEmpty then
          Inotifywait.csvEscapeLen path.filename path.dirnamelen ++ [csvDialect.sep] else []) := by
    split
    · exact ⟨_, rfl, congrArg _ (cat_field _)⟩
    · exact ⟨w₁, rfl, (List.append_nil _).symm⟩
  obtain ⟨m, hstr⟩ := eventToStrSep_run ev.mask.toInt32 0x2c w₂
  unfold Inotifywait.outputEventCsv
  rw [Prog.bind_run_ok hpath, Prog.bind_run_ok hdir]
  refine ⟨_, (Prog.bind_run_ok hstr).trans rfl, ?_⟩
  calc w₂.os.tape ++ cat [.bytes _, .text ","] ++ cat [.bytes _] ++ cat [.text "\n"]
      = w₂.os.tape ++ (cat [.bytes _, .text ","]) ++ (cat [.bytes _] ++ cat [.text "\n"]) :=
        List.append_assoc ..
    _ = w.os.tape ++ csvLine path ev.mask := by
        rw [cat_field, cat_last, htape₂, htape, csvLine_eq]
        simp only [List.append_assoc]

/-! ## Records -/

/-- There is a watch of the descriptor, and the name it has is not empty. -/
def HasName {σ : Type} [Sys σ] (wd : Int32) (w : World σ) : Prop :=
  wd ≠ 0 ∧ w.lib.store.byWd[wd]?.isSome ∧ ∃ name w', filenameFromWd wd w = .ok (name, w') ∧ name ≠ []

section

variable {σ : Type} [Sys σ] {w w₁ : World σ} {path : EventPath} {ev : Event} {wd : Int32}

/-- Only a descriptor in the store has a name. -/
theorem filenameFromWdPtr_known {p : CString} (hw : w.lib.store.WellIndexed)
    (h : filenameFromWdPtr wd w = .ok (p, w₁)) (hne : p.bytes ≠ []) :
    wd ≠ 0 ∧ w.lib.store.byWd[wd]?.isSome := by
  obtain ⟨_, w₂, hinit, hrest⟩ := Prog.bind_ok h
  obtain ⟨_, w₂', hinit', heffects⟩ := assertInit_calm w hw
  obtain ⟨-, rfl⟩ := Prod.mk.inj (Except.ok.inj (hinit.symm.trans hinit'))
  split at hrest
  · cases hrest
    exact absurd rfl hne
  · next hwd =>
      obtain ⟨id, w₃, hid, hrest⟩ := Prog.bind_ok hrest
      cases hid
      rw [← heffects.sameBooks.store]
      cases hfound : w₂.lib.store.byWd[wd]? with
      | some id => exact ⟨hwd, rfl⟩
      | none =>
          rw [hfound] at hrest
          cases hrest
          exact absurd rfl hne

theorem hasName_iff (hw : w.lib.store.WellIndexed)
    (hpath : filenameFromEvent ev w = .ok (path, w₁)) : HasName ev.wd w ↔ path.dirname ≠ [] := by
  obtain ⟨p, w', hname, hfilename, -, hzero, -⟩ := filenameFromEvent_parts hpath
  have hwd : filenameFromWd ev.wd w = .ok (p.bytes, w') := Prog.bind_run_ok hname
  rw [EventPath.dirname, Ne, List.take_eq_nil_iff, hfilename, or_iff_right_of_imp hzero]
  constructor
  · rintro ⟨-, -, name, w'', hwd', hne⟩
    obtain ⟨rfl, -⟩ := Prod.mk.inj (Except.ok.inj (hwd.symm.trans hwd'))
    exact hne
  · intro hne
    obtain ⟨hzero', hknown⟩ := filenameFromWdPtr_known hw hname hne
    exact ⟨hzero', hknown, p.bytes, w', hwd, hne⟩

end

/-- A line is a record of the fields that are printed. -/
theorem read_csvLine (hpath : path.dirnamelen ≤ path.filename.length)
    (hdir : path.dirnamelen ≤ maxStrlen) (hname : path.eventname.length ≤ maxStrlen)
    (mask : UInt32) :
    Csv.read csvDialect (csvLine path mask) = some [(if path.dirname = [] then [] else [path.dirname])
      ++ [eventString mask.toInt32 0x2c, path.eventname]] := by
  have hevents : (eventString mask.toInt32 0x2c).length ≤ maxStrlen :=
    (length_eventString _ _).le.trans (by decide)
  have hrest : List.Forall₂ (Csv.Form csvDialect)
      [Inotifywait.csvEscape (eventString mask.toInt32 0x2c), Inotifywait.csvEscape path.eventname]
      [eventString mask.toInt32 0x2c, path.eventname] :=
    .cons (csvEscape_form hevents) (.cons (csvEscape_form hname) .nil)
  have hform := csvEscapeLen_form hpath hdir
  have hempty := csvEscapeLen_eq_nil_iff hpath hdir
  refine Csv.read_record ?_ (by simp)
  unfold csvFields
  dsimp only
  by_cases hnil : path.dirname = []
  · rw [if_pos hnil, if_pos (List.isEmpty_iff.2 (hempty.2 hnil))]
    exact hrest
  · rw [if_neg hnil, if_neg (by rwa [List.isEmpty_iff, hempty])]
    exact .cons hform hrest

/-- **Every event is a record of three fields if its watch has a name**, which overflow events and
    events of a removed watch lack. -/
theorem csv_record_iff (hw : w.lib.store.WellIndexed) (ev : Event) :
    ∃ path w₁ w' line, filenameFromEvent ev w = .ok (path, w₁) ∧
      Inotifywait.outputEventCsv ev w = .ok ((), w') ∧ w'.os.tape = w.os.tape ++ line ∧
      (path.dirnamelen ≤ maxStrlen → path.eventname.length ≤ maxStrlen →
        (Csv.read csvDialect line =
            some [[path.dirname, eventString ev.mask.toInt32 0x2c, path.eventname]] ↔
          HasName ev.wd w)) := by
  obtain ⟨path, w₁, hpath, -⟩ := filenameFromEvent_calm ev w hw
  obtain ⟨w', hrun, htape⟩ := outputEventCsv_run hpath
  refine ⟨path, w₁, w', csvLine path ev.mask, hpath, hrun, htape, fun hdir hname => ?_⟩
  rw [hasName_iff hw hpath, read_csvLine (filenameFromEvent_dirname hpath) hdir hname]
  by_cases hnil : path.dirname = []
  · rw [if_pos hnil]
    exact iff_of_false (by simp) (not_not.2 hnil)
  · rw [if_neg hnil]
    exact iff_of_true rfl hnil

/-- A handle that watches the directory `d,` under the descriptor 1. -/
def deskCsv : World (Taped Desk) where
  lib := { Inotifytools.new with
    store := Store.empty.insert
      { fid := none, filename := cstring (ascii "d,/"), wd := 1, dirf := 0, stats := {} } }
  os := { os := {} }

/-- A name that needs quotes. -/
def deskQuoted : Event :=
  { wd := 1, mask := 0x100, cookie := 0, len := 8, name := ascii " a\"\n" }

theorem csv_record_iff_desk :
    ∃ w' line, Inotifywait.outputEventCsv deskQuoted deskCsv = .ok ((), w') ∧ w'.os.tape = line ∧
      Csv.read csvDialect line = some [[ascii "d,/", ascii "CREATE", ascii " a\"\n"]] := by
  have hresult : (filenameFromEvent deskQuoted).result deskCsv
      = some ⟨ascii "d,/", 3, ascii " a\"\n"⟩ := by decide +kernel
  have hnamed : (filenameFromWd 1).result deskCsv = some (ascii "d,/") := by decide +kernel
  have hhas : HasName deskQuoted.wd deskCsv :=
    ⟨by decide, by decide +kernel, _, _, Prog.run_of_result hnamed, by decide⟩
  have hevents : eventString deskQuoted.mask.toInt32 0x2c = ascii "CREATE" := by decide +kernel
  obtain ⟨path, w₁, w', line, hpath, hrun, htape, hrecord⟩ :=
    csv_record_iff (Store.wellIndexed_empty.insert _) deskQuoted (w := deskCsv)
  obtain ⟨rfl, rfl⟩ := Prod.mk.inj (Except.ok.inj (hpath.symm.trans (Prog.run_of_result hresult)))
  refine ⟨w', line, hrun, htape, ?_⟩
  rw [(hrecord (by decide) (by decide)).2 hhas, hevents]
  rfl

/-- An overflow of the kernel's queue. -/
def deskOverflow : Event := { wd := -1, mask := 0x4000, cookie := 0, len := 0, name := [] }

/-- An event of no watch is a record of two fields. -/
theorem overflow_record :
    ∃ path w₁ w' line, filenameFromEvent deskOverflow deskCsv = .ok (path, w₁) ∧
      path.dirnamelen ≤ maxStrlen ∧ path.eventname.length ≤ maxStrlen ∧
      Inotifywait.outputEventCsv deskOverflow deskCsv = .ok ((), w') ∧ w'.os.tape = line ∧
      Csv.read csvDialect line = some [[ascii "Q_OVERFLOW", []]] ∧
      Csv.read csvDialect line ≠
        some [[path.dirname, eventString deskOverflow.mask.toInt32 0x2c, path.eventname]] := by
  have hpath : (filenameFromEvent deskOverflow).result deskCsv = some ⟨[], 0, []⟩ := by
    decide +kernel
  have hrun : (Inotifywait.outputEventCsv deskOverflow).result deskCsv = some () := by
    decide +kernel
  have hread : Csv.read csvDialect ((Inotifywait.outputEventCsv deskOverflow).after deskCsv).os.tape
      = some [[ascii "Q_OVERFLOW", []]] := by decide +kernel
  refine ⟨_, _, _, _, Prog.run_of_result hpath, Nat.zero_le _, Nat.zero_le _,
    Prog.run_of_result hrun, rfl, hread, ?_⟩
  rw [hread]
  exact fun h => absurd (congrArg (Option.map (List.map List.length)) h) (by simp)

end InotifyTools
