import InotifyTools.Proofs.CsvRecords
import InotifyTools.Proofs.FormatTokens
import InotifyTools.Proofs.Programs

set_option autoImplicit false

/-! # What writes nothing to `stdout`

Formatting, reading and following moves write to `stdout` in one place alone: the conversion of a
fanotify record tells of a fid that has no watch. -/

namespace InotifyTools

variable {σ α : Type} [Sys σ]

/-! ## Formatting

A scan works on the handle and asks for the time, and does nothing else. -/

section

variable {r : World σ → World σ → Prop} [Std.Refl r] [IsTrans (World σ) r]

omit [Sys σ] [Std.Refl r] [IsTrans (World σ) r] in
theorem eventToStrSep_keeps (hlib : ∀ f, Prog.Keeps r (modifyLib f : M σ Unit)) (events : Int32)
    (sep : UInt8) : Prog.Keeps r (eventToStrSep events sep : M σ Bytes) := by
  intro w bs w' hrun
  obtain ⟨m, hm⟩ := eventToStrSep_run events sep w
  obtain ⟨-, rfl⟩ := Prod.mk.inj (Except.ok.inj (hrun.symm.trans hm))
  exact hlib (fun l => { l with evstr := m }) w () _ rfl

omit [Sys σ] in
theorem put_keeps (o : OutCursor) (c : UInt8) : Prog.Keeps r (o.put c : M σ OutCursor) := by
  unfold OutCursor.put Prog.guard
  exact .bind (.ite (.pure _) (.fault _)) fun _ => .pure _

theorem conversion_keeps (hlib : ∀ f, Prog.Keeps r (modifyLib f : M σ Unit))
    (htime : ∀ tf, Prog.Keeps r (call (Sys.strftimeNow tf) : M σ (Option Bytes))) (path : EventPath)
    (ev : Event) (ch1 : UInt8) (room : Nat) (o : OutCursor) :
    Prog.Keeps r (conversion path ev ch1 room o : M σ (Option OutCursor)) := by
  unfold conversion
  refine .ite (.bind (put_keeps _ _) fun _ => .pure _) ?_
  refine .ite (.bind (put_keeps _ _) fun _ => .pure _) ?_
  refine .ite (.bind (put_keeps _ _) fun _ => .pure _) ?_
  refine .ite (.ite (.pure _) (.pure _)) (.ite (.pure _) (.ite (.bind ?_ fun _ => .pure _) ?_))
  · unfold OutCursor.putHex Prog.guard
    exact .bind (.ite (.pure _) (.fault _)) fun _ => .pure _
  · refine .ite (.bind (eventToStrSep_keeps hlib _ _) fun _ => .pure _) (.bind ?_ fun t => ?_)
    · refine .bind (.bind .read fun _ => .pure _) fun l => ?_
      cases l.timefmt with
      | none => exact .pure _
      | some tf => exact htime tf
    · cases t with
      | none => exact .pure _
      | some t => exact .pure _

theorem snprintfScan_keeps (hlib : ∀ f, Prog.Keeps r (modifyLib f : M σ Unit))
    (htime : ∀ tf, Prog.Keeps r (call (Sys.strftimeNow tf) : M σ (Option Bytes))) (path : EventPath)
    (ev : Event) (size : Int) (fmt : Bytes) (o : OutCursor) :
    Prog.Keeps r (snprintfScan path ev size fmt o : M σ (ScanEnd × OutCursor)) := by
  fun_induction tokens fmt generalizing o with
  | case1 => exact .pure _
  | case2 | case3 =>
      unfold snprintfScan
      refine .ite (.pure _) (.ite (.bind (hlib _) fun _ => .pure _) ?_)
      exact .bind (put_keeps _ _) fun _ => .pure _
  | case4 c ch1 fmt hc ih =>
      unfold snprintfScan
      rw [if_pos hc]
      exact .ite (.pure _) (.bind (put_keeps _ _) fun o => ih o)
  | case5 c ch1 fmt hc hconv ih =>
      unfold snprintfScan
      rw [if_neg hc, if_pos hconv]
      refine .ite (.pure _) (.bind (conversion_keeps hlib htime _ _ _ _ _) fun o => ?_)
      cases o with
      | none => exact .bind (hlib _) fun _ => .pure _
      | some o => exact ih o
  | case6 c ch1 hc hconv =>
      unfold snprintfScan
      rw [if_neg hc, if_neg hconv]
      exact .ite (.pure _) (.pure _)
  | case7 c ch1 hc hconv fmt' ih =>
      unfold snprintfScan
      rw [if_neg hc, if_neg hconv]
      dsimp only
      rw [if_pos rfl]
      exact .ite (.pure _) (.bind (eventToStrSep_keeps hlib _ _) fun _ => ih _)
  | case8 c ch1 hc hconv ch2 fmt' hch ih =>
      unfold snprintfScan
      rw [if_neg hc, if_neg hconv]
      dsimp only
      rw [if_neg hch]
      exact .ite (.pure _) (ih _)

/-- So does a call of `snprintf`, once the name of the event is found. -/
theorem snprintf_keeps (hlib : ∀ f, Prog.Keeps r (modifyLib f : M σ Unit))
    (htime : ∀ tf, Prog.Keeps r (call (Sys.strftimeNow tf) : M σ (Option Bytes))) {ev : Event}
    {w w' : World σ} (hpath : ∀ path w₁, filenameFromEvent ev w = .ok (path, w₁) → r w w₁)
    {out : NString} {size : Int32} {fmt : Option Bytes} {ret : Int32 × NString}
    (hrun : snprintf out size ev fmt w = .ok (ret, w')) : r w w' := by
  unfold snprintf at hrun
  obtain ⟨path, w₁, hpath', hrest⟩ := Prog.bind_ok hrun
  refine IsTrans.trans _ _ _ (hpath path w₁ hpath') (Prog.Keeps.ite ?_ (.ite ?_
    (.bind (snprintfScan_keeps hlib htime _ ev _ _ _) fun e => ?_)) w₁ _ w' hrest)
  · exact .bind (hlib _) fun _ => .pure _
  · exact .bind (hlib _) fun _ => .pure _
  · obtain ⟨e, o⟩ := e
    cases e with
    | done => exact .pure _
    | stop ret => exact .pure _

end

theorem snprintf_mute (out : NString) (size : Int32) (ev : Event) (fmt : Option Bytes) :
    Mute (snprintf out size ev fmt : M (Taped σ) (Int32 × NString)) :=
  fun _ _ _ hrun => snprintf_keeps modifyLib_mute (fun _ => call_mute _)
    (fun _ _ hpath => filenameFromEvent_mute ev _ _ _ hpath) hrun

/-! ## Looking up, renaming and removing -/

theorem errno_mute : Mute (errno : M (Taped σ) Int32) := .bind .read fun _ => .pure _

theorem niceassert_mute (cond : Bool) (line : Nat) (condstr msg : String) :
    Mute (niceassert cond line condstr msg : M (Taped σ) Unit) := .ite (.pure _) (ceprint_mute _)

theorem assertInit_mute : Mute (assertInit : M (Taped σ) Unit) :=
  .bind getLib_mute fun _ => niceassert_mute _ _ _ _

omit [Sys σ] in
theorem watchFromFid_mute (f : Bytes) : Mute (watchFromFid f : M (Taped σ) (Option Nat)) :=
  .bind getLib_mute fun _ => .pure _

theorem dirpathFromEvent_mute (ev : Event) :
    Mute (dirpathFromEvent ev : M (Taped σ) (Option Bytes)) :=
  .bind (.bind (filenameFromWdPtr_mute _) fun _ => .pure _) fun _ =>
    .ite (.pure _) (.bind getLib_mute fun _ => .pure _)

theorem wdFromFilename_mute (n : Bytes) : Mute (wdFromFilename n : M (Taped σ) Int32) := by
  refine .bind assertInit_mute fun _ => .ite (.pure _) (.bind (.bind getLib_mute fun _ => .pure _) ?_)
  intro id
  cases id with
  | none => exact .pure _
  | some id => exact .bind (watch_mute id) fun _ => .pure _

omit [Sys σ] in
theorem renameWatch_mute (id : Nat) (n : Bytes) : Mute (renameWatch id n : M (Taped σ) Unit) :=
  .bind (watch_mute id) fun _ => .bind getLib_mute fun _ => modifyLib_mute _

omit [Sys σ] in
theorem replaceFilename_mute (old new : Bytes) :
    Mute (replaceFilename old new : M (Taped σ) Unit) := by
  have hone : ∀ id, Mute (replaceFilenameOf old new id : M (Taped σ) Unit) := by
    intro id
    refine .bind getLib_mute fun l => ?_
    cases l.store.watches[id]? with
    | none => exact .pure _
    | some v => exact .ite (renameWatch_mute id _) (.pure _)
  have hall : ∀ ids, Mute (replaceFilenames old new ids : M (Taped σ) Unit) := by
    intro ids
    induction ids with
    | nil => exact .pure _
    | cons id ids ih => exact .bind (hone id) fun _ => ih
  exact .ite (.pure _) (.bind getLib_mute fun _ => hall _)

theorem dropWatch_mute (v : Watch) : Mute (dropWatch v : M (Taped σ) Unit) :=
  .ite (exec_mute _) (.pure _)

theorem removeWatch_mute (id : Option Nat) : Mute (removeWatch id : M (Taped σ) Bool) := by
  have hkernel : ∀ id, Mute (removeInotifyWatch id : M (Taped σ) Bool) := by
    intro id
    refine .bind (modifyLib_mute _) fun _ => .bind (watch_mute id) fun v => .ite (.pure _) ?_
    refine .bind getLib_mute fun _ => .bind (call_mute _) fun status => .ite ?_ (.pure _)
    refine .bind (.pure _) fun _ => .bind (ceprint_mute _) fun _ => ?_
    exact .bind (modifyLib_mute _) fun _ => .pure _
  have hdestroy : ∀ id, Mute (destroyWatch id : M (Taped σ) Unit) := fun id =>
    .bind (watch_mute id) fun v => .bind getLib_mute fun _ => .bind (modifyLib_mute _) fun _ =>
      dropWatch_mute v
  refine .bind assertInit_mute fun _ => ?_
  cases id with
  | none => exact .pure _
  | some id =>
      exact .bind (hkernel id) fun _ => .ite (.pure _) (.bind (hdestroy id) fun _ => .pure _)

/-! ## Watching -/

theorem isdir_mute (p : Bytes) : Mute (isdir p : M (Taped σ) Bool) := by
  refine .bind (call_mute _) fun mode => ?_
  cases mode with
  | some mode => exact .pure _
  | none =>
      refine .bind errno_mute fun _ => .bind (.pure _) fun _ => ?_
      exact .bind (.ite (ceprint_mute _) (.pure _)) fun _ => .pure _

theorem createWatch_mute (fuel : Nat) (wd : Int32) (fid : Option Bytes) (filename : Bytes)
    (dirf : Int32) : Mute (createWatch fuel wd fid filename dirf : M (Taped σ) (Option Int32)) := by
  have hassign : Mute (assignWd fuel wd : M (Taped σ) Int32) := by
    refine .ite (.pure _) (.bind getLib_mute fun l => ?_)
    dsimp only
    cases Store.searchFanotifyWd l.store.byWd fuel l.store.nextFanotifyWd with
    | none => exact .fault _
    | some wd => exact .bind (modifyLib_mute _) fun _ => .pure _
  have henter : ∀ v, Mute (enterWatch v : M (Taped σ) Unit) := fun v =>
    .bind getLib_mute fun _ => .bind (modifyLib_mute _) fun _ => .ite (.pure _) (dropWatch_mute v)
  exact .ite (.pure _) (.bind hassign fun _ => .bind (henter _) fun _ => .pure _)

/-- What a failed call is reported with goes to `stderr`. -/
theorem report_mute (msg : Bytes → List Piece) (a : α) : Mute (do
    let e ← strerror (← errno)
    ceprint (msg e)
    return a : M (Taped σ) α) :=
  .bind errno_mute fun _ => .bind (.pure _) fun _ => .bind (ceprint_mute _) fun _ => .pure _

theorem storeWatch_mute (fuel : Nat) (p : CString) (wd : Int32) :
    Mute (storeWatch fuel p wd : M (Taped σ) Bool) := by
  have hmount : ∀ f d, Mute (registerMount fuel f d : M (Taped σ) Bool) := by
    intro f d
    cases d with
    | none => exact .pure _
    | some d =>
        refine .bind (watchFromFid_mute f) fun known => .ite (.pure _) ?_
        refine .bind (call_mute _) fun mntid => .ite (report_mute _ _) ?_
        exact .bind (createWatch_mute _ _ _ _ _) fun _ => .pure _
  have hencode : ∀ d, Mute (fanotifyEncodeFid fuel p d : M (Taped σ) (Option (Bytes × Int32))) := by
    intro d
    refine .bind (call_mute _) fun fsid => ?_
    cases fsid with
    | none => exact report_mute _ _
    | some fsid =>
        refine .bind (hmount _ _) fun ok => .ite (.pure _) (.bind (call_mute _) fun r => ?_)
        refine .ite (report_mute _ _) ?_
        cases d with
        | none => exact .pure _
        | some d => exact .bind (call_mute _) fun dirf => .ite (report_mute _ _) (.pure _)
  have hfid : ∀ d, Mute (watchFid fuel wd p d : M (Taped σ) (Option (Option Bytes × Int32))) := by
    intro d
    refine .ite (.pure _) (.bind (hencode d) fun r => ?_)
    cases r <;> exact .pure _
  refine .bind (isdir_mute _) fun isDir => .bind (hfid _) fun r => ?_
  cases r with
  | none => exact .pure _
  | some r => exact .bind (createWatch_mute _ _ _ _ _) fun _ => .pure _

theorem watchFiles_mute (fuel : Nat) (names : List Bytes) (events : Int32) :
    Mute (watchFiles fuel names events : M (Taped σ) Bool) := by
  have hadd : ∀ p events, Mute (addWatch p events : M (Taped σ) (Int32 × Int32)) := fun p events =>
    .bind getLib_mute fun _ => .ite (.bind (call_mute _) fun _ => .pure _)
      (.bind (call_mute _) fun _ => .pure _)
  have hrefused : ∀ (n : Bytes) wd, Mute (watchRefused n wd : M (Taped σ) Unit) := fun n wd =>
    .ite (.bind errno_mute fun _ => modifyLib_mute _) (ceprint_mute _)
  have hone : ∀ n events, Mute (watchOne fuel n events : M (Taped σ) (Bool × Int32)) := fun n events =>
    .bind (hadd _ _) fun _ => .ite (.bind (hrefused _ _) fun _ => .pure _)
      (.bind (storeWatch_mute _ _ _) fun _ => .pure _)
  refine .bind assertInit_mute fun _ => .bind (modifyLib_mute _) fun _ => ?_
  induction names generalizing events with
  | nil => exact .pure _
  | cons n names ih => exact .bind (hone _ _) fun _ => .ite (.pure _) (ih _)

theorem watchRecursivelyWithExclude_mute (fuel : Nat) (p : Bytes) (events : Int32)
    (excluded : List Bytes) :
    Mute (watchRecursivelyWithExclude fuel p events excluded : M (Taped σ) Bool) := by
  induction fuel generalizing p with
  | zero => exact .fault _
  | succ fuel ih =>
      have hentry : ∀ dir n, Mute (walkEntry
          (fun p => watchRecursivelyWithExclude fuel p events excluded) dir excluded n :
            M (Taped σ) Bool) := by
        intro dir n
        refine .bind (call_mute _) fun mode => ?_
        cases mode with
        | none => exact .bind errno_mute fun _ => .bind (modifyLib_mute _) fun _ => .pure _
        | some mode =>
            exact .ite (.pure _) (.ite (.pure _) (.bind (ih _) fun _ => .bind getLib_mute fun _ =>
              .pure _))
      have hentries : ∀ dir n k, Mute (walkEntries
          (fun p => watchRecursivelyWithExclude fuel p events excluded) dir n excluded k :
            M (Taped σ) Bool) := by
        intro dir n k
        induction k with
        | zero => exact .fault _
        | succ k ihk =>
            refine .bind (call_mute _) fun name => ?_
            cases name with
            | none => exact .pure _
            | some name =>
                refine .bind (.ite (hentry _ _) (.pure _)) fun ok => .ite (.pure _) ?_
                exact .bind (modifyLib_mute _) fun _ => ihk
      unfold watchRecursivelyWithExclude
      refine .bind assertInit_mute fun _ => .bind (modifyLib_mute _) fun _ => ?_
      refine .bind (call_mute _) fun dir => ?_
      cases dir with
      | none =>
          refine .bind errno_mute fun _ => .ite (watchFiles_mute _ _ _) ?_
          exact .bind (modifyLib_mute _) fun _ => .pure _
      | some dir =>
          refine .bind (hentries _ _ _) fun ok => .bind (exec_mute _) fun _ => ?_
          exact .ite (.pure _) (watchFiles_mute _ _ _)

/-- Following moves writes where its reports go. -/
theorem MoveTracker.handle_mute {out : List Piece → M (Taped σ) Unit} (hout : ∀ ps, Mute (out ps))
    (t : MoveTracker) (fuel : Nat) (ev : Event) (recursive : Bool) (events : Int32)
    (announce : Bool) :
    Mute (t.handle fuel ev recursive events announce out : M (Taped σ) MoveTracker) := by
  have hreport : ∀ msg : Bytes → List Piece, Mute (do
      out (msg (← strerror (← getLib).error)) : M (Taped σ) Unit) := fun msg =>
    .bind getLib_mute fun _ => .bind (.pure _) fun _ => hout _
  have hsettle : Mute (t.settle ev out : M (Taped σ) MoveTracker) := by
    unfold settle
    cases t.movedFrom with
    | none => exact .pure _
    | some mf =>
        refine .ite (.bind (.bind (.bind getLib_mute fun _ => .pure _) fun _ => removeWatch_mute _) ?_)
          (.pure _)
        exact fun ok => .bind (.ite (hreport _) (.pure _)) fun _ => .pure _
  have hnew : Mute (watchNew fuel ev events announce out : M (Taped σ) Unit) := by
    refine .bind (dirpathFromEvent_mute ev) fun p => ?_
    cases p with
    | none => exact .pure _
    | some p =>
        refine .ite (.pure _) (.bind (isdir_mute p) fun isDir => .ite (.pure _) ?_)
        refine .bind (.ite (hout _) (.pure _)) fun _ => ?_
        refine .bind (watchRecursivelyWithExclude_mute _ _ _ _) fun ok => .ite ?_ (.pure _)
        exact .bind getLib_mute fun _ => .bind (.pure _) fun _ => hout _
  refine .bind hsettle fun t => .ite (.pure _) ?_
  refine .ite (.bind hnew fun _ => .pure _) (.ite ?_ (.ite ?_ (.pure _)))
  · refine .bind (dirpathFromEvent_mute ev) fun p => .bind (wdFromFilename_mute _) fun wd => ?_
    exact .ite (.pure _) (.pure _)
  · cases t.movedFrom with
    | none => exact .pure _
    | some mf =>
        exact .bind (dirpathFromEvent_mute ev) fun _ => .bind (replaceFilename_mute _ _) fun _ => .pure _

/-! ## Reading -/

omit [Sys σ] in
theorem bufferedEvent_mute : Mute (bufferedEvent : M (Taped σ) Bool) := by
  unfold bufferedEvent
  refine .bind (.bind getLib_mute fun _ => .pure _) fun s => .ite ?_ (.ite ?_ (.pure _))
  · refine .bind (modifyLib_mute _) fun _ => .bind getLib_mute fun _ => ?_
    refine .ite (.bind (guard_mute _ _) fun _ => ?_) (.bind (modifyLib_mute _) fun _ => .pure _)
    exact .bind (modifyLib_mute _) fun _ => .pure _
  · exact .bind (modifyLib_mute _) fun _ => .pure _

theorem readEvents_mute (fuel : Nat) (timeout : Int) (n : Int32) :
    Mute (readEvents fuel timeout n : M (Taped σ) Bool) := by
  have hfailed : Mute (do setError (← errno); return false : M (Taped σ) Bool) :=
    .bind errno_mute fun _ => .bind (modifyLib_mute _) fun _ => .pure _
  have hwait : Mute (waitForBytes n fuel : M (Taped σ) Int32) := by
    induction fuel with
    | zero => exact .fault _
    | succ fuel ih =>
        exact .bind getLib_mute fun _ => .bind (call_mute _) fun _ => .ite (.pure _) ih
  unfold readEvents
  refine .bind getLib_mute fun _ => .bind (call_mute _) fun rc => ?_
  refine .ite hfailed (.ite (.pure _) (.bind hwait fun rc => .ite hfailed ?_))
  refine .bind getLib_mute fun _ => .bind (call_mute _) fun data => ?_
  cases data with
  | none => exact hfailed
  | some data =>
      refine .ite (.bind (ceprint_mute _) fun _ => .pure _) ?_
      exact .bind (modifyLib_mute _) fun _ => .pure _

theorem advance_mute : Mute (advance : M (Taped σ) Unit) :=
  .bind (modifyLib_mute _) fun _ => .bind (.bind getLib_mute fun _ => .pure _) fun _ =>
    .bind (niceassert_mute _ _ _ _) fun _ => modifyLib_mute _

theorem deliver_mute (pid : Int32) : Mute (deliver pid : M (Taped σ) Round) := by
  have hfilter : Mute (filterEvent : M (Taped σ) Bool) := by
    refine .bind getLib_mute fun l => ?_
    cases l.regex with
    | none => exact .pure _
    | some re => exact .ite (.pure _) (.bind (snprintf_mute _ _ _ _) fun _ => .pure _)
  have hrecord : ∀ wd mask, Mute (recordStats wd mask : M (Taped σ) Unit) := by
    intro wd mask
    refine .bind (.bind getLib_mute fun _ => .pure _) fun id => ?_
    cases id with
    | none => exact .pure _
    | some id => exact modifyLib_mute _
  exact .bind getLib_mute fun _ => .ite (.pure _) (.bind hfilter fun _ => .ite (.pure _)
    (.bind getLib_mute fun _ => .bind (.ite (hrecord _ _) (.pure _)) fun _ => .pure _))

/-! ## Converting -/

/-- The event buffer with the length of the record that a fid starts set right. -/
def FidInfo.adjusted (info : FidInfo) (buf : Mem) : Mem :=
  match info.newLen with
  | some newLen => buf.blit (info.fidOff + 2) (leBytes 2 newLen.toNat)
  | none => buf

/-- The fid in the event buffer. -/
def FidInfo.fidIn (info : FidInfo) (buf : Mem) : Bytes :=
  let hl := leNat [buf.get evbufSize (info.fidOff + 2), buf.get evbufSize (info.fidOff + 3)]
  let stop := min (info.fidOff + hl) (maxEvents * eventSize)
  buf.slice info.fidOff (stop - info.fidOff)

/-- The fid of the fanotify event whose metadata is at `metaOff`. -/
def EventStream.fidAt (s : EventStream) (metaOff : Nat) : Option Bytes :=
  (locateFid s metaOff).map fun info => info.fidIn (info.adjusted s.evbuf)

theorem EventStream.fidAt_congr {s s' : EventStream} (h : s'.evbuf = s.evbuf) :
    s'.fidAt = s.fidAt := by
  obtain ⟨evbuf, _, _, _, _⟩ := s
  cases h
  rfl

/-- The conversion of the fanotify event at the cursor tells of it: with more than one `--verbose`, or
    with one if no watch has its fid. -/
def World.TellsFid (w : World σ) : Prop :=
  w.lib.fanotifyMode = true ∧
    ∃ fid, w.lib.stream.fidAt (usizeOfI32 w.lib.stream.firstByte) = some fid ∧
      (w.lib.verbosity > 1 ∨ w.lib.verbosity ≠ 0 ∧ w.lib.store.byFid[FidKey.new fid]? = none)

omit [Sys σ] in
theorem blitEvbuf_mute (off : Nat) (bs : Bytes) : Mute (blitEvbuf off bs : M (Taped σ) Unit) :=
  .bind (guard_mute _ _) fun _ => modifyLib_mute _

omit [Sys σ] in
theorem writeEvent_mute (metaOff : Nat) (wd : Option Int32) (info : FidInfo) :
    Mute (writeEvent metaOff wd info : M (Taped σ) Unit) := by
  unfold writeEvent
  refine .bind (guard_mute _ _) fun _ => .bind (.bind getLib_mute fun _ => .pure _) fun _ => ?_
  refine .bind (blitEvbuf_mute _ _) fun _ => .bind (blitEvbuf_mute _ _) fun _ => ?_
  refine .bind (blitEvbuf_mute _ _) fun _ => ?_
  cases info.nameOff with
  | none => exact .pure _
  | some src => exact .ite (modifyLib_mute _) (.pure _)

theorem wdOfFid_mute (fuel : Nat) (fid : Bytes) :
    Mute (wdOfFid fuel fid : M (Taped σ) (Option Int32 × Option CString)) := by
  refine .bind (watchFromFid_mute fid) fun id => ?_
  cases id with
  | some id => exact .bind (watch_mute id) fun _ => .pure _
  | none =>
      refine .bind (filenameFromFid_mute fid) fun p => ?_
      cases p with
      | none => exact .pure _
      | some p => exact .bind (createWatch_mute _ _ _ _ _) fun _ => .pure _

theorem wdOfFid_verbosity {w w' : World σ} (hw : w.lib.store.WellIndexed)
    (hm : w.lib.fanotifyMode = true) {fuel : Nat} {fid : Bytes} {r : Option Int32 × Option CString}
    (hrun : wdOfFid fuel fid w = .ok (r, w')) : w'.lib.verbosity = w.lib.verbosity :=
  ((wdOfFid_sound (S := {.watch}) rfl nofun fuel fid w hw (.inl hm)).ok hrun).1.verbosity_eq nofun

variable {w w' : World (Taped σ)}

/-- A conversion that does not tell of its event is silent. -/
theorem convertFanotifyEvent_silent (hw : w.lib.store.WellIndexed) (hm : w.lib.fanotifyMode = true)
    (htells : ∀ fid, w.lib.stream.fidAt w.lib.stream.retOff = some fid →
      ¬ (w.lib.verbosity > 1 ∨ w.lib.verbosity ≠ 0 ∧ w.lib.store.byFid[FidKey.new fid]? = none))
    {fuel : Nat} {pid : Option Int32} (hrun : convertFanotifyEvent fuel w = .ok (pid, w')) :
    NothingPrinted w w' := by
  unfold convertFanotifyEvent at hrun
  rw [getStream_bind, getStream_bind, modifyStream_bind, getStream_bind] at hrun
  have hlocate : locateFid (w.withStream { w.lib.stream with
      firstByte := w.lib.stream.firstByte + (w.lib.stream.rdU32 w.lib.stream.retOff).toInt32 }).lib.stream
        w.lib.stream.retOff = locateFid w.lib.stream w.lib.stream.retOff := rfl
  rw [hlocate] at hrun
  unfold EventStream.fidAt at htells
  cases hfid : locateFid w.lib.stream w.lib.stream.retOff with
  | none =>
      rw [hfid] at hrun
      have hmute : Mute (do
          ceprint [.text "No fid in fanotify event.\n"]
          return none : M (Taped σ) (Option Int32)) := .bind (ceprint_mute _) fun _ => .pure _
      exact ⟨(hmute _ _ _ hrun).tape⟩
  | some info =>
      rw [hfid] at hrun htells
      -- two messages may be printed: one with `-v -v`, one about a fid without a watch
      obtain ⟨hloud, hnew⟩ := not_or.1 (htells _ rfl)
      obtain ⟨_, w₂, hadjust, hrun⟩ := Prog.bind_ok hrun
      obtain ⟨s₂, rfl, hbuf⟩ : ∃ s₂, w₂ = w.withStream s₂ ∧
          s₂.evbuf = info.adjusted w.lib.stream.evbuf := by
        unfold FidInfo.adjusted
        cases hlen : info.newLen with
        | none =>
            rw [hlen] at hadjust
            cases hadjust
            exact ⟨_, rfl, rfl⟩
        | some newLen =>
            rw [hlen] at hadjust
            obtain ⟨_, w₂, hguard, hset⟩ := Prog.bind_ok hadjust
            unfold Prog.guard at hguard
            split at hguard <;> cases hguard
            cases hset
            exact ⟨_, rfl, rfl⟩
      dsimp only at hnew
      rw [← hbuf] at hnew
      change ¬ (w.withStream s₂).lib.verbosity > 1 at hloud
      rw [getStream_bind, getLib_bind, if_neg hloud, Prog.pure_bind, modifyStream_bind] at hrun
      obtain ⟨_, w₃, hguard, hrun⟩ := Prog.bind_ok hrun
      unfold Prog.guard at hguard
      split at hguard <;> cases hguard
      obtain ⟨known, w₄, hknown, hrun⟩ := Prog.bind_ok hrun
      cases hknown
      obtain ⟨⟨wd, filename⟩, w₅, hwd, hrun⟩ := Prog.bind_ok hrun
      have hquiet := wdOfFid_verbosity (by exact hw) (by exact hm) hwd
      have htape := (wdOfFid_mute fuel _ _ _ _ hwd).tape
      dsimp only at hrun
      rw [getLib_bind, if_neg ?_, Prog.pure_bind] at hrun
      · have hmute : Mute (do
            writeEvent w.lib.stream.retOff wd info
            return some ((← getStream).rdU32 (w.lib.stream.retOff + 20)).toInt32 :
              M (Taped σ) (Option Int32)) :=
          .bind (writeEvent_mute _ _ _) fun _ => .bind (.bind getLib_mute fun _ => .pure _) fun _ => .pure _
        exact ⟨(hmute _ _ _ hrun).tape.trans htape⟩
      · rintro ⟨hunknown, hverbose⟩
        exact hnew ⟨hquiet ▸ hverbose,
          Option.isNone_iff_eq_none.1 ((Option.not_isSome _).symm.trans hunknown)⟩

/-- The event that a turn of the loop is about to convert, in `w`, is told of. -/
theorem decodeEvent_silent (hw : w.lib.store.WellIndexed) (htells : ¬ w.TellsFid) {fuel : Nat}
    {pid : Option Int32} (hrun : decodeEvent fuel w = .ok (pid, w')) : NothingPrinted w w' := by
  unfold decodeEvent at hrun
  rw [modifyStream_bind, getLib_bind] at hrun
  let s : EventStream := { w.lib.stream with retOff := usizeOfI32 w.lib.stream.firstByte }
  by_cases hm : w.lib.fanotifyMode = true
  · rw [if_pos (show (w.withStream s).lib.fanotifyMode = true from hm)] at hrun
    refine ⟨(convertFanotifyEvent_silent (w := w.withStream s) hw hm (fun fid hfid htold => ?_) hrun).tape⟩
    have hat : (w.withStream s).lib.stream.fidAt = w.lib.stream.fidAt := EventStream.fidAt_congr rfl
    have hret : (w.withStream s).lib.stream.retOff = usizeOfI32 w.lib.stream.firstByte := rfl
    rw [hat, hret] at hfid
    exact htells ⟨hm, fid, hfid, htold⟩
  · rw [if_neg (show ¬ (w.withStream s).lib.fanotifyMode = true from hm)] at hrun
    cases hrun
    exact ⟨rfl⟩

end InotifyTools
