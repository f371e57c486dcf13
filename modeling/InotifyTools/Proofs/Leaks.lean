import InotifyTools.Implementation.Planted
import InotifyTools.Proofs.Books

set_option autoImplicit false

/-! # Descriptors and directory streams

Between operations the handle is in charge of every descriptor it has opened and not closed; no
directory stream stays open, nothing is closed that is not open, and dropping the handle closes
everything. -/

namespace InotifyTools

variable {σ α : Type} [Sys σ]

/-! ## Formatting, filters and statistics -/

omit [Sys σ] in
theorem setEvstr_kept (i : Nat) (b : UInt8) : (books σ).Keeps (setEvstr i b : M (Booked σ) Unit) :=
  .bind (.guard _ _) fun _ => modifyLib_kept (fun _ => rfl) (fun _ => rfl) fun _ => rfl

omit [Sys σ] in
theorem blitEvstr_kept (off : Nat) (bs : Bytes) :
    (books σ).Keeps (blitEvstr off bs : M (Booked σ) Unit) :=
  .bind (.guard _ _) fun _ => modifyLib_kept (fun _ => rfl) (fun _ => rfl) fun _ => rfl

omit [Sys σ] in
theorem eventToStrSep_kept (events : Int32) (sep : UInt8) :
    (books σ).Keeps (eventToStrSep events sep : M (Booked σ) Bytes) := by
  have hone : ∀ n, (books σ).Keeps (appendEventName sep n : M (Booked σ) Unit) := fun n =>
    .bind getLib_kept fun _ => .bind (setEvstr_kept _ _) fun _ => .bind (setEvstr_kept _ _) fun _ =>
      .bind getLib_kept fun _ => .bind (blitEvstr_kept _ _) fun _ => setEvstr_kept _ _
  have hall : ∀ names, (books σ).Keeps (appendEventNames events sep names : M (Booked σ) Unit) := by
    intro names
    induction names with
    | nil => exact .pure _
    | cons e names ih => exact .bind (.ite (hone _) (.pure _)) fun _ => ih
  have hhex : (books σ).Keeps (hexEvents events sep : M (Booked σ) Unit) :=
    .bind (setEvstr_kept _ _) fun _ => .bind (blitEvstr_kept _ _) fun _ => setEvstr_kept _ _
  refine .bind (setEvstr_kept _ _) fun _ => .bind (setEvstr_kept _ _) fun _ => .bind (hall _) fun _ => ?_
  refine .bind getLib_kept fun _ => .bind (.ite hhex (.pure _)) fun _ => ?_
  exact .bind getLib_kept fun _ => .pure _

theorem snprintf_kept (hz : KeepsStdin σ) (out : NString) (size : Int32) (ev : Event)
    (fmt : Option Bytes) :
    (books σ).Keeps (snprintf out size ev fmt : M (Booked σ) (Int32 × NString)) := by
  have hput : ∀ (o : OutCursor) c, (books σ).Keeps (o.put c : M (Booked σ) OutCursor) := fun o c =>
    .bind (.guard _ _) fun _ => .pure _
  have hhex : ∀ (o : OutCursor) cookie room,
      (books σ).Keeps (o.putHex cookie room : M (Booked σ) OutCursor) := fun o cookie room =>
    .bind (.guard _ _) fun _ => .pure _
  have htime : (books σ).Keeps (timeString : M (Booked σ) (Option Bytes)) := by
    refine .bind getLib_kept fun l => ?_
    cases l.timefmt with
    | none => exact .pure _
    | some tf => exact call_kept fun _ => rfl
  have hconv : ∀ path c room o,
      (books σ).Keeps (conversion path ev c room o : M (Booked σ) (Option OutCursor)) := by
    intro path c room o
    unfold conversion
    refine .ite (.bind (hput _ _) fun _ => .pure _) (.ite (.bind (hput _ _) fun _ => .pure _) ?_)
    refine .ite (.bind (hput _ _) fun _ => .pure _) (.ite (.ite (.pure _) (.pure _)) ?_)
    refine .ite (.pure _) (.ite (.bind (hhex _ _ _) fun _ => .pure _) ?_)
    refine .ite (.bind (eventToStrSep_kept _ _) fun _ => .pure _) (.bind htime fun t => ?_)
    cases t <;> exact .pure _
  have hstop : ∀ r : ScanEnd × OutCursor, (books σ).Keeps (do
      setError einval
      return r : M (Booked σ) _) := fun r => .bind (setError_kept _) fun _ => .pure _
  have hscan : ∀ path (size : Int) fmt o,
      (books σ).Keeps (snprintfScan path ev size fmt o : M (Booked σ) (ScanEnd × OutCursor)) := by
    intro path size fmt o
    -- every call in the scan is on a shorter rest of the format
    induction hn : fmt.length using Nat.strong_induction_on generalizing fmt o with
    | _ n ih =>
        subst hn
        rcases fmt with _ | ⟨c, _ | ⟨ch1, rest⟩⟩
        · exact .pure _
        · unfold snprintfScan
          exact .ite (.pure _) (.ite (hstop _) (.bind (hput _ _) fun _ => .pure _))
        · unfold snprintfScan
          refine .ite (.pure _) (.ite (.bind (hput _ _) fun _ => ih _ (by simp) _ _ rfl) (.ite ?_ ?_))
          · refine .bind (hconv _ _ _ _) fun o => ?_
            cases o with
            | none => exact hstop _
            | some o => exact ih _ (by simp only [List.length_cons]; omega) _ _ rfl
          · rcases rest with _ | ⟨ch2, rest⟩
            · exact .pure _
            · refine .ite (.bind (eventToStrSep_kept _ _) fun _ => ?_) (ih _ (by simp) _ _ rfl)
              exact ih _ (by simp only [List.length_cons]; omega) _ _ rfl
  refine .bind (filenameFromEvent_kept hz ev) fun path => ?_
  refine .ite (.bind (setError_kept _) fun _ => .pure _) ?_
  refine .ite (.bind (setError_kept _) fun _ => .pure _) (.bind (hscan _ _ _ _) fun r => ?_)
  obtain ⟨_ | ret, o⟩ := r <;> exact .pure _

theorem fprintfTo_kept (hz : KeepsStdin σ) (file : Stream) (ev : Event) (fmt : Option Bytes) :
    (books σ).Keeps (fprintfTo file ev fmt : M (Booked σ) Int32) := by
  have hscratch : ∀ printOut, (books σ).Keeps
      (modifyLib fun l => { l with printOut } : M (Booked σ) Unit) := fun printOut =>
    modifyLib_kept (fun _ => rfl) (fun _ => rfl) fun _ => rfl
  refine .bind getLib_kept fun _ => .bind (hscratch _) fun _ => ?_
  refine .bind (snprintf_kept hz _ _ ev fmt) fun r => ?_
  refine .bind (.ite (exec_kept fun _ => rfl) (.pure _)) fun _ => ?_
  exact .bind (hscratch _) fun _ => .pure _

omit [Sys σ] in
theorem setPrintfTimefmt_kept (fmt : Bytes) :
    (books σ).Keeps (setPrintfTimefmt fmt : M (Booked σ) Unit) :=
  modifyLib_kept (fun _ => rfl) (fun _ => rfl) fun _ => rfl

omit [Sys σ] in
theorem clearTimefmt_kept : (books σ).Keeps (clearTimefmt : M (Booked σ) Unit) :=
  modifyLib_kept (fun _ => rfl) (fun _ => rfl) fun _ => rfl

theorem doIgnoreEventsByRegex_kept (pattern : Option Bytes) (flags : Int32) (invert : Bool)
    (recursive : Int32) :
    (books σ).Keeps (doIgnoreEventsByRegex pattern flags invert recursive : M (Booked σ) Bool) := by
  cases pattern with
  | none => exact .bind (modifyLib_kept (fun _ => rfl) (fun _ => rfl) fun _ => rfl) fun _ => .pure _
  | some pattern =>
      refine .bind (modifyLib_kept (fun _ => rfl) (fun _ => rfl) fun _ => rfl) fun _ => ?_
      refine .bind (call_kept fun _ => rfl) fun re => ?_
      cases re with
      | none => exact .bind (setError_kept _) fun _ => .pure _
      | some re =>
          exact .bind (modifyLib_kept (fun _ => rfl) (fun _ => rfl) fun _ => rfl) fun _ => .pure _

omit [Sys σ] in
/-- A change of the handle that keeps the watches in order and their descriptors. -/
theorem modifyLib_counters {f : Inotifytools → Inotifytools}
    (hinv : ∀ l, l.store.WellIndexed → (f l).store.WellIndexed)
    (hdirfs : ∀ l, (f l).store.dirfs = l.store.dirfs) (hgroup : ∀ l, (f l).group = l.group) :
    (books σ).Keeps (modifyLib f : M (Booked σ) Unit) :=
  .update (fun w => hinv w.lib) (fun _ => rfl) fun w => by
    show (f w.lib).group + (f w.lib).store.dirfs.map _ = w.lib.group + w.lib.store.dirfs.map _
    rw [hgroup, hdirfs]

omit [Sys σ] in
theorem recordStats_kept (wd : Int32) (mask : UInt32) :
    (books σ).Keeps (recordStats wd mask : M (Booked σ) Unit) := by
  refine .bind (watchFromWd_kept wd) fun id => ?_
  cases id with
  | none => exact .pure _
  | some id =>
      refine modifyLib_counters (fun l hl => ?_) (fun l => ?_) fun _ => rfl
      · dsimp only
        cases hv : l.store.watches[id]? with
        | none => exact hl
        | some v => exact hl.setStats hv _
      · dsimp only
        cases hv : l.store.watches[id]? with
        | none => rfl
        | some v => exact Store.dirfs_change hv rfl rfl

theorem initializeStats_kept : (books σ).Keeps (initializeStats : M (Booked σ) Unit) := by
  have hreset : ∀ (ids : List Nat) (s : Store), (s.WellIndexed → (s.resetStats ids).WellIndexed) ∧
      (s.resetStats ids).dirfs = s.dirfs := by
    intro ids
    induction ids with
    | nil => exact fun s => ⟨id, rfl⟩
    | cons i ids ih =>
        intro s
        rw [Store.resetStats, List.foldl_cons]
        cases hv : s.watches[i]? with
        | none => exact ih s
        | some v =>
            obtain ⟨hinv, hdirfs⟩ := ih (s.setStats i v {})
            exact ⟨fun hs => hinv (hs.setStats hv {}), hdirfs.trans (Store.dirfs_change hv rfl rfl)⟩
  refine .bind assertInit_kept fun _ => modifyLib_counters (fun l hl => ?_) (fun l => ?_) fun _ => rfl
  · dsimp only
    split
    · exact (hreset _ _).1 hl
    · exact hl
  · dsimp only
    split
    · exact (hreset _ _).2
    · rfl

omit [Sys σ] in
theorem getStatByWd_kept (wd event : Int32) :
    (books σ).Keeps (getStatByWd wd event : M (Booked σ) Int32) := by
  refine .bind getLib_kept fun _ => .ite (.pure _) (.bind (watchFromWd_kept wd) fun id => ?_)
  cases id with
  | none => exact .pure _
  | some id =>
      refine .bind (watch_kept id) fun v => ?_
      cases v.stats.get event <;> exact .pure _

omit [Sys σ] in
theorem getStatTotal_kept (event : Int32) :
    (books σ).Keeps (getStatTotal event : M (Booked σ) Int32) := by
  refine .bind getLib_kept fun l => .ite (.pure _) ?_
  cases l.totals.get event <;> exact .pure _

omit [Sys σ] in
theorem watchesOf_kept (ids : List Nat) :
    (books σ).Keeps (watchesOf ids : M (Booked σ) (List (Nat × Watch))) := by
  induction ids with
  | nil => exact .pure _
  | cons id ids ih => exact .bind (watch_kept id) fun _ => .bind ih fun _ => .pure _

/-! ## Reading -/

omit [Sys σ] in
theorem bufferedEvent_kept : (books σ).Keeps (bufferedEvent : M (Booked σ) Bool) := by
  unfold bufferedEvent
  refine .bind getStream_kept fun s => .ite ?_ (.ite ?_ (.pure _))
  · refine .bind (modifyStream_kept _) fun _ => .bind getLib_kept fun _ => ?_
    refine .ite (.bind (.guard _ _) fun _ => ?_) (.bind (modifyStream_kept _) fun _ => .pure _)
    exact .bind (modifyStream_kept _) fun _ => .pure _
  · exact .bind (modifyStream_kept _) fun _ => .pure _

theorem readEvents_kept (fuel : Nat) (timeout : Int) (n : Int32) :
    (books σ).Keeps (readEvents fuel timeout n : M (Booked σ) Bool) := by
  have hfailed : (books σ).Keeps (do setError (← errno); return false : M (Booked σ) Bool) :=
    .bind errno_kept fun _ => .bind (setError_kept _) fun _ => .pure _
  have hwait : (books σ).Keeps (waitForBytes n fuel : M (Booked σ) Int32) := by
    induction fuel with
    | zero => exact .fault
    | succ fuel ih =>
        exact .bind getLib_kept fun _ => .bind (call_kept fun _ => rfl) fun _ => .ite (.pure _) ih
  unfold readEvents
  refine .bind getLib_kept fun _ => .bind (call_kept fun _ => rfl) fun rc => ?_
  refine .ite hfailed (.ite (.pure _) (.bind hwait fun rc => .ite hfailed ?_))
  refine .bind getLib_kept fun _ => .bind (call_kept fun _ => rfl) fun data => ?_
  cases data with
  | none => exact hfailed
  | some data =>
      refine .ite (.bind (ceprint_kept _) fun _ => .pure _) ?_
      exact .bind (modifyStream_kept _) fun _ => .pure _

omit [Sys σ] in
theorem blitEvbuf_kept (off : Nat) (bs : Bytes) :
    (books σ).Keeps (blitEvbuf off bs : M (Booked σ) Unit) :=
  .bind (.guard _ _) fun _ => modifyStream_kept _

omit [Sys σ] in
theorem writeEvent_kept (metaOff : Nat) (wd : Option Int32) (info : FidInfo) :
    (books σ).Keeps (writeEvent metaOff wd info : M (Booked σ) Unit) := by
  unfold writeEvent
  refine .bind (.guard _ _) fun _ => .bind getStream_kept fun _ => ?_
  refine .bind (blitEvbuf_kept _ _) fun _ => .bind (blitEvbuf_kept _ _) fun _ => ?_
  refine .bind (blitEvbuf_kept _ _) fun _ => ?_
  cases info.nameOff with
  | none => exact .pure _
  | some src => exact .ite (modifyStream_kept _) (.pure _)

theorem wdOfFid_kept (hz : KeepsStdin σ) (fuel : Nat) (fid : Bytes) :
    (books σ).Keeps (wdOfFid fuel fid : M (Booked σ) (Option Int32 × Option CString)) := by
  refine .bind (watchFromFid_kept fid) fun id => ?_
  cases id with
  | some id => exact .bind (watch_kept id) fun _ => .pure _
  | none =>
      refine .bind (filenameFromFid_kept hz fid) fun p => ?_
      cases p with
      | none => exact .pure _
      | some p =>
          exact .bind (createWatch_moves fuel (by decide) (some fid) p.bytes 0) fun _ => .pure _

theorem convertFanotifyEvent_kept (hz : KeepsStdin σ) (fuel : Nat) :
    (books σ).Keeps (convertFanotifyEvent fuel : M (Booked σ) (Option Int32)) := by
  unfold convertFanotifyEvent
  refine .bind getStream_kept fun _ => .bind getStream_kept fun _ => ?_
  refine .bind (modifyStream_kept _) fun _ => .bind getStream_kept fun s => ?_
  generalize locateFid s _ = located
  cases located with
  | none => exact .bind (ceprint_kept _) fun _ => .pure _
  | some info =>
      refine .bind ?_ fun _ => .bind getStream_kept fun s => ?_
      · cases info.newLen with
        | none => exact .pure _
        | some newLen => exact blitEvbuf_kept _ _
      refine .bind getLib_kept fun _ => .bind (.ite (cprint_kept _) (.pure _)) fun _ => ?_
      refine .bind (modifyStream_kept _) fun _ => .bind (.guard _ _) fun _ => ?_
      refine .bind (watchFromFid_kept _) fun _ => .bind (wdOfFid_kept hz _ _) fun _ => ?_
      refine .bind getLib_kept fun _ => .bind (.ite (cprint_kept _) (.pure _)) fun _ => ?_
      exact .bind (writeEvent_kept _ _ _) fun _ => .bind getStream_kept fun _ => .pure _

theorem nextEvents_kept (hz : KeepsStdin σ) (fuel : Nat) (timeout : Int) (n : Int32) :
    (books σ).Keeps (nextEvents fuel timeout n : M (Booked σ) (Option Event)) := by
  have hdecode : ∀ fuel, (books σ).Keeps (decodeEvent fuel : M (Booked σ) (Option Int32)) :=
    fun fuel => .bind (modifyStream_kept _) fun _ => .bind getLib_kept fun _ =>
      .ite (convertFanotifyEvent_kept hz fuel) (.bind (modifyStream_kept _) fun _ => .pure _)
  have hadvance : (books σ).Keeps (advance : M (Booked σ) Unit) :=
    .bind (modifyStream_kept _) fun _ => .bind getStream_kept fun _ =>
      .bind (niceassert_kept _ _ _ _) fun _ => modifyStream_kept _
  have hfilter : (books σ).Keeps (filterEvent : M (Booked σ) Bool) := by
    refine .bind getLib_kept fun l => ?_
    cases l.regex with
    | none => exact .pure _
    | some re => exact .ite (.pure _) (.bind (snprintf_kept hz _ _ _ _) fun _ => .pure _)
  have hdeliver : ∀ pid, (books σ).Keeps (deliver pid : M (Booked σ) Round) := fun pid =>
    .bind getLib_kept fun _ => .ite (.pure _) (.bind hfilter fun _ => .ite (.pure _)
      (.bind getLib_kept fun _ => .bind (.ite (recordStats_kept _ _) (.pure _)) fun _ => .pure _))
  have hround : ∀ fuel, (books σ).Keeps (eventRound fuel timeout n : M (Booked σ) Round) := by
    intro fuel
    refine .bind (setError_kept 0) fun _ => .bind bufferedEvent_kept fun _ => ?_
    refine .bind (.ite (.pure _) (readEvents_kept _ _ _)) fun _ => .ite (.pure _) ?_
    refine .bind (hdecode fuel) fun pid => ?_
    cases pid with
    | none => exact .pure _
    | some pid => exact .bind hadvance fun _ => hdeliver pid
  have hloop : (books σ).Keeps (nextEventsLoop timeout n fuel : M (Booked σ) Bool) := by
    induction fuel with
    | zero => exact .fault
    | succ fuel ih =>
        refine .bind (hround fuel) fun round => ?_
        cases round with
        | fail | event => exact .pure _
        | skip => exact ih
  refine .bind (.bind assertInit_kept fun _ => .bind (niceassert_kept _ _ _ _) fun _ =>
    .ite (.pure _) hloop) fun _ => .ite (.bind getStream_kept fun _ => .pure _) (.pure _)

/-! ## Opening and closing -/

theorem sum_dirDescriptor (s : Store) :
    (s.watches.values.map fun v => dirDescriptor v.dirf).sum = s.dirfs.map .descriptor := by
  rw [Store.dirfs_eq, Store.entries, KeyedMap.values_eq_map]
  induction s.watches.toList with
  | nil => rfl
  | cons p l ih =>
      rw [List.map_cons, List.map_cons, List.sum_cons, ih, ← map_dirf, ← Multiset.cons_coe,
        Multiset.map_cons, Multiset.filter_cons, Multiset.map_add]
      rfl

theorem Store.dirfs_empty {s : Store} (h : s.watches = ∅) : s.dirfs = 0 := by
  have hempty : s.entries = 0 := by
    refine Multiset.eq_zero_of_forall_notMem fun p hp => ?_
    have hlookup := Store.mem_entries.1 hp
    simp [h] at hlookup
  rw [Store.dirfs_eq, hempty, Multiset.map_zero, Multiset.filter_zero]

theorem openDescriptor_opens {fanotify watchFilesystem : Bool} {w w' : World (Booked σ)} {fd : Int32}
    (h : openDescriptor fanotify watchFilesystem w = .ok (fd, w')) :
    w'.lib.initialized = w.lib.initialized ∧ w'.lib.store = w.lib.store ∧
      w'.os.ledger = w.os.ledger.take (descriptors fd) := by
  cases fanotify <;> cases h <;> exact ⟨rfl, rfl, rfl⟩

/-- Whether it succeeds or not, what was opened belongs to the handle. -/
theorem init_kept (fanotify watchFilesystem : Bool) (verbose : Int32) :
    (books σ).Keeps (init fanotify watchFilesystem verbose : M (Booked σ) Bool) := by
  intro r w ok w' hw hrun
  unfold init at hrun
  rw [getLib_bind] at hrun
  by_cases hi : w.lib.initialized = true
  · rw [if_pos hi] at hrun
    cases hrun
    exact hw
  rw [if_neg hi] at hrun
  obtain ⟨_, w₁, h₁, hrun⟩ := Prog.bind_ok hrun
  cases h₁
  obtain ⟨fd, w₂, hopen, hrun⟩ := Prog.bind_ok hrun
  obtain ⟨hinit, hstore, hledger⟩ := openDescriptor_opens hopen
  obtain ⟨_, w₃, h₃, hrun⟩ := Prog.bind_ok hrun
  cases h₃
  have hgroup : w.lib.owned = w.lib.store.dirfs.map .descriptor := by
    rw [Inotifytools.owned, Inotifytools.group, if_neg hi, zero_add]
  have hbefore : w.os.ledger = ⟨w.lib.owned + (0 + r), false⟩ := hw.ledger
  by_cases hneg : fd < 0
  · rw [if_pos hneg] at hrun
    obtain ⟨e, w₄, h₄, hrun⟩ := Prog.bind_ok hrun
    cases h₄
    cases hrun
    refine ⟨(congrArg Store.WellIndexed hstore).mpr hw.inv, ?_⟩
    show w₂.os.ledger = ⟨(if w₂.lib.initialized then {.descriptor fd} else 0) +
      w₂.lib.store.dirfs.map .descriptor + (0 + r), false⟩
    rw [hledger, hinit, hstore, if_neg hi, zero_add, ← hgroup, descriptors, if_neg (by grind)]
    exact (congrArg (Ledger.take · 0) hbefore).trans (congrArg (Ledger.mk · false) (add_zero _))
  · rw [if_neg hneg] at hrun
    cases hrun
    refine ⟨((congrArg Store.WellIndexed hstore).mpr hw.inv).clearIndexes, ?_⟩
    show w₂.os.ledger = ⟨{.descriptor fd} + w₂.lib.store.dirfs.map .descriptor + (0 + r), false⟩
    rw [hledger, hstore, ← hgroup, descriptors, if_pos (by grind)]
    refine (congrArg (Ledger.take · {.descriptor fd}) hbefore).trans (congrArg (Ledger.mk · false) ?_)
    show w.lib.owned + (0 + r) + {.descriptor fd} = {.descriptor fd} + w.lib.owned + (0 + r)
    ac_rfl

/-- What belongs to the handle is closed. -/
theorem cleanup_kept : (books σ).Keeps (cleanup : M (Booked σ) Unit) := by
  intro r w _ w' hw hrun
  unfold cleanup at hrun
  rw [getLib_bind] at hrun
  cases hi : w.lib.initialized with
  | false =>
      rw [hi, if_pos (by decide)] at hrun
      cases hrun
      exact hw
  | true =>
      rw [hi, if_neg (by decide)] at hrun
      obtain ⟨_, w₁, h₁, hrun⟩ := Prog.bind_ok hrun
      cases h₁
      obtain ⟨_, w₂, h₂, hrun⟩ := Prog.bind_ok hrun
      cases h₂
      obtain ⟨_, w₃, h₃, hrun⟩ := Prog.bind_ok hrun
      cases h₃
      have howned : w.lib.owned = .descriptor w.lib.fd ::ₘ w.lib.store.dirfs.map .descriptor := by
        rw [Inotifytools.owned, Inotifytools.group, if_pos hi, Multiset.singleton_add]
      refine dropWatches_moves w.lib.store.watches.values r _ _ _ ⟨?_, ?_⟩ hrun
      · exact Store.WellIndexed.clear w.lib.store
      · show w.os.ledger.give (.descriptor w.lib.fd) =
          ⟨0 + w.lib.store.clear.dirfs.map .descriptor + (_ + r), false⟩
        have hledger : w.os.ledger = ⟨w.lib.owned + (0 + r), false⟩ := hw.ledger
        rw [hledger, howned, Multiset.cons_add, Ledger.give_held, sum_dirDescriptor, @Store.dirfs_empty w.lib.store.clear rfl,
          Multiset.map_zero, zero_add, zero_add, zero_add]

/-! ## Runs -/

/-- Every operation keeps the books. -/
theorem Op.run_kept (hz : KeepsStdin σ) (fuel : Nat) (o : Op) :
    (books σ).Keeps (o.run fuel : M (Booked σ) Unit) := by
  have hfor : ∀ {α : Type} {m : M (Booked σ) α}, (books σ).Keeps m → (books σ).Keeps (runFor m) :=
    fun h => .bind h fun _ => .pure _
  cases o with
  | init => exact hfor (init_kept _ _ _)
  | cleanup => exact cleanup_kept
  | watchFiles => exact hfor (watchFiles_kept hz _ _ _)
  | watchRecursivelyWithExclude => exact hfor (watchRecursivelyWithExclude_kept hz _ _ _ _)
  | setFilenameByWd => exact setFilenameByWd_kept _ _
  | setFilenameByFilename => exact setFilenameByFilename_kept _ _
  | replaceFilename => exact replaceFilename_kept _ _
  | removeWatchByWd => exact hfor (.bind (watchFromWd_kept _) fun _ => removeWatch_kept _)
  | removeWatchByFilename => exact hfor (.bind (watchFromFilename_kept _) fun _ => removeWatch_kept _)
  | nextEvents => exact hfor (nextEvents_kept hz _ _ _)
  | initializeStats => exact initializeStats_kept
  | ignoreEventsByRegex => exact hfor (doIgnoreEventsByRegex_kept _ _ _ _)
  | ignoreEventsByInvertedRegex => exact hfor (doIgnoreEventsByRegex_kept _ _ _ _)
  | setPrintfTimefmt => exact setPrintfTimefmt_kept _
  | clearTimefmt => exact clearTimefmt_kept
  | filenameFromWd => exact hfor (filenameFromWd_kept hz _)
  | filenameFromEvent => exact hfor (filenameFromEvent_kept hz _)
  | dirpathFromEvent => exact hfor (dirpathFromEvent_kept hz _)
  | filenameFromWatch => exact hfor (filenameFromWatch_kept hz _)
  | wdFromFilename => exact hfor (wdFromFilename_kept _)
  | getNumWatches => exact hfor (.bind getLib_kept fun _ => .pure _)
  | getStatByWd => exact hfor (getStatByWd_kept _ _)
  | getStatByFilename => exact hfor (.bind (wdFromFilename_kept _) fun _ => getStatByWd_kept _ _)
  | getStatTotal => exact hfor (getStatTotal_kept _)
  | watchesSortedByEvent =>
      exact hfor (.bind getLib_kept fun _ => .bind (watchesOf_kept _) fun _ => .pure _)
  | eventToStrSep => exact hfor (eventToStrSep_kept _ _)
  | snprintf => exact hfor (snprintf_kept hz _ _ _ _)
  | fprintfTo => exact hfor (fprintfTo_kept hz _ _ _)

omit [Sys σ] in
/-- A handle just made owns nothing. -/
theorem new_square {os : Booked σ} (h : os.ledger = .empty) :
    (books σ).Square 0 { lib := Inotifytools.new, os } := by
  refine ⟨Store.wellIndexed_empty, h.trans (congrArg (Ledger.mk · false) ?_)⟩
  show 0 = 0 + Store.empty.dirfs.map .descriptor + 0
  rw [Store.dirfs_empty rfl]
  rfl

/-- The books stay square along every run. -/
theorem Run.square (hz : KeepsStdin σ) {env : Booked σ → Booked σ → Prop}
    (henv : ∀ os os', env os os' → os'.ledger = os.ledger) {w w' : World (Booked σ)}
    (h : Run env w w') (hw : (books σ).Square 0 w) : (books σ).Square 0 w' := by
  induction h with
  | refl => exact hw
  | tail _ hstep ih =>
      cases hstep with
      | op fuel o hrun => exact o.run_kept hz fuel 0 _ _ _ ih hrun
      | env he => exact ⟨ih.inv, (henv _ _ he).trans ih.ledger⟩

theorem dropWatches_run (vs : List Watch) (w : World σ) :
    ∃ w', dropWatches vs w = .ok ((), w') ∧ w'.lib = w.lib := by
  induction vs generalizing w with
  | nil => exact ⟨w, rfl, rfl⟩
  | cons v vs ih =>
      have hdrop : ∃ w₁, dropWatch v w = .ok ((), w₁) ∧ w₁.lib = w.lib := by
        unfold dropWatch
        split <;> exact ⟨_, rfl, rfl⟩
      obtain ⟨w₁, hdrop, hlib⟩ := hdrop
      obtain ⟨w', hrest, hlib'⟩ := ih w₁
      exact ⟨w', (Prog.bind_run_ok hdrop).trans hrest, hlib'.trans hlib⟩

theorem cleanup_run (w : World σ) : ∃ w', cleanup w = .ok ((), w') ∧ w'.lib.initialized = false := by
  unfold cleanup
  rw [getLib_bind]
  split
  · next hi => exact ⟨w, rfl, by simpa using hi⟩
  · obtain ⟨w', hrun, hlib⟩ := dropWatches_run w.lib.store.watches.values
      { lib := { w.lib with
          initialized := false, collectStats := false, error := 0, timefmt := none, regex := none,
          store := w.lib.store.clear }
        os := Sys.close w.lib.fd w.os }
    exact ⟨w', hrun, by rw [hlib]⟩

/-- A handle that is dropped owns nothing any more. -/
theorem dropInotifytools_run {w : World (Booked σ)} (hw : (books σ).Square 0 w) :
    ∃ w', dropInotifytools w = .ok ((), w') ∧ w'.os.ledger = .empty := by
  obtain ⟨w₁, hclean, hi⟩ := cleanup_run w
  have hsquare : (books σ).Square (0 + 0) w₁ := cleanup_kept 0 w () w₁ hw hclean
  let w₂ : World (Booked σ) := { w₁ with lib := { w₁.lib with store := w₁.lib.store.clear } }
  obtain ⟨w', hdrop, hlib⟩ := dropWatches_run w₁.lib.store.watches.values w₂
  have hempty : w₁.lib.store.clear.dirfs = 0 := Store.dirfs_empty rfl
  have htaken : (books σ).Square (w₁.lib.store.dirfs.map .descriptor + 0) w₂ :=
    square_store (b := 0) hsquare (.clear _) (by rw [hempty, zero_add, add_zero])
  rw [← sum_dirDescriptor] at htaken
  have hend := (dropWatches_moves _ 0 w₂ () w' htaken hdrop).ledger
  refine ⟨w', (Prog.bind_run_ok hclean).trans hdrop, hend.trans (congrArg (Ledger.mk · false) ?_)⟩
  show w'.lib.group + w'.lib.store.dirfs.map .descriptor + (0 + 0) = 0
  rw [hlib, Inotifytools.group, if_neg (by simp [w₂, hi]), hempty]
  rfl

/-- **Nothing leaks, and nothing is closed twice.** Between operations the handle is in charge of
    exactly the descriptors that are open, no directory stream is, and nothing was closed that was not
    open; dropping the handle closes what is left. -/
theorem descriptors_owned (hz : KeepsStdin σ) {env : Booked σ → Booked σ → Prop}
    (henv : ∀ os os', env os os' → os'.ledger = os.ledger) {os : Booked σ} (hos : os.ledger = .empty)
    {w : World (Booked σ)} (h : Run env { lib := Inotifytools.new, os } w) :
    w.os.ledger = ⟨w.lib.owned, false⟩ ∧
      ∃ w', dropInotifytools w = .ok ((), w') ∧ w'.os.ledger = .empty := by
  have hsquare := h.square hz henv (new_square hos)
  exact ⟨hsquare.ledger.trans (congrArg (Ledger.mk · false) (add_zero _)), dropInotifytools_run hsquare⟩

/-- No descriptor of a kernel with a tree is 0. -/
theorem Planted.keepsStdin (t : FileTree) : KeepsStdin (Planted t) := by
  have hopen : ∀ d : Planted t, d.openFd.1 ≠ 0 := by
    intro d
    unfold openFd
    split
    · next hlt =>
        intro hzero
        have hint := congrArg Int32.toInt hzero
        rw [Int32.toInt_ofNat_of_lt (by omega)] at hint
        have hz : (0 : Int32).toInt = 0 := rfl
        omega
    · exact (by decide : (-1 : Int32) ≠ 0)
  exact ⟨fun _ _ => hopen, fun _ _ => hopen⟩

/-- The kernel with the planted tree, nothing open. -/
def plantedKernel : Booked (Planted plantedTree) := { os := {} }

/-- A directory is watched through a fanotify group: the group, its mount and itself are open. -/
theorem descriptors_owned_planted :
    let w := World.after 9 { lib := Inotifytools.new, os := plantedKernel }
      [.init true false 0, .watchFiles [ascii "/t"] 2]
    w.os.ledger = ⟨w.lib.owned, false⟩ ∧
      w.os.ledger.held = {.descriptor 3, .descriptor 4, .descriptor 5} ∧
      ∃ w', dropInotifytools w = .ok ((), w') ∧ w'.os.ledger = .empty := by
  intro w
  have hrun : Run (fun _ _ => False) { lib := Inotifytools.new, os := plantedKernel } w :=
    World.run_after _ 9 _ _
  have howned := descriptors_owned (Planted.keepsStdin plantedTree)
    (fun _ _ h => False.elim h) (rfl : plantedKernel.ledger = .empty) hrun
  exact ⟨howned.1, by decide +kernel, howned.2⟩

end InotifyTools
