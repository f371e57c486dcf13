import InotifyTools.Base.Ledger
import InotifyTools.Proofs.FormatSafety
import InotifyTools.Proofs.Reachable

set_option autoImplicit false

/-! # What is open

A tally of the descriptors and directory streams that are open, what of it the handle is in charge of,
and how names and watches change hands. -/

namespace InotifyTools

/-! ## A tally of what is open -/

/-- What is opened and has to be closed. -/
inductive Resource
  | descriptor (fd : Int32)
  | stream (dir : Nat)
deriving DecidableEq

/-- A descriptor, unless opening it failed. -/
def descriptors (fd : Int32) : Multiset Resource := if 0 ≤ fd then {.descriptor fd} else 0

def streams (dir : Option Nat) : Multiset Resource := (dir.map Resource.stream).elim 0 ({·})

/-- An operating system with a tally of what is open. -/
structure Booked (σ : Type) where
  os : σ
  ledger : Ledger Resource := .empty

namespace Booked

variable {σ α : Type} [Sys σ]

/-- A call that opens what `s` says of its answer. -/
def opens (s : α → Multiset Resource) (f : σ → α × σ) (l : Booked σ) : α × Booked σ :=
  ((f l.os).1, { os := (f l.os).2, ledger := l.ledger.take (s (f l.os).1) })

/-- A call that closes `r`. -/
def closes (r : Resource) (f : σ → σ) (l : Booked σ) : Booked σ :=
  { os := f l.os, ledger := l.ledger.give r }

/-- A call that opens and closes nothing. -/
def pass (f : σ → α × σ) (l : Booked σ) : α × Booked σ :=
  ((f l.os).1, { l with os := (f l.os).2 })

instance : Sys (Booked σ) where
  errno l := Sys.errno l.os
  strerror e := Sys.strerror σ e
  fwrite st b l := { l with os := Sys.fwrite st b l.os }
  getpid := pass Sys.getpid
  close fd := closes (.descriptor fd) (Sys.close fd)
  inotifyInit := opens descriptors Sys.inotifyInit
  inotifyAddWatch fd p mask := pass (Sys.inotifyAddWatch fd p mask)
  inotifyRmWatch fd wd := pass (Sys.inotifyRmWatch fd wd)
  fanotifyInit flags := opens descriptors (Sys.fanotifyInit flags)
  fanotifyMark fd flags mask p := pass (Sys.fanotifyMark fd flags mask p)
  lstat p := pass (Sys.lstat p)
  statfs p := pass (Sys.statfs p)
  openPath p flags := opens descriptors (Sys.openPath p flags)
  dup fd := opens descriptors (Sys.dup fd)
  nameToHandleAt p := pass (Sys.nameToHandleAt p)
  openByHandleAt fd h := opens descriptors (Sys.openByHandleAt fd h)
  readlinkFd fd n := pass (Sys.readlinkFd fd n)
  faccessat fd p := pass (Sys.faccessat fd p)
  opendir p := opens streams (Sys.opendir p)
  readdir d := pass (Sys.readdir d)
  closedir d := closes (.stream d) (Sys.closedir d)
  ppoll fd t := pass (Sys.ppoll fd t)
  fionread fd := pass (Sys.fionread fd)
  read fd n := pass (Sys.read fd n)
  regcomp p flags := pass (Sys.regcomp p flags)
  strftimeNow f := pass (Sys.strftimeNow f)
  flushAll l := { l with os := Sys.flushAll l.os }
  syslog b l := { l with os := Sys.syslog b l.os }
  slurp p := pass (Sys.slurp p)
  printNow := pass Sys.printNow
  done := pass Sys.done

end Booked

/-! ## What the handle is in charge of -/

/-- The directory descriptors of the watches. -/
def Store.dirfs (s : Store) : Multiset Int32 :=
  ((s.watches.toList : Multiset (Nat × Watch)).map fun p => p.2.dirf).filter (· ≠ 0)

/-- The descriptor of the instance or group, if there is one. -/
def Inotifytools.group (l : Inotifytools) : Multiset Resource :=
  if l.initialized then {.descriptor l.fd} else 0

/-- The instance or group, and the directory descriptors. -/
def Inotifytools.owned (l : Inotifytools) : Multiset Resource :=
  l.group + l.store.dirfs.map .descriptor

namespace Store

open KeyedMap

/-- The directory descriptor of a watch, unless it has none. -/
def dirf (v : Watch) : Multiset Int32 := if v.dirf ≠ 0 then {v.dirf} else 0

/-- The watches with their ids. -/
def entries (s : Store) : Multiset (Nat × Watch) := s.watches.toList

theorem dirfs_eq (s : Store) : s.dirfs = (s.entries.map fun p => p.2.dirf).filter (· ≠ 0) := rfl

theorem mem_entries {s : Store} {id : Nat} {v : Watch} :
    (id, v) ∈ s.entries ↔ s.watches[id]? = some v :=
  Std.TreeMap.mem_toList_iff_getElem?_eq_some

theorem nodup_entries (s : Store) : s.entries.Nodup := by
  refine Multiset.coe_nodup.2 (Std.TreeMap.distinct_keys_toList.imp ?_)
  rintro p _ hne rfl
  exact hne Std.ReflCmp.compare_self

/-- A watch is one of the watches, and the rest are the other ids'. -/
theorem entries_erase {s s' : Store} {id : Nat} {v : Watch} (hv : s.watches[id]? = some v)
    (h : ∀ i, s'.watches[i]? = if i = id then none else s.watches[i]?) :
    s.entries = (id, v) ::ₘ s'.entries := by
  refine (Multiset.Nodup.ext s.nodup_entries ?_).2 ?_
  · refine Multiset.nodup_cons.2 ⟨fun hmem => ?_, s'.nodup_entries⟩
    rw [mem_entries, h, if_pos rfl] at hmem
    cases hmem
  · rintro ⟨i, u⟩
    rw [Multiset.mem_cons, mem_entries, mem_entries, h, Prod.mk.injEq]
    by_cases hi : i = id
    · subst hi
      rw [if_pos rfl, hv, Option.some.injEq]
      simp [eq_comm]
    · simp [hi]

theorem dirfs_erase {s s' : Store} {id : Nat} {v : Watch} (hv : s.watches[id]? = some v)
    (h : ∀ i, s'.watches[i]? = if i = id then none else s.watches[i]?) :
    s.dirfs = s'.dirfs + dirf v := by
  rw [dirfs_eq, entries_erase hv h, Multiset.map_cons, Multiset.filter_cons, add_comm]
  rfl

variable {s : Store} {id : Nat} {v : Watch}

theorem dirfs_remove (hv : s.watches[id]? = some v) :
    s.dirfs = (s.remove id v).dirfs + dirf v :=
  dirfs_erase hv fun i => by
    rw [remove, lookup_erase]
    exact if_congr eq_comm rfl rfl

/-- A watch that is not entered is not kept. -/
theorem dirfs_insert (h : s.WellIndexed) (v : Watch) :
    (s.insert v).dirfs = s.dirfs + if s.accepts v then dirf v else 0 := by
  by_cases ha : s.accepts v = true
  · have hwatches : (s.insert v).watches = s.watches.insert s.nextId v := by simp [insert, ha]
    rw [if_pos ha]
    have hentered : (s.insert v).watches[s.nextId]? = some v := by
      rw [hwatches, lookup_insert, if_pos rfl]
    refine dirfs_erase hentered fun i => ?_
    rw [hwatches, lookup_insert]
    split
    · next hi => rw [hi, h.nextId_free]
    · next hi => rw [if_neg (Ne.symm hi)]
  · have hwatches : (s.insert v).watches = s.watches := by simp [insert, ha]
    rw [if_neg ha, add_zero, dirfs, dirfs, hwatches]

/-- A watch that is changed keeps its descriptor. -/
theorem dirfs_change {s' : Store} {u : Watch} (hv : s.watches[id]? = some v)
    (hs' : s'.watches = s.watches.insert id u) (hu : u.dirf = v.dirf) : s'.dirfs = s.dirfs := by
  have hdirf : dirf u = dirf v := by rw [dirf, dirf, hu]
  rw [dirfs_remove hv, ← hdirf]
  have hchanged : s'.watches[id]? = some u := by rw [hs', lookup_insert, if_pos rfl]
  refine dirfs_erase hchanged fun i => ?_
  rw [remove, hs', lookup_erase, lookup_insert]
  split
  · next hi => rw [if_pos hi.symm]
  · next hi => rw [if_neg (Ne.symm hi)]

end Store

variable {σ α : Type}

/-- The books of a handle. -/
def books (σ : Type) : Account (World (Booked σ)) Resource where
  ledger w := w.os.ledger
  owned w := w.lib.owned
  inv w := w.lib.store.WellIndexed

/-! ## Rules -/

theorem getLib_kept : (books σ).Keeps (getLib : M (Booked σ) Inotifytools) :=
  .bind .read fun _ => .pure _

theorem modifyLib_kept {f : Inotifytools → Inotifytools} (hstore : ∀ l, (f l).store = l.store)
    (hinit : ∀ l, (f l).initialized = l.initialized) (hfd : ∀ l, (f l).fd = l.fd) :
    (books σ).Keeps (modifyLib f : M (Booked σ) Unit) := by
  refine .update (fun w hw => ?_) (fun _ => rfl) fun w => ?_
  · exact (congrArg Store.WellIndexed (hstore w.lib)).mpr hw
  · show (f w.lib).owned = w.lib.owned
    unfold Inotifytools.owned Inotifytools.group
    rw [hstore, hinit, hfd]

theorem call_kept {f : Booked σ → α × Booked σ} (h : ∀ l, (f l).2.ledger = l.ledger) :
    (books σ).Keeps (call f) :=
  .lift (fun _ hw => hw) (fun w => h w.os) fun _ => rfl

theorem exec_kept {f : Booked σ → Booked σ} (h : ∀ l, (f l).ledger = l.ledger) :
    (books σ).Keeps (exec f) :=
  .update (fun _ hw => hw) (fun w => h w.os) fun _ => rfl

theorem setError_kept (e : Int32) : (books σ).Keeps (setError e : M (Booked σ) Unit) :=
  modifyLib_kept (fun _ => rfl) (fun _ => rfl) fun _ => rfl

theorem modifyStream_kept (f : EventStream → EventStream) :
    (books σ).Keeps (modifyStream f : M (Booked σ) Unit) :=
  modifyLib_kept (fun _ => rfl) (fun _ => rfl) fun _ => rfl

theorem getStream_kept : (books σ).Keeps (getStream : M (Booked σ) EventStream) :=
  .bind getLib_kept fun _ => .pure _

theorem watch_kept (id : Nat) : (books σ).Keeps (watch id : M (Booked σ) Watch) := by
  refine .bind getLib_kept fun l => ?_
  cases l.store.watches[id]? with
  | none => exact .fault
  | some v => exact .pure v

theorem opens_moves {s : α → Multiset Resource} (f : σ → α × σ) :
    (books σ).Moves 0 (call (Booked.opens s f)) s :=
  .take (fun _ hw => hw) (fun _ => rfl) fun _ => rfl

theorem closes_moves (r : Resource) (f : σ → σ) :
    (books σ).Moves {r} (exec (Booked.closes r f)) fun _ => 0 :=
  .give (fun _ hw => hw) (fun _ => rfl) fun _ => rfl

variable [Sys σ]

theorem errno_kept : (books σ).Keeps (errno : M (Booked σ) Int32) :=
  .bind .read fun _ => .pure _

theorem strerror_kept (e : Int32) : (books σ).Keeps (strerror e : M (Booked σ) Bytes) := .pure _

theorem ceprint_kept (ps : List Piece) : (books σ).Keeps (ceprint ps : M (Booked σ) Unit) :=
  exec_kept fun _ => rfl

theorem cprint_kept (ps : List Piece) : (books σ).Keeps (cprint ps : M (Booked σ) Unit) :=
  exec_kept fun _ => rfl

theorem niceassert_kept (c : Bool) (line : Nat) (s t : String) :
    (books σ).Keeps (niceassert c line s t : M (Booked σ) Unit) :=
  .ite (.pure _) (ceprint_kept _)

theorem assertInit_kept : (books σ).Keeps (assertInit : M (Booked σ) Unit) :=
  .bind getLib_kept fun _ => niceassert_kept _ _ _ _

/-! ## The store -/

/-- The directory descriptor that `n` stands for, `0` for none. -/
def dirDescriptor (n : Int32) : Multiset Resource := if n ≠ 0 then {.descriptor n} else 0

omit [Sys σ] in
theorem map_dirf (v : Watch) : (Store.dirf v).map Resource.descriptor = dirDescriptor v.dirf := by
  unfold Store.dirf dirDescriptor
  split <;> rfl

theorem close_moves (fd : Int32) :
    (books σ).Moves {.descriptor fd} (exec (Sys.close fd) : M (Booked σ) Unit) fun _ => 0 :=
  closes_moves _ _

theorem dropWatch_moves (v : Watch) :
    (books σ).Moves (dirDescriptor v.dirf) (dropWatch v : M (Booked σ) Unit) fun _ => 0 := by
  unfold dropWatch dirDescriptor
  refine .ite (fun h => ?_) fun h => ?_
  · rw [if_pos h]
    exact close_moves v.dirf
  · rw [if_neg h]
    exact .pure rfl

theorem dropWatches_moves (vs : List Watch) :
    (books σ).Moves (vs.map fun v => dirDescriptor v.dirf).sum (dropWatches vs : M (Booked σ) Unit)
      fun _ => 0 := by
  induction vs with
  | nil => exact .pure rfl
  | cons v vs ih =>
      rw [List.map_cons, List.sum_cons]
      refine .bind ((dropWatch_moves v).frame _) fun _ => ?_
      rw [zero_add]
      exact ih

omit [Sys σ] in
/-- Watches that leave the store, or get into it. -/
theorem square_store {w : World (Booked σ)} {s : Store} {a b : Multiset Int32}
    {r : Multiset Resource} (hw : (books σ).Square (b.map .descriptor + r) w) (hs : s.WellIndexed)
    (h : s.dirfs + a = w.lib.store.dirfs + b) :
    (books σ).Square (a.map .descriptor + r) { w with lib := { w.lib with store := s } } := by
  have hmap := congrArg (Multiset.map Resource.descriptor) h
  rw [Multiset.map_add, Multiset.map_add] at hmap
  refine ⟨hs, hw.ledger.trans (congrArg (Ledger.mk · false) ?_)⟩
  calc w.lib.group + w.lib.store.dirfs.map .descriptor + (b.map .descriptor + r)
      = w.lib.group + (w.lib.store.dirfs.map .descriptor + b.map .descriptor) + r := by ac_rfl
    _ = w.lib.group + (s.dirfs.map .descriptor + a.map .descriptor) + r := by rw [hmap]
    _ = w.lib.group + s.dirfs.map .descriptor + (a.map .descriptor + r) := by ac_rfl

theorem enterWatch_moves (v : Watch) :
    (books σ).Moves (dirDescriptor v.dirf) (enterWatch v : M (Booked σ) Unit) fun _ => 0 := by
  intro r w _ w' hw hrun
  unfold enterWatch at hrun
  rw [getLib_bind] at hrun
  obtain ⟨_, w₁, hset, hdrop⟩ := Prog.bind_ok hrun
  cases hset
  have hinsert := Store.dirfs_insert hw.inv v
  have hinv : (w.lib.store.insert v).WellIndexed := hw.inv.insert v
  rw [← map_dirf] at hw
  by_cases ha : w.lib.store.accepts v = true
  · rw [if_pos ha] at hinsert hdrop
    cases hdrop
    exact square_store hw hinv (a := 0) (by rw [hinsert, add_zero])
  · rw [if_neg ha, add_zero] at hinsert
    rw [if_neg ha] at hdrop
    have hsquare := square_store hw hinv (by rw [hinsert])
    rw [map_dirf] at hsquare
    exact dropWatch_moves v r _ _ _ hsquare hdrop

omit [Sys σ] in
theorem assignWd_kept (fuel : Nat) (wd : Int32) :
    (books σ).Keeps (assignWd fuel wd : M (Booked σ) Int32) := by
  refine .ite (.pure _) fun r w _ w' hw hrun => ?_
  rw [getLib_bind] at hrun
  generalize Store.searchFanotifyWd w.lib.store.byWd fuel w.lib.store.nextFanotifyWd = found at hrun
  cases found with
  | none => cases hrun
  | some n =>
      cases hrun
      exact square_store (b := 0) (a := 0) hw (hw.inv.counter _) rfl

/-- A watch that is created takes its directory descriptor over. -/
theorem createWatch_moves (fuel : Nat) {wd : Int32} (hwd : 0 ≤ wd) (fid : Option Bytes)
    (filename : Bytes) (dirf : Int32) :
    (books σ).Moves (dirDescriptor dirf)
      (createWatch fuel wd fid filename dirf : M (Booked σ) (Option Int32)) fun _ => 0 := by
  unfold createWatch
  rw [if_neg (by grind)]
  refine .after (assignWd_kept fuel wd) fun wd => ?_
  exact .bind (enterWatch_moves { fid, filename := cstring filename, wd, dirf, stats := {} })
    fun _ => .pure rfl

theorem destroyWatch_kept (id : Nat) : (books σ).Keeps (destroyWatch id : M (Booked σ) Unit) := by
  intro r w _ w' hw hrun
  obtain ⟨v, w₁, hfound, hrest⟩ := Prog.bind_ok hrun
  obtain ⟨hv, rfl⟩ := watch_ok hfound
  rw [getLib_bind] at hrest
  obtain ⟨_, w₂, hset, hdrop⟩ := Prog.bind_ok hrest
  cases hset
  have hsquare := square_store (b := 0) hw (hw.inv.remove hv)
    ((Store.dirfs_remove hv).symm.trans (add_zero _).symm)
  rw [map_dirf] at hsquare
  exact dropWatch_moves v r _ _ _ hsquare hdrop

omit [Sys σ] in
theorem renameWatch_kept (id : Nat) (n : Bytes) :
    (books σ).Keeps (renameWatch id n : M (Booked σ) Unit) := by
  intro r w _ w' hw hrun
  obtain ⟨v, w₁, hfound, hrest⟩ := Prog.bind_ok hrun
  obtain ⟨hv, rfl⟩ := watch_ok hfound
  rw [getLib_bind] at hrest
  cases hrest
  exact square_store (b := 0) (a := 0) hw (hw.inv.rename hv _)
    (congrArg (· + 0) (Store.dirfs_change hv rfl rfl))

/-! ## Names -/

omit [Sys σ] in
theorem watchFromFid_kept (f : Bytes) : (books σ).Keeps (watchFromFid f : M (Booked σ) (Option Nat)) :=
  .bind getLib_kept fun _ => .pure _

omit [Sys σ] in
theorem watchFromWd_kept (wd : Int32) : (books σ).Keeps (watchFromWd wd : M (Booked σ) (Option Nat)) :=
  .bind getLib_kept fun _ => .pure _

omit [Sys σ] in
theorem watchFromFilename_kept (n : Bytes) :
    (books σ).Keeps (watchFromFilename n : M (Booked σ) (Option Nat)) :=
  .bind getLib_kept fun _ => .pure _

omit [Sys σ] in
theorem setFidname_kept (i : Nat) (b : UInt8) :
    (books σ).Keeps (setFidname i b : M (Booked σ) Unit) :=
  .bind (.guard _ _) fun _ => modifyLib_kept (fun _ => rfl) (fun _ => rfl) fun _ => rfl

omit [Sys σ] in
theorem blitFidname_kept (off : Nat) (bs : Bytes) :
    (books σ).Keeps (blitFidname off bs : M (Booked σ) Unit) :=
  .bind (.guard _ _) fun _ => modifyLib_kept (fun _ => rfl) (fun _ => rfl) fun _ => rfl

omit [Sys σ] in
theorem mountFd_kept (f : Bytes) : (books σ).Keeps (mountFd f : M (Booked σ) Int32) := by
  refine .bind (watchFromFid_kept _) fun id => ?_
  cases id with
  | none => exact .pure _
  | some id => exact .bind (watch_kept id) fun _ => .pure _

/-- The kernel hands out no descriptor 0: standard input stays open. -/
structure KeepsStdin (σ : Type) [Sys σ] : Prop where
  openPath : ∀ (p : CString) (flags : Int32) (os : σ), (Sys.openPath p flags os).1 ≠ 0
  openByHandleAt : ∀ (fd : Int32) (h : Bytes) (os : σ), (Sys.openByHandleAt fd h os).1 ≠ 0

/-- A descriptor, if it is positive. -/
def positive (fd : Int32) : Multiset Resource := if 0 < fd then {.descriptor fd} else 0

omit [Sys σ] in
theorem positive_of_neg {fd : Int32} (h : fd < 0) : positive fd = 0 := if_neg (by grind)

omit [Sys σ] in
theorem positive_of_nonneg {fd : Int32} (h : ¬ fd < 0) : positive fd = dirDescriptor fd := by
  unfold positive dirDescriptor
  exact if_congr (by grind) rfl rfl

omit [Sys σ] in
theorem opens_positive {f : σ → Int32 × σ} (h : ∀ os, (f os).1 ≠ 0) :
    (books σ).Moves 0 (call (Booked.opens descriptors f)) positive := by
  refine .take (fun _ hw => hw) (fun w => ?_) fun _ => rfl
  have hopen : descriptors (f w.os.os).1 = positive (f w.os.os).1 := by
    have hne := h w.os.os
    exact if_congr (by grind) rfl rfl
  exact congrArg w.os.ledger.take hopen

/-- A descriptor that was opened. -/
def opened (fd : Option Int32) : Multiset Resource := fd.elim 0 ({.descriptor ·})

/-- The descriptor that a fid was opened as is handed on. -/
theorem openFid_moves (hz : KeepsStdin σ) (f : Bytes) (nameLen : Int32) :
    (books σ).Moves 0 (openFid f nameLen : M (Booked σ) (Option Int32)) opened := by
  have hnone : ∀ ps : List Piece, (books σ).Moves 0 (do
      ceprint ps
      return (none : Option Int32) : M (Booked σ) _) opened := fun ps =>
    .after (ceprint_kept ps) fun _ => .pure rfl
  unfold openFid
  refine .after (mountFd_kept f) fun mount => .bind (opens_positive (hz.openByHandleAt _ _)) fun fd => ?_
  refine .ite (fun hpos => .pure (if_pos hpos).symm) fun hpos => ?_
  rw [positive, if_neg hpos]
  refine .after getLib_kept fun _ => .ite (fun _ => hnone _) fun _ => .ite (fun _ => .pure rfl) fun _ => ?_
  refine .after (watchFromFid_kept _) fun id => ?_
  cases id with
  | none => exact hnone _
  | some id =>
      refine .after (watch_kept id) fun v => ?_
      refine .bind (t := descriptors) (.ite (fun _ => opens_moves _) fun _ => .pure rfl) fun fd => ?_
      refine .ite (fun hneg => ?_) fun hneg => ?_
      · rw [descriptors, if_neg (by grind)]
        exact hnone _
      · exact .pure (if_pos (by grind)).symm

omit [Sys σ] in
theorem markDeleted_kept : (books σ).Keeps (markDeleted : M (Booked σ) Unit) :=
  .bind getLib_kept fun _ => .ite (blitFidname_kept _ _) (.pure _)

theorem appendFidName_kept (f : Bytes) (nameLen dirf : Int32) (len : Nat) :
    (books σ).Keeps (appendFidName f nameLen dirf len : M (Booked σ) Bool) := by
  unfold appendFidName
  refine .bind (call_kept fun _ => rfl) fun _ => .bind errno_kept fun _ => .ite ?_ ?_
  · exact .bind (strerror_kept _) fun _ => .bind (ceprint_kept _) fun _ => .pure _
  · refine .bind (blitFidname_kept _ _) fun _ => .bind (setFidname_kept _ _) fun _ => ?_
    exact .bind (.ite markDeleted_kept (.pure _)) fun _ => .pure _

/-- The descriptor a fid is opened as is closed again. -/
theorem filenameFromFid_kept (hz : KeepsStdin σ) (f : Bytes) :
    (books σ).Keeps (filenameFromFid f : M (Booked σ) (Option CString)) := by
  unfold filenameFromFid
  refine Account.Moves.bind (openFid_moves hz f _) fun fd => ?_
  cases fd with
  | none => exact .pure rfl
  | some fd =>
      refine .after (call_kept fun _ => rfl) fun target => ?_
      cases target with
      | none => exact .bind (close_moves fd) fun _ => .bind (ceprint_kept _) fun _ => .pure rfl
      | some target =>
          refine .after (blitFidname_kept _ _) fun _ => .after (setFidname_kept _ _) fun _ => ?_
          refine .after (setFidname_kept _ _) fun _ => ?_
          refine .after (.ite (appendFidName_kept _ _ _ _) (.pure _)) fun _ => ?_
          refine .bind (close_moves fd) fun _ => .ite (fun _ => .pure rfl) fun _ => ?_
          exact .bind getLib_kept fun _ => .pure rfl

theorem filenameFromWatchId_kept (hz : KeepsStdin σ) (id : Nat) :
    (books σ).Keeps (filenameFromWatchId id : M (Booked σ) CString) := by
  unfold filenameFromWatchId
  refine .bind (watch_kept id) fun v => ?_
  cases v.fid with
  | none => exact .pure _
  | some f =>
      refine .bind getLib_kept fun _ => .ite (.pure _) (.bind (filenameFromFid_kept hz f) fun p => ?_)
      cases p with
      | some p => exact .pure _
      | none => exact .bind (watch_kept id) fun _ => .pure _

theorem filenameFromWdPtr_kept (hz : KeepsStdin σ) (wd : Int32) :
    (books σ).Keeps (filenameFromWdPtr wd : M (Booked σ) CString) := by
  refine .bind assertInit_kept fun _ => .ite (.pure _) (.bind (watchFromWd_kept wd) fun id => ?_)
  cases id with
  | none => exact .pure _
  | some id => exact filenameFromWatchId_kept hz id

theorem filenameFromWd_kept (hz : KeepsStdin σ) (wd : Int32) :
    (books σ).Keeps (filenameFromWd wd : M (Booked σ) Bytes) :=
  .bind (filenameFromWdPtr_kept hz wd) fun _ => .pure _

theorem filenameFromEvent_kept (hz : KeepsStdin σ) (ev : Event) :
    (books σ).Keeps (filenameFromEvent ev : M (Booked σ) EventPath) := by
  refine .bind (.bind (.bind (filenameFromWdPtr_kept hz _) fun _ => ?_) fun _ => .pure _) fun _ => .pure _
  refine .bind getLib_kept fun l => ?_
  dsimp only
  split <;> exact .pure _

theorem dirpathFromEvent_kept (hz : KeepsStdin σ) (ev : Event) :
    (books σ).Keeps (dirpathFromEvent ev : M (Booked σ) (Option Bytes)) :=
  .bind (filenameFromWd_kept hz _) fun _ => .ite (.pure _) (.bind getLib_kept fun _ => .pure _)

theorem filenameFromWatch_kept (hz : KeepsStdin σ) (id : Nat) :
    (books σ).Keeps (filenameFromWatch id : M (Booked σ) Bytes) :=
  .bind getLib_kept fun _ => .ite (.pure _) (.bind (filenameFromWatchId_kept hz id) fun _ => .pure _)

theorem wdFromFilename_kept (n : Bytes) : (books σ).Keeps (wdFromFilename n : M (Booked σ) Int32) := by
  refine .bind assertInit_kept fun _ => .ite (.pure _) (.bind (watchFromFilename_kept n) fun id => ?_)
  cases id with
  | none => exact .pure _
  | some id => exact .bind (watch_kept id) fun _ => .pure _

/-! ## Renaming and removing -/

omit [Sys σ] in
theorem replaceFilename_kept (old new : Bytes) :
    (books σ).Keeps (replaceFilename old new : M (Booked σ) Unit) := by
  have hone : ∀ id, (books σ).Keeps (replaceFilenameOf old new id : M (Booked σ) Unit) := by
    intro id
    refine .bind getLib_kept fun l => ?_
    cases l.store.watches[id]? with
    | none => exact .pure _
    | some v => exact .ite (renameWatch_kept id _) (.pure _)
  have hall : ∀ ids, (books σ).Keeps (replaceFilenames old new ids : M (Booked σ) Unit) := by
    intro ids
    induction ids with
    | nil => exact .pure _
    | cons id ids ih => exact .bind (hone id) fun _ => ih
  exact .ite (.pure _) (.bind getLib_kept fun _ => hall _)

theorem setFilenameByWd_kept (wd : Int32) (n : Bytes) :
    (books σ).Keeps (setFilenameByWd wd n : M (Booked σ) Unit) := by
  refine .bind assertInit_kept fun _ => .bind (watchFromWd_kept wd) fun id => ?_
  cases id with
  | none => exact .pure _
  | some id => exact renameWatch_kept id n

omit [Sys σ] in
theorem setFilenameByFilename_kept (old new : Bytes) :
    (books σ).Keeps (setFilenameByFilename old new : M (Booked σ) Unit) := by
  refine .bind (watchFromFilename_kept old) fun id => ?_
  cases id with
  | none => exact .pure _
  | some id => exact renameWatch_kept id new

theorem removeInotifyWatch_kept (id : Nat) :
    (books σ).Keeps (removeInotifyWatch id : M (Booked σ) Bool) := by
  unfold removeInotifyWatch
  refine .bind (setError_kept 0) fun _ => .bind (watch_kept id) fun v => .ite (.pure _) ?_
  refine .bind getLib_kept fun _ => .bind (call_kept fun _ => rfl) fun status => ?_
  refine .ite (.bind (strerror_kept _) fun _ => .bind (ceprint_kept _) fun _ => ?_) (.pure _)
  exact .bind (setError_kept _) fun _ => .pure _

theorem removeWatch_kept (id : Option Nat) : (books σ).Keeps (removeWatch id : M (Booked σ) Bool) := by
  refine .bind assertInit_kept fun _ => ?_
  cases id with
  | none => exact .pure _
  | some id =>
      refine .bind (removeInotifyWatch_kept id) fun ok => .ite (.pure _) ?_
      exact .bind (destroyWatch_kept id) fun _ => .pure _

/-! ## Watching -/

theorem isdir_kept (p : Bytes) : (books σ).Keeps (isdir p : M (Booked σ) Bool) := by
  refine .bind (call_kept fun _ => rfl) fun mode => ?_
  cases mode with
  | some mode => exact .pure _
  | none =>
      refine .bind errno_kept fun _ => .bind (strerror_kept _) fun _ => ?_
      exact .bind (.ite (ceprint_kept _) (.pure _)) fun _ => .pure _

/-- What a failed call is reported with. -/
theorem report_kept (msg : Bytes → List Piece) (a : α) : (books σ).Keeps (do
    let e ← strerror (← errno)
    ceprint (msg e)
    return a : M (Booked σ) α) :=
  .bind errno_kept fun _ => .bind (strerror_kept _) fun _ => .bind (ceprint_kept _) fun _ => .pure _

/-- The mount's descriptor goes to the watch that is created for it. -/
theorem registerMount_kept (hz : KeepsStdin σ) (fuel : Nat) (f : Bytes) (dirname : Option Bytes) :
    (books σ).Keeps (registerMount fuel f dirname : M (Booked σ) Bool) := by
  cases dirname with
  | none => exact .pure _
  | some d =>
      refine .bind (watchFromFid_kept f) fun known => .ite (.pure _) ?_
      refine Account.Moves.bind (opens_positive (hz.openPath _ _)) fun mntid => ?_
      refine .ite (fun hneg => ?_) fun hneg => ?_
      · rw [positive_of_neg hneg]
        exact report_kept _ _
      · rw [positive_of_nonneg hneg]
        exact .bind (createWatch_moves fuel (by decide) _ _ _) fun _ => .pure rfl

/-- The directory's descriptor is handed on with the fid. -/
theorem fanotifyEncodeFid_moves (hz : KeepsStdin σ) (fuel : Nat) (p : CString)
    (dirname : Option Bytes) :
    (books σ).Moves 0 (fanotifyEncodeFid fuel p dirname : M (Booked σ) (Option (Bytes × Int32)))
      fun r => r.elim 0 fun r => dirDescriptor r.2 := by
  have hreport : ∀ msg : Bytes → List Piece, (books σ).Moves 0 (do
      let e ← strerror (← errno)
      ceprint (msg e)
      return (none : Option (Bytes × Int32)) : M (Booked σ) _)
        fun r => r.elim 0 fun r => dirDescriptor r.2 := fun msg =>
    .after errno_kept fun _ => .after (strerror_kept _) fun _ => .after (ceprint_kept _) fun _ => .pure rfl
  unfold fanotifyEncodeFid
  refine .after (call_kept fun _ => rfl) fun fsid => ?_
  cases fsid with
  | none => exact hreport _
  | some fsid =>
      refine .after (registerMount_kept hz _ _ _) fun ok => .ite (fun _ => .pure rfl) fun _ => ?_
      refine .after (call_kept fun _ => rfl) fun r => .ite (fun _ => hreport _) fun _ => ?_
      cases dirname with
      | none => exact .pure rfl
      | some d =>
          refine .bind (opens_positive (hz.openPath _ _)) fun dirf => .ite (fun hneg => ?_) fun hneg => ?_
          · rw [positive_of_neg hneg]
            exact hreport _
          · exact .pure (positive_of_nonneg hneg).symm

theorem storeWatch_kept (hz : KeepsStdin σ) (fuel : Nat) (p : CString) {wd : Int32} (hwd : 0 ≤ wd) :
    (books σ).Keeps (storeWatch fuel p wd : M (Booked σ) Bool) := by
  unfold storeWatch
  refine .bind (isdir_kept _) fun isDir => ?_
  refine Account.Moves.bind (t := fun r => r.elim 0 fun r => dirDescriptor r.2) ?_ fun r => ?_
  · refine .ite (fun _ => .pure rfl) fun _ => .bind (fanotifyEncodeFid_moves hz _ _ _) fun r => ?_
    cases r <;> exact .pure rfl
  · cases r with
    | none => exact .pure rfl
    | some r => exact .bind (createWatch_moves fuel hwd _ _ _) fun _ => .pure rfl

theorem watchFiles_kept (hz : KeepsStdin σ) (fuel : Nat) (names : List Bytes) (events : Int32) :
    (books σ).Keeps (watchFiles fuel names events : M (Booked σ) Bool) := by
  have hadd : ∀ p events, (books σ).Keeps (addWatch p events : M (Booked σ) (Int32 × Int32)) :=
    fun p events => .bind getLib_kept fun l => .ite
      (.bind (call_kept fun _ => rfl) fun _ => .pure _) (.bind (call_kept fun _ => rfl) fun _ => .pure _)
  have hrefused : ∀ (n : Bytes) wd, (books σ).Keeps (watchRefused n wd : M (Booked σ) Unit) :=
    fun n wd => .ite (.bind errno_kept fun _ => setError_kept _) (ceprint_kept _)
  have hone : ∀ n events, (books σ).Keeps (watchOne fuel n events : M (Booked σ) (Bool × Int32)) := by
    refine fun n events => .bind (hadd _ _) fun r => Account.Moves.ite (fun _ => ?_) fun hneg => ?_
    · exact .bind (hrefused _ _) fun _ => .pure rfl
    · exact .bind (storeWatch_kept hz fuel _ (by grind)) fun _ => .pure rfl
  refine .bind assertInit_kept fun _ => .bind (setError_kept 0) fun _ => ?_
  induction names generalizing events with
  | nil => exact .pure _
  | cons n names ih => exact .bind (hone _ _) fun _ => .ite (.pure _) (ih _)

/-- The stream a directory is read by is closed again. -/
theorem watchRecursivelyWithExclude_kept (hz : KeepsStdin σ) (fuel : Nat) (p : Bytes)
    (events : Int32) (excluded : List Bytes) :
    (books σ).Keeps (watchRecursivelyWithExclude fuel p events excluded : M (Booked σ) Bool) := by
  induction fuel generalizing p with
  | zero => exact .fault
  | succ fuel ih =>
      have hentry : ∀ dir n, (books σ).Keeps (walkEntry
          (fun p => watchRecursivelyWithExclude fuel p events excluded) dir excluded n :
            M (Booked σ) Bool) := by
        intro dir n
        refine .bind (call_kept fun _ => rfl) fun mode => ?_
        cases mode with
        | none => exact .bind errno_kept fun _ => .bind (setError_kept _) fun _ => .pure _
        | some mode =>
            refine .ite (.pure _) (.ite (.pure _) (.bind (ih _) fun _ => ?_))
            exact .bind getLib_kept fun _ => .pure _
      have hentries : ∀ dir n k, (books σ).Keeps (walkEntries
          (fun p => watchRecursivelyWithExclude fuel p events excluded) dir n excluded k :
            M (Booked σ) Bool) := by
        intro dir n k
        induction k with
        | zero => exact .fault
        | succ k ihk =>
            refine .bind (call_kept fun _ => rfl) fun name => ?_
            cases name with
            | none => exact .pure _
            | some name =>
                refine .bind (.ite (hentry _ _) (.pure _)) fun ok => .ite (.pure _) ?_
                exact .bind (setError_kept 0) fun _ => ihk
      unfold watchRecursivelyWithExclude
      refine .bind assertInit_kept fun _ => .bind (setError_kept 0) fun _ => ?_
      refine Account.Moves.bind (opens_moves _) fun dir => ?_
      cases dir with
      | none =>
          refine .after errno_kept fun _ => .ite (fun _ => watchFiles_kept hz _ _ _) fun _ => ?_
          exact .after (setError_kept _) fun _ => .pure rfl
      | some dir =>
          refine .after (hentries _ _ _) fun ok => .bind (closes_moves _ _) fun _ => ?_
          exact .ite (fun _ => .pure rfl) fun _ => watchFiles_kept hz _ _ _

end InotifyTools
