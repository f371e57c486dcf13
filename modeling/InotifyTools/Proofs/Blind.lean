import InotifyTools.Base.Relational
import InotifyTools.Proofs.Lookups
import InotifyTools.Tools.Common

set_option autoImplicit false

/-! # What never looks at filters and counters

Only the delivery of an event looks at the installed filter and at the counters. Everything else does
the same on two handles that differ in these alone. -/

namespace InotifyTools

open KeyedMap

/-! ## Handles that differ in filters and counters -/

/-- A watch without its counters. -/
def Watch.uncounted (v : Watch) : Watch := { v with stats := {} }

theorem Watch.eq_of_uncounted {v v' : Watch} (h : v'.uncounted = v.uncounted) :
    v' = { v with stats := v'.stats } := by
  have h' : { v'.uncounted with stats := v'.stats } = { v.uncounted with stats := v'.stats } := by
    rw [h]
  exact h'

theorem Watch.filename_of_uncounted {v v' : Watch} (h : v'.uncounted = v.uncounted) :
    v'.filename = v.filename := by
  rw [Watch.eq_of_uncounted h]

/-- The same watches and indexes, but for the counters. -/
structure Store.Alike (s s' : Store) : Prop where
  nextId : s'.nextId = s.nextId
  nextFanotifyWd : s'.nextFanotifyWd = s.nextFanotifyWd
  byWd : s'.byWd = s.byWd
  byFid : s'.byFid = s.byFid
  byFilename : s'.byFilename = s.byFilename
  watches : ∀ id : Nat, (s'.watches[id]?).map Watch.uncounted = (s.watches[id]?).map Watch.uncounted

namespace Store.Alike

variable {s s' : Store}

theorem refl (s : Store) : s.Alike s := ⟨rfl, rfl, rfl, rfl, rfl, fun _ => rfl⟩

theorem symm (h : s.Alike s') : s'.Alike s :=
  ⟨h.nextId.symm, h.nextFanotifyWd.symm, h.byWd.symm, h.byFid.symm, h.byFilename.symm,
    fun id => (h.watches id).symm⟩

theorem trans {s'' : Store} (h : s.Alike s') (h' : s'.Alike s'') : s.Alike s'' :=
  ⟨h'.nextId.trans h.nextId, h'.nextFanotifyWd.trans h.nextFanotifyWd, h'.byWd.trans h.byWd,
    h'.byFid.trans h.byFid, h'.byFilename.trans h.byFilename,
    fun id => (h'.watches id).trans (h.watches id)⟩

/-- A watch that is there is there in both, with counters of its own. -/
theorem watch_some (h : s.Alike s') {id : Nat} {v : Watch} (hv : s.watches[id]? = some v) :
    ∃ stats, s'.watches[id]? = some { v with stats } := by
  have hw := h.watches id
  rw [hv] at hw
  obtain ⟨v', hv', he⟩ := Option.map_eq_some_iff.1 hw
  exact ⟨v'.stats, hv'.trans (congrArg some (Watch.eq_of_uncounted he))⟩

theorem watch_none (h : s.Alike s') {id : Nat} (hv : s.watches[id]? = none) :
    s'.watches[id]? = none := by
  have hw := h.watches id
  rw [hv] at hw
  exact Option.map_eq_none_iff.1 hw

theorem insertWatch (h : s.Alike s') (id : Nat) {v v' : Watch} (hv : v'.uncounted = v.uncounted)
    (i : Nat) : ((s'.watches.insert id v')[i]?).map Watch.uncounted
      = ((s.watches.insert id v)[i]?).map Watch.uncounted := by
  rw [lookup_insert, lookup_insert]
  split
  · exact congrArg some hv
  · exact h.watches i

theorem insert (h : s.Alike s') (v : Watch) : (s.insert v).Alike (s'.insert v) := by
  have haccepts : s'.accepts v = s.accepts v := by
    simp only [accepts, h.byWd, h.byFid, h.byFilename]
  refine ⟨congrArg (· + 1) h.nextId, h.nextFanotifyWd, ?_, ?_, ?_, fun i => ?_⟩
  · simp only [Store.insert, h.byWd, h.nextId]
  · simp only [Store.insert, h.byFid, h.nextId]
  · simp only [Store.insert, h.byFilename, h.nextId]
  · simp only [Store.insert, haccepts, h.nextId]
    split
    · exact h.insertWatch _ rfl i
    · exact h.watches i

theorem rename (h : s.Alike s') (id : Nat) {v v' : Watch} (hv : v'.uncounted = v.uncounted)
    (n : CString) : (s.rename id v n).Alike (s'.rename id v' n) := by
  have hname := Watch.filename_of_uncounted hv
  refine ⟨h.nextId, h.nextFanotifyWd, h.byWd, h.byFid, ?_, fun i => ?_⟩
  · simp only [Store.rename, h.byFilename, hname]
  · refine h.insertWatch id ?_ i
    show { v'.uncounted with filename := n } = { v.uncounted with filename := n }
    rw [hv]

theorem remove (h : s.Alike s') (id : Nat) {v v' : Watch} (hv : v'.uncounted = v.uncounted) :
    (s.remove id v).Alike (s'.remove id v') := by
  have hname := Watch.filename_of_uncounted hv
  have hwd : v'.wd = v.wd := by rw [Watch.eq_of_uncounted hv]
  have hfid : v'.fid = v.fid := by rw [Watch.eq_of_uncounted hv]
  refine ⟨h.nextId, h.nextFanotifyWd, ?_, ?_, ?_, fun i => ?_⟩
  · simp only [Store.remove, h.byWd, hwd]
  · simp only [Store.remove, h.byFid, hfid]
  · simp only [Store.remove, h.byFilename, hname]
  · simp only [Store.remove, lookup_erase]
    split
    · rfl
    · exact h.watches i

/-- Such stores find the same names. -/
theorem nameOf (h : s.Alike s') (wd : Int32) : s'.nameOf wd = s.nameOf wd := by
  unfold Store.nameOf
  rw [h.byWd]
  cases s.byWd[wd]? with
  | none => rfl
  | some id =>
      show s'.watches[id]?.map _ = s.watches[id]?.map _
      cases hv : s.watches[id]? with
      | none => rw [h.watch_none hv]
      | some v =>
          obtain ⟨stats, hv'⟩ := h.watch_some hv
          rw [hv']
          rfl

/-- Such stores find the same descriptors. -/
theorem wdOf (h : s.Alike s') (n : Bytes) : s'.wdOf n = s.wdOf n := by
  unfold Store.wdOf
  rw [h.byFilename]
  cases s.byFilename[n]? with
  | none => rfl
  | some id =>
      show s'.watches[id]?.map _ = s.watches[id]?.map _
      cases hv : s.watches[id]? with
      | none => rw [h.watch_none hv]
      | some v =>
          obtain ⟨stats, hv'⟩ := h.watch_some hv
          rw [hv']
          rfl

end Store.Alike

/-- The same handle, but for filters and counters. -/
def Inotifytools.Alike (l l' : Inotifytools) : Prop :=
  ∃ recursiveWatch invertRegexp regex collectStats totals store,
    l' = { l with recursiveWatch, invertRegexp, regex, collectStats, totals, store } ∧
      l.store.Alike store

variable {σ α β : Type}

/-- The same system, and handles that differ in filters and counters. -/
structure Alike (w w' : World σ) : Prop where
  lib : w.lib.Alike w'.lib
  os : w'.os = w.os

namespace Alike

variable {w w' w'' : World σ}

theorem store (h : Alike w w') : w.lib.store.Alike w'.lib.store := by
  obtain ⟨_, _, _, _, _, _, hlib, hs⟩ := h.lib
  rw [hlib]
  exact hs

theorem symm (h : Alike w w') : Alike w' w := by
  obtain ⟨_, _, _, _, _, _, hlib, hs⟩ := h.lib
  refine ⟨⟨w.lib.recursiveWatch, w.lib.invertRegexp, w.lib.regex, w.lib.collectStats, w.lib.totals,
    w.lib.store, ?_, ?_⟩, h.os.symm⟩
  · rw [hlib]
  · rw [hlib]
    exact hs.symm

theorem trans (h : Alike w w') (h' : Alike w' w'') : Alike w w'' := by
  obtain ⟨_, _, _, _, _, _, hlib, hs⟩ := h.lib
  obtain ⟨_, _, _, _, _, _, hlib', hs'⟩ := h'.lib
  rw [hlib] at hlib' hs'
  exact ⟨⟨_, _, _, _, _, _, hlib', hs.trans hs'⟩, h'.os.trans h.os⟩

end Alike

/-- Programs that do the same on two such handles. -/
abbrev SameOn (m n : M σ α) : Prop := Prog.Related Alike Eq m n

/-- A program that looks neither at filters nor at counters. -/
abbrev Blind (m : M σ α) : Prop := SameOn m m

/-! ## Rules -/

theorem SameOn.bind {m n : M σ α} {f g : α → M σ β} (h : SameOn m n)
    (hf : ∀ a, SameOn (f a) (g a)) : SameOn (m >>= f) (n >>= g) :=
  Prog.Related.bind h fun a _ hab => hab ▸ hf a

theorem Blind.bind {m : M σ α} {f : α → M σ β} (h : Blind m) (hf : ∀ a, Blind (f a)) :
    Blind (m >>= f) := SameOn.bind h hf

theorem Blind.pure (a : α) : Blind (Pure.pure a : M σ α) := Prog.Related.pure rfl

theorem Blind.fault (e : Fault) : Blind (Prog.fault e : M σ α) := Prog.Related.fault e

theorem Blind.ite {c : Prop} [Decidable c] {m n : M σ α} (hm : Blind m) (hn : Blind n) :
    Blind (if c then m else n) := Prog.Related.ite Iff.rfl hm hn

theorem Blind.guard (c : Bool) (e : Fault) : Blind (Prog.guard c e : M σ Unit) :=
  .ite (.pure ()) (.fault e)

/-- Going on with the handle. -/
theorem SameOn.getLib {f g : Inotifytools → M σ α}
    (h : ∀ l l' : Inotifytools, l.Alike l' → SameOn (f l) (g l')) :
    SameOn (InotifyTools.getLib >>= f) (InotifyTools.getLib >>= g) :=
  fun w w' hw => h w.lib w'.lib hw.lib w w' hw

/-- Going on with a part of the handle that is neither a filter nor a counter, nor in the store. -/
theorem Blind.getLib {f : Inotifytools → M σ α}
    (hsame : ∀ l recursiveWatch invertRegexp regex collectStats totals store,
      f { l with recursiveWatch, invertRegexp, regex, collectStats, totals, store } = f l)
    (h : ∀ l, Blind (f l)) : Blind (InotifyTools.getLib >>= f) := by
  refine SameOn.getLib fun l l' hl => ?_
  obtain ⟨_, _, _, _, _, _, rfl, -⟩ := hl
  exact (congrArg (SameOn (f l)) (hsame l _ _ _ _ _ _)).mpr (h l)

/-- Going on with the store. -/
theorem Blind.getStore {f : Store → M σ α} (h : ∀ s s' : Store, s.Alike s' → SameOn (f s) (f s')) :
    Blind (InotifyTools.getLib >>= fun l => f l.store) := by
  refine SameOn.getLib fun l l' hl => ?_
  obtain ⟨_, _, _, _, _, _, rfl, hs⟩ := hl
  exact h _ _ hs

theorem Blind.call (f : σ → α × σ) : Blind (InotifyTools.call f) := by
  refine Prog.Related.lift (fun w w' h => ?_) fun w w' h => ⟨h.lib, ?_⟩
  · rw [h.os]
  · show (f w'.os).2 = (f w.os).2
    rw [h.os]

theorem Blind.exec (f : σ → σ) : Blind (InotifyTools.exec f) :=
  .update fun _ _ h => ⟨h.lib, congrArg f h.os⟩

theorem SameOn.modifyLib {f g : Inotifytools → Inotifytools}
    (h : ∀ l l' : Inotifytools, l.Alike l' → (f l).Alike (g l')) :
    SameOn (InotifyTools.modifyLib f : M σ Unit) (InotifyTools.modifyLib g) :=
  .update fun _ _ hw => ⟨h _ _ hw.lib, hw.os⟩

/-- Changing what is neither a filter nor a counter, nor the store. -/
theorem Blind.modifyLib {f : Inotifytools → Inotifytools}
    (hsame : ∀ l recursiveWatch invertRegexp regex collectStats totals store,
      f { l with recursiveWatch, invertRegexp, regex, collectStats, totals, store } =
        { f l with recursiveWatch, invertRegexp, regex, collectStats, totals, store })
    (hstore : ∀ l, (f l).store = l.store) : Blind (InotifyTools.modifyLib f : M σ Unit) := by
  refine SameOn.modifyLib fun l l' hl => ?_
  obtain ⟨_, _, _, _, _, _, rfl, hs⟩ := hl
  exact ⟨_, _, _, _, _, _, hsame .., (hstore l).symm ▸ hs⟩

theorem SameOn.setStore {s s' : Store} (h : s.Alike s') :
    SameOn (InotifyTools.setStore s : M σ Unit) (InotifyTools.setStore s') := by
  refine .modifyLib fun l l' hl => ?_
  obtain ⟨_, _, _, _, _, _, rfl, -⟩ := hl
  exact ⟨_, _, _, _, _, _, rfl, h⟩

theorem watch_missing {w : World σ} {id : Nat} (hv : w.lib.store.watches[id]? = none) :
    InotifyTools.watch id w = .error .missingWatch := by
  unfold InotifyTools.watch
  rw [getLib_bind, hv]
  rfl

/-- Going on with a watch: of its counters nothing is seen. -/
theorem SameOn.watch {f g : Watch → M σ α} (id : Nat)
    (h : ∀ v v' : Watch, v'.uncounted = v.uncounted → SameOn (f v) (g v')) :
    SameOn (InotifyTools.watch id >>= f) (InotifyTools.watch id >>= g) := by
  intro w w' hw
  obtain ⟨_, _, _, _, _, s, hlib, hs⟩ := hw.lib
  have hstore : w'.lib.store = s := by rw [hlib]
  cases hv : w.lib.store.watches[id]? with
  | none =>
      have hv' := hs.watch_none hv
      rw [← hstore] at hv'
      rw [Prog.bind_run_error (watch_missing hv), Prog.bind_run_error (watch_missing hv')]
      exact .error _
  | some v =>
      obtain ⟨stats, hv'⟩ := hs.watch_some hv
      rw [← hstore] at hv'
      rw [Prog.bind_run_ok (watch_run hv), Prog.bind_run_ok (watch_run hv')]
      exact h v { v with stats } rfl w w' hw

theorem Blind.watch {f : Watch → M σ α} (id : Nat) (hsame : ∀ v stats, f { v with stats } = f v)
    (h : ∀ v, Blind (f v)) : Blind (InotifyTools.watch id >>= f) := by
  refine SameOn.watch id fun v v' hv => ?_
  rw [Watch.eq_of_uncounted hv]
  exact (congrArg (SameOn (f v)) (hsame v _)).mpr (h v)

theorem setError_blind (e : Int32) : Blind (setError e : M σ Unit) :=
  .modifyLib (fun _ _ _ _ _ _ _ => rfl) fun _ => rfl

theorem modifyStream_blind (f : EventStream → EventStream) : Blind (modifyStream f : M σ Unit) :=
  .modifyLib (fun _ _ _ _ _ _ _ => rfl) fun _ => rfl

theorem getStream_blind : Blind (getStream : M σ EventStream) :=
  .getLib (fun _ _ _ _ _ _ _ => rfl) fun _ => .pure _

variable [Sys σ]

theorem errno_blind : Blind (errno : M σ Int32) := fun w w' h => by
  show Prog.Agree Alike Eq (.ok (Sys.errno w.os, w)) (.ok (Sys.errno w'.os, w'))
  rw [h.os]
  exact .ok rfl h

theorem strerror_blind (e : Int32) : Blind (strerror e : M σ Bytes) := fun _ _ h => .ok rfl h

theorem ceprint_blind (ps : List Piece) : Blind (ceprint ps : M σ Unit) := .exec _

theorem cprint_blind (ps : List Piece) : Blind (cprint ps : M σ Unit) := .exec _

theorem niceassert_blind (c : Bool) (line : Nat) (s t : String) :
    Blind (niceassert c line s t : M σ Unit) := .ite (.pure _) (ceprint_blind _)

theorem assertInit_blind : Blind (assertInit : M σ Unit) :=
  .getLib (fun _ _ _ _ _ _ _ => rfl) fun _ => niceassert_blind _ _ _ _

/-! ## Names -/

omit [Sys σ] in
theorem watchFromFid_blind (f : Bytes) : Blind (watchFromFid f : M σ (Option Nat)) :=
  .getStore (f := fun s => pure s.byFid[FidKey.new f]?) fun _ _ hs => by
    rw [hs.byFid]
    exact Blind.pure _

omit [Sys σ] in
theorem watchFromWd_blind (wd : Int32) : Blind (watchFromWd wd : M σ (Option Nat)) :=
  .getStore (f := fun s => pure s.byWd[wd]?) fun _ _ hs => by
    rw [hs.byWd]
    exact Blind.pure _

omit [Sys σ] in
theorem watchFromFilename_blind (n : Bytes) : Blind (watchFromFilename n : M σ (Option Nat)) :=
  .getStore (f := fun s => pure s.byFilename[n]?) fun _ _ hs => by
    rw [hs.byFilename]
    exact Blind.pure _

omit [Sys σ] in
theorem setFidname_blind (i : Nat) (b : UInt8) : Blind (setFidname i b : M σ Unit) :=
  .bind (.guard _ _) fun _ => .modifyLib (fun _ _ _ _ _ _ _ => rfl) fun _ => rfl

omit [Sys σ] in
theorem blitFidname_blind (off : Nat) (bs : Bytes) : Blind (blitFidname off bs : M σ Unit) :=
  .bind (.guard _ _) fun _ => .modifyLib (fun _ _ _ _ _ _ _ => rfl) fun _ => rfl

omit [Sys σ] in
theorem mountFd_blind (f : Bytes) : Blind (mountFd f : M σ Int32) := by
  refine .bind (watchFromFid_blind _) fun id => ?_
  cases id with
  | none => exact .pure _
  | some id => exact .watch id (fun _ _ => rfl) fun _ => .pure _

theorem openFid_blind (f : Bytes) (nameLen : Int32) :
    Blind (openFid f nameLen : M σ (Option Int32)) := by
  unfold openFid
  refine .bind (mountFd_blind f) fun _ => .bind (.call _) fun _ => .ite (.pure _) ?_
  refine .getLib (fun _ _ _ _ _ _ _ => rfl) fun _ => ?_
  refine .ite (.bind (ceprint_blind _) fun _ => .pure _) (.ite (.pure _) ?_)
  refine .bind (watchFromFid_blind _) fun id => ?_
  cases id with
  | none => exact .bind (ceprint_blind _) fun _ => .pure _
  | some id =>
      refine .watch id (fun _ _ => rfl) fun v => ?_
      refine .bind (.ite (.call _) (.pure _)) fun _ => ?_
      exact .ite (.bind (ceprint_blind _) fun _ => .pure _) (.pure _)

omit [Sys σ] in
theorem markDeleted_blind : Blind (markDeleted : M σ Unit) :=
  .getLib (fun _ _ _ _ _ _ _ => rfl) fun _ => .ite (blitFidname_blind _ _) (.pure _)

theorem appendFidName_blind (f : Bytes) (nameLen dirf : Int32) (len : Nat) :
    Blind (appendFidName f nameLen dirf len : M σ Bool) := by
  unfold appendFidName
  refine .bind (.call _) fun _ => .bind errno_blind fun _ => .ite ?_ ?_
  · exact .bind (strerror_blind _) fun _ => .bind (ceprint_blind _) fun _ => .pure _
  · refine .bind (blitFidname_blind _ _) fun _ => .bind (setFidname_blind _ _) fun _ => ?_
    exact .bind (.ite markDeleted_blind (.pure _)) fun _ => .pure _

theorem filenameFromFid_blind (f : Bytes) : Blind (filenameFromFid f : M σ (Option CString)) := by
  unfold filenameFromFid
  refine .bind (openFid_blind f _) fun dirf => ?_
  cases dirf with
  | none => exact .pure _
  | some dirf =>
      refine .bind (.call _) fun target => ?_
      cases target with
      | none => exact .bind (.exec _) fun _ => .bind (ceprint_blind _) fun _ => .pure _
      | some target =>
          refine .bind (blitFidname_blind _ _) fun _ => .bind (setFidname_blind _ _) fun _ => ?_
          refine .bind (setFidname_blind _ _) fun _ => ?_
          refine .bind (.ite (appendFidName_blind _ _ _ _) (.pure _)) fun _ => ?_
          refine .bind (.exec _) fun _ => .ite (.pure _) ?_
          exact .getLib (fun _ _ _ _ _ _ _ => rfl) fun _ => .pure _

theorem filenameFromWatchId_blind (id : Nat) : Blind (filenameFromWatchId id : M σ CString) := by
  unfold filenameFromWatchId
  refine .watch id (fun _ _ => rfl) fun v => ?_
  cases v.fid with
  | none => exact .pure _
  | some f =>
      refine .getLib (fun _ _ _ _ _ _ _ => rfl) fun _ => .ite (.pure _) ?_
      refine .bind (filenameFromFid_blind f) fun p => ?_
      cases p with
      | some p => exact .pure _
      | none => exact .watch id (fun _ _ => rfl) fun _ => .pure _

theorem filenameFromWd_blind (wd : Int32) : Blind (filenameFromWd wd : M σ Bytes) := by
  refine .bind (.bind assertInit_blind fun _ => .ite (.pure _) ?_) fun _ => .pure _
  refine .bind (watchFromWd_blind wd) fun id => ?_
  cases id with
  | none => exact .pure _
  | some id => exact filenameFromWatchId_blind id

theorem dirpathFromEvent_blind (ev : Event) :
    Blind (dirpathFromEvent ev : M σ (Option Bytes)) := by
  refine .bind (filenameFromWd_blind _) fun _ => .ite (.pure _) ?_
  exact .getLib (fun _ _ _ _ _ _ _ => rfl) fun _ => .pure _

theorem wdFromFilename_blind (n : Bytes) : Blind (wdFromFilename n : M σ Int32) := by
  refine .bind assertInit_blind fun _ => .ite (.pure _) ?_
  refine .bind (watchFromFilename_blind n) fun id => ?_
  cases id with
  | none => exact .pure _
  | some id => exact .watch id (fun _ _ => rfl) fun _ => .pure _

/-! ## The store -/

theorem dropWatch_blind {v v' : Watch} (hv : v'.uncounted = v.uncounted) :
    SameOn (dropWatch v : M σ Unit) (dropWatch v') := by
  rw [Watch.eq_of_uncounted hv]
  exact Blind.ite (.exec _) (.pure _)

omit [Sys σ] in
theorem renameWatch_blind (id : Nat) (n : Bytes) : Blind (renameWatch id n : M σ Unit) := by
  refine SameOn.watch id fun v v' hv => ?_
  refine SameOn.getLib fun l l' hl => ?_
  obtain ⟨_, _, _, _, _, _, rfl, hs⟩ := hl
  exact .setStore (hs.rename id hv _)

omit [Sys σ] in
theorem replaceFilename_blind (old new : Bytes) : Blind (replaceFilename old new : M σ Unit) := by
  have hone : ∀ id, Blind (replaceFilenameOf old new id : M σ Unit) := by
    intro id
    refine SameOn.getLib fun l l' hl => ?_
    obtain ⟨_, _, _, _, _, s, rfl, hs⟩ := hl
    dsimp only
    cases hv : l.store.watches[id]? with
    | none =>
        rw [hs.watch_none hv]
        exact Blind.pure _
    | some v =>
        obtain ⟨stats, hv'⟩ := hs.watch_some hv
        rw [hv']
        exact Blind.ite (renameWatch_blind id _) (.pure _)
  have hall : ∀ ids, Blind (replaceFilenames old new ids : M σ Unit) := by
    intro ids
    induction ids with
    | nil => exact .pure _
    | cons id ids ih => exact .bind (hone id) fun _ => ih
  refine .ite (.pure _) (.getStore (f := fun s => replaceFilenames old new s.byFilename.values)
    fun s s' hs => ?_)
  rw [hs.byFilename]
  exact hall _

theorem removeInotifyWatch_blind (id : Nat) : Blind (removeInotifyWatch id : M σ Bool) := by
  unfold removeInotifyWatch
  refine .bind (setError_blind 0) fun _ => .watch id (fun _ _ => rfl) fun v => .ite (.pure _) ?_
  refine .getLib (fun _ _ _ _ _ _ _ => rfl) fun _ => .bind (.call _) fun status => ?_
  refine .ite (.bind (strerror_blind _) fun _ => .bind (ceprint_blind _) fun _ => ?_) (.pure _)
  exact .bind (setError_blind _) fun _ => .pure _

theorem removeWatch_blind (id : Option Nat) : Blind (removeWatch id : M σ Bool) := by
  unfold removeWatch
  refine .bind assertInit_blind fun _ => ?_
  cases id with
  | none => exact .pure _
  | some id =>
      refine .bind (removeInotifyWatch_blind id) fun ok => .ite (.pure _) ?_
      refine .bind (SameOn.watch id fun v v' hv => SameOn.getLib fun l l' hl => ?_) fun _ => .pure _
      obtain ⟨_, _, _, _, _, _, rfl, hs⟩ := hl
      exact SameOn.bind (.setStore (hs.remove id hv)) fun _ => dropWatch_blind hv

theorem removeWatchByFilename_blind (n : Bytes) : Blind (removeWatchByFilename n : M σ Bool) :=
  .bind (watchFromFilename_blind n) fun _ => removeWatch_blind _

theorem createWatch_blind (fuel : Nat) (wd : Int32) (fid : Option Bytes) (n : Bytes)
    (dirf : Int32) : Blind (createWatch fuel wd fid n dirf : M σ (Option Int32)) := by
  unfold createWatch
  refine .ite (.pure _) (.bind (.ite (.pure _) ?_) fun wd => .bind ?_ fun _ => .pure _)
  · refine SameOn.getLib fun l l' hl => ?_
    obtain ⟨_, _, _, _, _, s, rfl, hs⟩ := hl
    dsimp only
    rw [hs.byWd, hs.nextFanotifyWd]
    split
    · refine SameOn.bind (.setStore ?_) fun _ => Blind.pure _
      exact ⟨hs.nextId, rfl, rfl, hs.byFid, hs.byFilename, hs.watches⟩
    · exact Blind.fault _
  · refine SameOn.getLib fun l l' hl => ?_
    obtain ⟨_, _, _, _, _, s, rfl, hs⟩ := hl
    dsimp only
    refine SameOn.bind (.setStore (hs.insert _)) fun _ => ?_
    simp only [Store.accepts, hs.byWd, hs.byFid, hs.byFilename]
    exact Blind.ite (.pure _) (dropWatch_blind rfl)

/-! ## Watching -/

theorem isdir_blind (p : Bytes) : Blind (isdir p : M σ Bool) := by
  refine .bind (.call _) fun mode => ?_
  cases mode with
  | some mode => exact .pure _
  | none =>
      refine .bind errno_blind fun _ => .bind (strerror_blind _) fun _ => ?_
      exact .bind (.ite (ceprint_blind _) (.pure _)) fun _ => .pure _

theorem registerMount_blind (fuel : Nat) (f : Bytes) (dirname : Option Bytes) :
    Blind (registerMount fuel f dirname : M σ Bool) := by
  cases dirname with
  | none => exact .pure _
  | some d =>
      refine .bind (watchFromFid_blind f) fun known => .ite (.pure _) (.bind (.call _) fun mntid => ?_)
      refine .ite ?_ (.bind (createWatch_blind _ _ _ _ _) fun _ => .pure _)
      exact .bind errno_blind fun _ => .bind (strerror_blind _) fun _ =>
        .bind (ceprint_blind _) fun _ => .pure _

theorem fanotifyEncodeFid_blind (fuel : Nat) (p : CString) (dirname : Option Bytes) :
    Blind (fanotifyEncodeFid fuel p dirname : M σ (Option (Bytes × Int32))) := by
  have hreport : ∀ msg : Bytes → List Piece, Blind (do
      let e ← strerror (← errno)
      ceprint (msg e)
      return (none : Option (Bytes × Int32)) : M σ _) := fun msg =>
    .bind errno_blind fun _ => .bind (strerror_blind _) fun _ => .bind (ceprint_blind _) fun _ => .pure _
  unfold fanotifyEncodeFid
  refine .bind (.call _) fun fsid => ?_
  cases fsid with
  | none => exact hreport _
  | some fsid =>
      refine .bind (registerMount_blind _ _ _) fun ok => .ite (.pure _) ?_
      refine .bind (.call _) fun r => .ite (hreport _) ?_
      cases dirname with
      | none => exact .pure _
      | some d => exact .bind (.call _) fun _ => .ite (hreport _) (.pure _)

theorem watchFiles_blind (fuel : Nat) (names : List Bytes) (events : Int32) :
    Blind (watchFiles fuel names events : M σ Bool) := by
  have hadd : ∀ p events, Blind (addWatch p events : M σ (Int32 × Int32)) := fun p events =>
    .getLib (fun _ _ _ _ _ _ _ => rfl) fun l =>
      .ite (.bind (.call _) fun _ => .pure _) (.bind (.call _) fun _ => .pure _)
  have hstore : ∀ p wd, Blind (storeWatch fuel p wd : M σ Bool) := by
    intro p wd
    refine .bind (isdir_blind _) fun isDir => .bind (.ite (.pure _) ?_) fun r => ?_
    · refine .bind (fanotifyEncodeFid_blind _ _ _) fun r => ?_
      cases r <;> exact .pure _
    · cases r with
      | none => exact .pure _
      | some r => exact .bind (createWatch_blind _ _ _ _ _) fun _ => .pure _
  have hrefused : ∀ (n : Bytes) wd, Blind (watchRefused n wd : M σ Unit) := fun n wd =>
    .ite (.bind errno_blind fun _ => setError_blind _) (ceprint_blind _)
  have hone : ∀ n events, Blind (watchOne fuel n events : M σ (Bool × Int32)) := fun n events =>
    .bind (hadd _ _) fun _ => .ite (.bind (hrefused _ _) fun _ => .pure _)
      (.bind (hstore _ _) fun _ => .pure _)
  refine .bind assertInit_blind fun _ => .bind (setError_blind 0) fun _ => ?_
  induction names generalizing events with
  | nil => exact .pure _
  | cons n names ih => exact .bind (hone _ _) fun _ => .ite (.pure _) (ih _)

theorem watchRecursivelyWithExclude_blind (fuel : Nat) (p : Bytes) (events : Int32)
    (excluded : List Bytes) :
    Blind (watchRecursivelyWithExclude fuel p events excluded : M σ Bool) := by
  induction fuel generalizing p with
  | zero => exact .fault _
  | succ fuel ih =>
      have hentry : ∀ dir n, Blind (walkEntry
          (fun p => watchRecursivelyWithExclude fuel p events excluded) dir excluded n : M σ Bool) := by
        intro dir n
        refine .bind (.call _) fun mode => ?_
        cases mode with
        | none => exact .bind errno_blind fun _ => .bind (setError_blind _) fun _ => .pure _
        | some mode =>
            refine .ite (.pure _) (.ite (.pure _) (.bind (ih _) fun _ => ?_))
            exact .getLib (fun _ _ _ _ _ _ _ => rfl) fun _ => .pure _
      have hentries : ∀ dir n k, Blind (walkEntries
          (fun p => watchRecursivelyWithExclude fuel p events excluded) dir n excluded k : M σ Bool) := by
        intro dir n k
        induction k with
        | zero => exact .fault _
        | succ k ihk =>
            refine .bind (.call _) fun name => ?_
            cases name with
            | none => exact .pure _
            | some name =>
                refine .bind (.ite (hentry _ _) (.pure _)) fun ok => .ite (.pure _) ?_
                exact .bind (setError_blind 0) fun _ => ihk
      unfold watchRecursivelyWithExclude
      refine .bind assertInit_blind fun _ => .bind (setError_blind 0) fun _ => ?_
      refine .bind (.call _) fun dir => ?_
      cases dir with
      | none =>
          refine .bind errno_blind fun _ => .ite (watchFiles_blind _ _ _) ?_
          exact .bind (setError_blind _) fun _ => .pure _
      | some dir =>
          refine .bind (hentries _ _ _) fun ok => .bind (.exec _) fun _ => ?_
          exact .ite (.pure _) (watchFiles_blind _ _ _)

/-! ## Following moves -/

theorem MoveTracker.handle_blind {out : List Piece → M σ Unit} (hout : ∀ ps, Blind (out ps))
    (t : MoveTracker) (fuel : Nat) (ev : Event) (recursive : Bool) (events : Int32)
    (announce : Bool) : Blind (t.handle fuel ev recursive events announce out) := by
  have hreport : ∀ (ok : Bool) (msg : Bytes → List Piece), Blind (if !ok then do
      let e ← strerror (← getLib).error
      out (msg e) else pure () : M σ Unit) := fun ok msg =>
    .ite (.getLib (fun _ _ _ _ _ _ _ => rfl) fun _ => .bind (strerror_blind _) fun _ => hout _) (.pure _)
  have hsettle : Blind (t.settle ev out) := by
    unfold settle
    cases t.movedFrom with
    | none => exact .pure _
    | some mf =>
        refine .ite (.bind (removeWatchByFilename_blind _) fun _ => ?_) (.pure _)
        exact .bind (hreport _ _) fun _ => .pure _
  have hnew : Blind (watchNew fuel ev events announce out) := by
    refine .bind (dirpathFromEvent_blind ev) fun p => ?_
    cases p with
    | none => exact .pure _
    | some p =>
        refine .ite (.pure _) (.bind (isdir_blind _) fun _ => .ite (.pure _) ?_)
        refine .bind (.ite (hout _) (.pure _)) fun _ => ?_
        exact .bind (watchRecursivelyWithExclude_blind _ _ _ _) fun _ => hreport _ _
  have hfollow : ∀ t : MoveTracker, Blind (t.follow fuel ev events announce out) := by
    intro t
    refine .ite (.bind hnew fun _ => .pure _) (.ite ?_ (.ite ?_ (.pure _)))
    · refine .bind (dirpathFromEvent_blind ev) fun p => .bind (wdFromFilename_blind _) fun _ => ?_
      exact .ite (.pure _) (.pure _)
    · cases t.movedFrom with
      | none => exact .pure _
      | some mf =>
          refine .bind (dirpathFromEvent_blind ev) fun _ => ?_
          exact .bind (replaceFilename_blind _ _) fun _ => .pure _
  exact .bind hsettle fun t => .ite (.pure _) (hfollow t)

/-! ## Reading -/

omit [Sys σ] in
theorem bufferedEvent_blind : Blind (bufferedEvent : M σ Bool) := by
  unfold bufferedEvent
  refine .bind getStream_blind fun s => .ite ?_ (.ite ?_ (.pure _))
  · refine .bind (modifyStream_blind _) fun _ => .getLib (fun _ _ _ _ _ _ _ => rfl) fun _ => ?_
    refine .ite (.bind (.guard _ _) fun _ => ?_) (.bind (modifyStream_blind _) fun _ => .pure _)
    exact .bind (modifyStream_blind _) fun _ => .pure _
  · exact .bind (modifyStream_blind _) fun _ => .pure _

theorem readEvents_blind (fuel : Nat) (timeout : Int) (n : Int32) :
    Blind (readEvents fuel timeout n : M σ Bool) := by
  have hfailed : Blind (do setError (← errno); return false : M σ Bool) :=
    .bind errno_blind fun _ => .bind (setError_blind _) fun _ => .pure _
  have hwait : Blind (waitForBytes n fuel : M σ Int32) := by
    induction fuel with
    | zero => exact .fault _
    | succ fuel ih =>
        refine .getLib (fun _ _ _ _ _ _ _ => rfl) fun _ => .bind (.call _) fun r => ?_
        exact .ite (.pure _) ih
  unfold readEvents
  refine .getLib (fun _ _ _ _ _ _ _ => rfl) fun _ => .bind (.call _) fun rc => ?_
  refine .ite hfailed (.ite (.pure _) (.bind hwait fun rc => .ite hfailed ?_))
  refine .getLib (fun _ _ _ _ _ _ _ => rfl) fun _ => .bind (.call _) fun data => ?_
  cases data with
  | none => exact hfailed
  | some data =>
      refine .ite (.bind (ceprint_blind _) fun _ => .pure _) ?_
      exact .bind (modifyStream_blind _) fun _ => .pure _

omit [Sys σ] in
theorem blitEvbuf_blind (off : Nat) (bs : Bytes) : Blind (blitEvbuf off bs : M σ Unit) :=
  .bind (.guard _ _) fun _ => modifyStream_blind _

omit [Sys σ] in
theorem writeEvent_blind (metaOff : Nat) (wd : Option Int32) (info : FidInfo) :
    Blind (writeEvent metaOff wd info : M σ Unit) := by
  unfold writeEvent
  refine .bind (.guard _ _) fun _ => .bind getStream_blind fun _ => ?_
  refine .bind (blitEvbuf_blind _ _) fun _ => .bind (blitEvbuf_blind _ _) fun _ => ?_
  refine .bind (blitEvbuf_blind _ _) fun _ => ?_
  cases info.nameOff with
  | none => exact .pure _
  | some src => exact .ite (modifyStream_blind _) (.pure _)

theorem wdOfFid_blind (fuel : Nat) (fid : Bytes) :
    Blind (wdOfFid fuel fid : M σ (Option Int32 × Option CString)) := by
  refine .bind (watchFromFid_blind fid) fun id => ?_
  cases id with
  | some id => exact .watch id (fun _ _ => rfl) fun _ => .pure _
  | none =>
      refine .bind (filenameFromFid_blind fid) fun p => ?_
      cases p with
      | none => exact .pure _
      | some p => exact .bind (createWatch_blind _ _ _ _ _) fun _ => .pure _

theorem convertFanotifyEvent_blind (fuel : Nat) :
    Blind (convertFanotifyEvent fuel : M σ (Option Int32)) := by
  unfold convertFanotifyEvent
  refine .bind getStream_blind fun _ => .bind getStream_blind fun _ => ?_
  refine .bind (modifyStream_blind _) fun _ => .bind getStream_blind fun s => ?_
  dsimp only
  split
  · exact .bind (ceprint_blind _) fun _ => .pure _
  · next info _ =>
      refine .bind ?_ fun _ => .bind getStream_blind fun s => ?_
      · cases info.newLen with
        | none => exact .pure _
        | some newLen => exact blitEvbuf_blind _ _
      refine .getLib (fun _ _ _ _ _ _ _ => rfl) fun _ => ?_
      refine .bind (.ite (cprint_blind _) (.pure _)) fun _ => .bind (modifyStream_blind _) fun _ => ?_
      refine .bind (.guard _ _) fun _ => .bind (watchFromFid_blind _) fun _ => ?_
      refine .bind (wdOfFid_blind _ _) fun _ => .getLib (fun _ _ _ _ _ _ _ => rfl) fun _ => ?_
      refine .bind (.ite (cprint_blind _) (.pure _)) fun _ => ?_
      exact .bind (writeEvent_blind _ _ _) fun _ => .bind getStream_blind fun _ => .pure _

theorem decodeEvent_blind (fuel : Nat) : Blind (decodeEvent fuel : M σ (Option Int32)) := by
  refine .bind (modifyStream_blind _) fun _ => .getLib (fun _ _ _ _ _ _ _ => rfl) fun _ => ?_
  exact .ite (convertFanotifyEvent_blind fuel) (.bind (modifyStream_blind _) fun _ => .pure _)

theorem advance_blind : Blind (advance : M σ Unit) :=
  .bind (modifyStream_blind _) fun _ => .bind getStream_blind fun _ =>
    .bind (niceassert_blind _ _ _ _) fun _ => modifyStream_blind _

end InotifyTools
