import InotifyTools.Proofs.Descriptors
import InotifyTools.Tools.Common

set_option autoImplicit false

/-! # More fuel

The fuel of a walk bounds it and does nothing else: a walk that returns does so with more fuel, too, and
so do the tracker and the loop of `next_events`. -/

namespace InotifyTools

open Prog (Extends)

variable {σ : Type} [Sys σ] {n m : Nat}

/-! ## Watching files -/

omit [Sys σ] in
theorem assignWd_extends (h : n ≤ m) (wd : Int32) :
    Extends (assignWd n wd : M σ Int32) (assignWd m wd) := by
  refine .ite (.refl _) (.next fun l => ?_)
  dsimp only
  cases hsearch : Store.searchFanotifyWd l.store.byWd n l.store.nextFanotifyWd with
  | none => exact .fault _ _
  | some wd =>
      rw [Store.searchFanotifyWd_eq_probe] at hsearch
      rw [Store.searchFanotifyWd_eq_probe, Probing.probe_mono hsearch h]
      exact .refl _

theorem createWatch_extends (h : n ≤ m) (wd : Int32) (fid : Option Bytes) (filename : Bytes)
    (dirf : Int32) :
    Extends (createWatch n wd fid filename dirf : M σ (Option Int32))
      (createWatch m wd fid filename dirf) :=
  .ite (.refl _) (.first (assignWd_extends h wd))

theorem registerMount_extends (h : n ≤ m) (f : Bytes) (dirname : Option Bytes) :
    Extends (registerMount n f dirname : M σ Bool) (registerMount m f dirname) := by
  cases dirname with
  | none => exact .refl _
  | some d =>
      refine .next fun id => .ite (.refl _) (.next fun mntid => .ite (.refl _) ?_)
      exact .first (createWatch_extends h _ _ _ _)

theorem fanotifyEncodeFid_extends (h : n ≤ m) (cpath : CString) (dirname : Option Bytes) :
    Extends (fanotifyEncodeFid n cpath dirname : M σ (Option (Bytes × Int32)))
      (fanotifyEncodeFid m cpath dirname) := by
  refine .next fun fsid => ?_
  cases fsid with
  | none => exact .refl _
  | some fsid => exact .first (registerMount_extends h _ _)

theorem watchFid_extends (h : n ≤ m) (wd : Int32) (cpath : CString) (dirname : Option Bytes) :
    Extends (watchFid n wd cpath dirname : M σ (Option (Option Bytes × Int32)))
      (watchFid m wd cpath dirname) :=
  .ite (.refl _) (.first (fanotifyEncodeFid_extends h cpath dirname))

theorem storeWatch_extends (h : n ≤ m) (cpath : CString) (wd : Int32) :
    Extends (storeWatch n cpath wd : M σ Bool) (storeWatch m cpath wd) := by
  refine .next fun isDir => .bind (watchFid_extends h wd cpath _) fun fid => ?_
  cases fid with
  | none => exact .refl _
  | some fid => exact .first (createWatch_extends h _ _ _ _)

theorem watchOne_extends (h : n ≤ m) (fname : Bytes) (events : Int32) :
    Extends (watchOne n fname events : M σ (Bool × Int32)) (watchOne m fname events) :=
  .next fun _ => .ite (.refl _) (.first (storeWatch_extends h _ _))

theorem watchEach_extends (h : n ≤ m) (filenames : List Bytes) (events : Int32) :
    Extends (watchEach n filenames events : M σ Bool) (watchEach m filenames events) := by
  induction filenames generalizing events with
  | nil => exact .refl _
  | cons fname filenames ih =>
      exact .bind (watchOne_extends h fname events) fun r => .ite (.refl _) (ih r.2)

theorem watchFile_extends (h : n ≤ m) (filename : Bytes) (events : Int32) :
    Extends (watchFile n filename events : M σ Bool) (watchFile m filename events) :=
  .next fun _ => .next fun _ => watchEach_extends h [filename] events

/-! ## Walking a tree -/

theorem walkEntry_extends {descend descend' : Bytes → M σ Bool}
    (hdescend : ∀ p, Extends (descend p) (descend' p)) (myPath : Bytes) (excludeList : List Bytes)
    (name : Bytes) : Extends (walkEntry descend myPath excludeList name)
      (walkEntry descend' myPath excludeList name) := by
  refine .next fun mode => ?_
  cases mode with
  | none => exact .refl _
  | some mode => exact .ite (.refl _) (.ite (.refl _) (.first (hdescend _)))

theorem walkEntries_extends {descend descend' : Bytes → M σ Bool}
    (hdescend : ∀ p, Extends (descend p) (descend' p)) (h : n ≤ m) (dir : Nat) (myPath : Bytes)
    (excludeList : List Bytes) : Extends (walkEntries descend dir myPath excludeList n)
      (walkEntries descend' dir myPath excludeList m) := by
  induction n generalizing m with
  | zero => exact .fault _ _
  | succ n ih =>
      obtain ⟨m, rfl⟩ := Nat.exists_eq_add_of_le' (Nat.le_of_add_left_le h)
      refine .next fun name => ?_
      cases name with
      | none => exact .refl _
      | some name =>
          refine .bind (.ite (walkEntry_extends hdescend _ _ _) (.refl _)) fun ok => ?_
          exact .ite (.refl _) (.next fun _ => ih (by omega))

theorem watchRecursivelyWithExclude_extends (h : n ≤ m) (path : Bytes) (events : Int32)
    (excludeList : List Bytes) :
    Extends (watchRecursivelyWithExclude n path events excludeList : M σ Bool)
      (watchRecursivelyWithExclude m path events excludeList) := by
  induction n generalizing m path with
  | zero => exact .fault _ _
  | succ n ih =>
      obtain ⟨m, rfl⟩ := Nat.exists_eq_add_of_le' (Nat.le_of_add_left_le h)
      have hle : n ≤ m := by omega
      refine .next fun _ => .next fun _ => .next fun dir => ?_
      cases dir with
      | none =>
          exact .next fun e => .ite (watchFile_extends hle _ _) (.refl _)
      | some dir =>
          refine .bind (walkEntries_extends (fun p => ih hle p) hle _ _ _) fun ok => ?_
          exact .next fun _ => .ite (.refl _) (watchFile_extends hle _ _)

/-! ## The tracker -/

namespace MoveTracker

theorem watchNew_extends (h : n ≤ m) (event : Event) (events : Int32) (announce : Bool)
    (out : List Piece → M σ Unit) :
    Extends (watchNew n event events announce out) (watchNew m event events announce out) := by
  refine .next fun path => ?_
  cases path with
  | none => exact .refl _
  | some newFile =>
      refine .ite (.refl _) (.next fun isDir => .ite (.refl _) (.next fun _ => ?_))
      exact .first (watchRecursivelyWithExclude_extends h _ _ _)

theorem follow_extends (h : n ≤ m) (t : MoveTracker) (event : Event) (events : Int32)
    (announce : Bool) (out : List Piece → M σ Unit) :
    Extends (t.follow n event events announce out) (t.follow m event events announce out) :=
  .ite (.first (watchNew_extends h event events announce out)) (.refl _)

/-- What the tracker makes of an event, it makes of it with more fuel. -/
theorem handle_extends (h : n ≤ m) (t : MoveTracker) (event : Event) (recursive : Bool)
    (events : Int32) (announce : Bool) (out : List Piece → M σ Unit) :
    Extends (t.handle n event recursive events announce out)
      (t.handle m event recursive events announce out) :=
  .next fun t => .ite (.refl _) (follow_extends h t event events announce out)

end MoveTracker

/-! ## Reading -/

theorem readEvents_extends (h : n ≤ m) (timeout : Int) (numEvents : Int32) :
    Extends (readEvents n timeout numEvents : M σ Bool) (readEvents m timeout numEvents) := by
  have hwait : ∀ {n m : Nat}, n ≤ m →
      Extends (waitForBytes numEvents n : M σ Int32) (waitForBytes numEvents m) := by
    intro n
    induction n with
    | zero => exact fun _ => .fault _ _
    | succ n ih =>
        intro m h
        obtain ⟨m, rfl⟩ := Nat.exists_eq_add_of_le' (Nat.le_of_add_left_le h)
        exact .next fun _ => .next fun _ => .ite (.refl _) (ih (by omega))
  exact .next fun _ => .next fun _ => .ite (.refl _) (.ite (.refl _) (.first (hwait h)))

theorem wdOfFid_extends (h : n ≤ m) (fid : Bytes) :
    Extends (wdOfFid n fid : M σ (Option Int32 × Option CString)) (wdOfFid m fid) := by
  refine .next fun id => ?_
  cases id with
  | some id => exact .refl _
  | none =>
      refine .next fun p => ?_
      cases p with
      | none => exact .refl _
      | some p => exact .first (createWatch_extends h _ _ _ _)

theorem decodeEvent_extends (h : n ≤ m) :
    Extends (decodeEvent n : M σ (Option Int32)) (decodeEvent m) := by
  have hconvert : Extends (convertFanotifyEvent n : M σ (Option Int32)) (convertFanotifyEvent m) := by
    refine .next fun _ => .next fun _ => .next fun _ => .next fun s => ?_
    generalize locateFid s _ = located
    cases located with
    | none => exact .refl _
    | some info =>
        refine .next fun _ => .next fun _ => .next fun _ => .next fun _ => .next fun _ => ?_
        exact .next fun _ => .next fun _ => .first (wdOfFid_extends h _)
  exact .next fun _ => .next fun _ => .ite hconvert (.refl _)

theorem eventRound_extends (h : n ≤ m) (timeout : Int) (numEvents : Int32) :
    Extends (eventRound n timeout numEvents : M σ Round) (eventRound m timeout numEvents) := by
  refine .next fun _ => .next fun _ => .bind (.ite (.refl _) (readEvents_extends h _ _)) fun ready => ?_
  exact .ite (.refl _) (.first (decodeEvent_extends h))

theorem nextEventsLoop_extends (h : n ≤ m) (timeout : Int) (numEvents : Int32) :
    Extends (nextEventsLoop timeout numEvents n : M σ Bool) (nextEventsLoop timeout numEvents m) := by
  induction n generalizing m with
  | zero => exact .fault _ _
  | succ n ih =>
      obtain ⟨m, rfl⟩ := Nat.exists_eq_add_of_le' (Nat.le_of_add_left_le h)
      refine .bind (eventRound_extends (by omega) _ _) fun round => ?_
      cases round with
      | fail | event => exact .refl _
      | skip => exact ih (by omega)

theorem nextEvents_extends (h : n ≤ m) (timeout : Int) (numEvents : Int32) :
    Extends (nextEvents n timeout numEvents : M σ (Option Event)) (nextEvents m timeout numEvents) :=
  .first (.next fun _ => .next fun _ => .ite (.refl _) (nextEventsLoop_extends h _ _))

end InotifyTools
