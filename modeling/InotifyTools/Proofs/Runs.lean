import InotifyTools.Implementation.Watching
import InotifyTools.Proofs.Effects

set_option autoImplicit false

/-! # What the bookkeeping operations return

Each operation on the watch store as an equation: the result and the world it leaves. -/

namespace InotifyTools

variable {σ α β : Type} {w : World σ}

/-! ## Primitive programs -/

theorem setStore_run (s : Store) (w : World σ) :
    setStore s w = .ok ((), { w with lib := { w.lib with store := s } }) := rfl

theorem getLib_bind (f : Inotifytools → M σ α) (w : World σ) : (getLib >>= f) w = f w.lib w := rfl

theorem call_bind (f : σ → α × σ) (g : α → M σ β) (w : World σ) :
    (call f >>= g) w = g (f w.os).1 { w with os := (f w.os).2 } := rfl

variable [Sys σ]

/-! ## Initialisation -/

/-- Opening the descriptor: a group first asks for the process id. -/
theorem openDescriptor_run (fanotify watchFilesystem : Bool) (w : World σ) :
    ∃ pid mark os₁ fd os, Relation.ReflTransGen QuietCall w.os os₁ ∧ Opened fanotify os₁ fd os ∧
      (fanotify = false → pid = w.lib.selfPid ∧ mark = w.lib.fanotifyMarkType) ∧
      openDescriptor fanotify watchFilesystem w =
        .ok (fd, { lib := { w.lib with selfPid := pid, fanotifyMarkType := mark
                                       fanotifyMode := fanotify }
                   os }) := by
  cases fanotify with
  | false => exact ⟨_, _, _, _, _, .refl, .inotify w.os, fun _ => ⟨rfl, rfl⟩, rfl⟩
  | true => exact ⟨_, _, _, _, _, .single (.getpid w.os), .fanotify _ _, nofun, rfl⟩

/-- Initialising a handle that is not initialised: the instance is opened and the indexes are
    cleared, or only the error is recorded. -/
theorem init_run (hi : w.lib.initialized = false) (fanotify watchFilesystem : Bool)
    (verbose : Int32) :
    ∃ pid mark os₁ fd os, Relation.ReflTransGen QuietCall w.os os₁ ∧ Opened fanotify os₁ fd os ∧
      (fanotify = false → pid = w.lib.selfPid ∧ mark = w.lib.fanotifyMarkType) ∧
      init fanotify watchFilesystem verbose w =
        if fd < 0 then
          .ok (false, { lib := { w.lib with error := Sys.errno os, verbosity := verbose
                                            selfPid := pid, fanotifyMarkType := mark
                                            fanotifyMode := fanotify, fd }
                        os })
        else
          .ok (true, { lib := { w.lib with error := 0, verbosity := verbose
                                           selfPid := pid, fanotifyMarkType := mark
                                           fanotifyMode := fanotify, fd, collectStats := false
                                           initialized := true
                                           store := w.lib.store.clearIndexes, timefmt := none }
                       os }) := by
  let w₁ : World σ := { w with lib := { w.lib with error := 0, verbosity := verbose } }
  obtain ⟨pid, mark, os₁, fd, os, hcalls, hopen, hkeep, hrun⟩ :=
    openDescriptor_run fanotify watchFilesystem w₁
  refine ⟨pid, mark, os₁, fd, os, hcalls, hopen, hkeep, ?_⟩
  unfold init
  rw [getLib_bind, if_neg (by rw [hi]; decide)]
  show (openDescriptor fanotify watchFilesystem >>= _) w₁ = _
  rw [Prog.bind_run_ok hrun]
  by_cases hfd : fd < 0
  · rw [if_pos hfd, if_pos hfd]
    rfl
  · rw [if_neg hfd, if_neg hfd]
    rfl

/-! ## Watches -/

omit [Sys σ] in
theorem watch_run {id : Nat} {v : Watch} (hv : w.lib.store.watches[id]? = some v) :
    watch id w = .ok (v, w) := by
  unfold watch
  rw [getLib_bind, hv]
  rfl

omit [Sys σ] in
theorem renameWatch_run {id : Nat} {v : Watch} (hv : w.lib.store.watches[id]? = some v)
    (n : Bytes) : renameWatch id n w =
      .ok ((), { w with lib := { w.lib with store := w.lib.store.rename id v (cstring n) } }) := by
  unfold renameWatch
  rw [Prog.bind_run_ok (watch_run hv)]
  rfl

/-- The message about a watch the kernel refused to remove. -/
def removalRefused (v : Watch) (status : Int32) (os : σ) : σ :=
  Sys.fwrite .stderr (cat [.text "Failed to remove watch on ", .bytes v.filename.bytes,
    .text ": ", .bytes (Sys.strerror σ status), .text "\n"]) os

/-- Removing a watch without a fid asks the kernel; one with a fid has no kernel object. -/
theorem removeInotifyWatch_run {id : Nat} {v : Watch} (hv : w.lib.store.watches[id]? = some v) :
    removeInotifyWatch id w =
      if v.fid.isSome then .ok (false, { w with lib := { w.lib with error := 0 } })
      else
        let r := Sys.inotifyRmWatch w.lib.fd v.wd w.os
        if r.1 < 0 then
          .ok (false, { lib := { w.lib with error := r.1 }, os := removalRefused v r.1 r.2 })
        else .ok (true, { lib := { w.lib with error := 0 }, os := r.2 }) := by
  unfold removeInotifyWatch
  rw [Prog.bind_run_ok (rfl : setError 0 w = .ok ((), { w with lib := { w.lib with error := 0 } })),
    Prog.bind_run_ok (watch_run (w := { w with lib := { w.lib with error := 0 } }) hv)]
  split
  · rfl
  · rw [getLib_bind, call_bind]
    dsimp only
    split <;> rfl

theorem destroyWatch_run {id : Nat} {v : Watch} (hv : w.lib.store.watches[id]? = some v) :
    destroyWatch id w = dropWatch v
      { w with lib := { w.lib with store := w.lib.store.remove id v } } := by
  unfold destroyWatch
  rw [Prog.bind_run_ok (watch_run hv)]
  rfl

/-- `w` with another store. -/
def World.withStore (w : World σ) (s : Store) : World σ :=
  { w with lib := { w.lib with store := s } }

/-- Entering a watch that some index takes. -/
theorem enterWatch_accepted {v : Watch} {w : World σ} (ha : w.lib.store.accepts v = true) :
    enterWatch v w = .ok ((), w.withStore (w.lib.store.insert v)) := by
  unfold enterWatch
  rw [getLib_bind, Prog.bind_run_ok (setStore_run _ w), if_pos ha]
  rfl

/-- Entering a watch without a directory of its own. -/
theorem enterWatch_run {v : Watch} (hv : v.dirf = 0) (w : World σ) :
    enterWatch v w = .ok ((), w.withStore (w.lib.store.insert v)) := by
  by_cases ha : w.lib.store.accepts v = true
  · exact enterWatch_accepted ha
  · unfold enterWatch
    rw [getLib_bind, Prog.bind_run_ok (setStore_run _ w), if_neg ha]
    unfold dropWatch
    rw [if_neg (by simp [hv])]
    rfl

/-- Registering a watch the kernel numbered, without a directory of its own. -/
theorem createWatch_run {wd : Int32} (hwd : 0 < wd) (fuel : Nat) (fid : Option Bytes)
    (filename : Bytes) (w : World σ) :
    createWatch fuel wd fid filename 0 w =
      .ok (some wd, w.withStore (w.lib.store.insert (Watch.mk fid (cstring filename) wd 0 {}))) := by
  have hneg : ¬ wd < 0 := by grind
  have hne : wd ≠ 0 := by grind
  unfold createWatch assignWd
  rw [if_neg hneg, if_pos hne, Prog.pure_bind, Prog.bind_run_ok (enterWatch_run rfl w)]
  rfl

/-! ## Watching files -/

/-- Whether the answer of `lstat` is that of a directory. -/
def isDirMode : Option UInt32 → Bool
  | none => false
  | some mode => mode &&& sIfmt = sIfdir

/-- `isdir` changes nothing in the handle, and its answer is that of `lstat`. -/
theorem isdir_run (p : Bytes) (w : World σ) :
    ∃ os, Relation.ReflTransGen QuietCall w.os os ∧
      isdir p w = .ok (isDirMode (Sys.lstat (cstring p) w.os).1, { w with os }) := by
  have hstat : QuietCall w.os (Sys.lstat (cstring p) w.os).2 := .lstat _ _
  unfold isdir
  rw [call_bind]
  cases hr : (Sys.lstat (cstring p) w.os).1 with
  | some mode => exact ⟨_, .single hstat, rfl⟩
  | none =>
      show ∃ os, _ ∧ (errno >>= _) _ = _
      rw [Prog.bind_run_ok (rfl : errno _ = .ok (Sys.errno (Sys.lstat (cstring p) w.os).2, _)),
        Prog.bind_run_ok (rfl : strerror _ _ = .ok (_, _))]
      by_cases he : Sys.errno (Sys.lstat (cstring p) w.os).2 ≠ enoent
      · rw [if_pos he]
        exact ⟨_, .tail (.single hstat) (.fwrite _ _ _), rfl⟩
      · rw [if_neg he]
        exact ⟨_, .single hstat, rfl⟩

/-- The name under which `p` is stored, given what `lstat` says of it. -/
def storedAs (p : CString) (os : σ) : Bytes :=
  (storedName p.bytes (isDirMode (Sys.lstat p os).1)).1

/-- The watch entered for `p` when the kernel numbered it `wd`. -/
def numberedWatch (p : CString) (wd : Int32) (os : σ) : Watch :=
  Watch.mk none (cstring (storedAs p os)) wd 0 {}

/-- A file the kernel numbered is entered under that number, after `lstat` and its messages. -/
theorem storeWatch_run {wd : Int32} (hwd : 0 < wd) (fuel : Nat) (p : CString) (w : World σ) :
    ∃ os, Relation.ReflTransGen QuietCall w.os os ∧
      storeWatch fuel p wd w =
        .ok (true, { lib := { w.lib with store := w.lib.store.insert (numberedWatch p wd w.os) }
                     os }) := by
  obtain ⟨os, hos, hdir⟩ := isdir_run p.bytes w
  rw [cstring_bytes] at hdir
  refine ⟨os, hos, ?_⟩
  have hne : wd ≠ 0 := by grind
  unfold storeWatch
  rw [Prog.bind_run_ok hdir]
  unfold watchFid
  dsimp only
  rw [if_pos hne]
  show (createWatch fuel wd none (storedAs p w.os) 0 >>= fun _ => pure true) _ = _
  rw [Prog.bind_run_ok (createWatch_run hwd fuel none _ _)]
  rfl

theorem addWatch_run_inotify (hm : w.lib.fanotifyMode = false) (p : CString) (events : Int32) :
    addWatch p events w =
      .ok (((Sys.inotifyAddWatch w.lib.fd p events.toUInt32 w.os).1, events),
        { w with os := (Sys.inotifyAddWatch w.lib.fd p events.toUInt32 w.os).2 }) := by
  unfold addWatch
  rw [getLib_bind]
  dsimp only
  rw [if_neg (by rw [hm]; decide)]
  rfl

/-- With fanotify the file is marked, and the flag for not following links leaves the mask. -/
theorem addWatch_run_fanotify (hm : w.lib.fanotifyMode = true) (p : CString) (events : Int32) :
    ∃ (flags : UInt32) (mask : UInt64) (events' : Int32), addWatch p events w =
      .ok (((Sys.fanotifyMark w.lib.fd flags mask p w.os).1, events'),
        { w with os := (Sys.fanotifyMark w.lib.fd flags mask p w.os).2 }) := by
  unfold addWatch
  rw [getLib_bind]
  dsimp only
  rw [if_pos hm]
  exact ⟨_, _, _, rfl⟩

/-- What the kernel answers when a handle asks it to watch `p`. -/
def addAnswer (w : World σ) (p : CString) (events : Int32) : Int32 × σ :=
  Sys.inotifyAddWatch w.lib.fd p events.toUInt32 w.os

/-- The kernel accepts a file: the watch is entered under the number it answers. -/
theorem watchOne_run_watched (hm : w.lib.fanotifyMode = false) {fname : Bytes} {events : Int32}
    (hwd : 0 < (addAnswer w (cstring fname) events).1) (fuel : Nat) :
    ∃ os, Relation.ReflTransGen QuietCall (addAnswer w (cstring fname) events).2 os ∧
      watchOne fuel fname events w = .ok ((true, events),
        { lib := { w.lib with
            store := w.lib.store.insert
              (numberedWatch (cstring fname) (addAnswer w (cstring fname) events).1
                (addAnswer w (cstring fname) events).2) }
          os }) := by
  let r := addAnswer w (cstring fname) events
  obtain ⟨os, hos, hrun⟩ := storeWatch_run hwd fuel (cstring fname) { w with os := r.2 }
  refine ⟨os, hos, ?_⟩
  unfold watchOne
  refine (Prog.bind_run_ok (addWatch_run_inotify hm (cstring fname) events)).trans ?_
  show (if r.1 < 0 then _ else _ : M σ (Bool × Int32)) _ = _
  rw [if_neg (by grind)]
  exact Prog.bind_run_ok hrun

/-- The kernel refuses a file: at most the error number is set. -/
theorem watchOne_run_refused (hm : w.lib.fanotifyMode = false) {fname : Bytes} {events : Int32}
    (hwd : (addAnswer w (cstring fname) events).1 < 0) (fuel : Nat) :
    ∃ error os, Relation.ReflTransGen QuietCall (addAnswer w (cstring fname) events).2 os ∧
      watchOne fuel fname events w =
        .ok ((false, events), { lib := { w.lib with error }, os }) := by
  let r := addAnswer w (cstring fname) events
  have hrun : watchOne fuel fname events w =
      (watchRefused (cstring fname).bytes r.1 >>= fun _ => pure (false, events))
        { w with os := r.2 } := by
    unfold watchOne
    refine (Prog.bind_run_ok (addWatch_run_inotify hm (cstring fname) events)).trans ?_
    show (if r.1 < 0 then _ else _ : M σ (Bool × Int32)) _ = _
    rw [if_pos hwd]
    rfl
  unfold watchRefused at hrun
  by_cases he : r.1 = -1
  · rw [if_pos he] at hrun
    exact ⟨_, _, .refl, hrun⟩
  · rw [if_neg he] at hrun
    exact ⟨_, _, .single (.fwrite _ _ _), hrun⟩

end InotifyTools
