import InotifyTools.Proofs.Inotify
import InotifyTools.Proofs.Kernel

set_option autoImplicit false

/-! # What a new watch is found under

After a successful `watch_file` the new watch is found under its descriptor and under its name as far
as these were free: `create_watch` keeps an entry that is already there. -/

namespace InotifyTools

variable {σ : Type} [Sys σ]

/-- The descriptor the kernel answers with. -/
def answeredWd (w : World σ) (fname : Bytes) (events : Int32) : Int32 :=
  (addAnswer w (cstring fname) events).1

/-- The name the watch is to be stored under. -/
def answeredName (w : World σ) (fname : Bytes) (events : Int32) : Bytes :=
  storedAs (cstring fname) (addAnswer w (cstring fname) events).2

/-- Watching the file succeeds and the watch is then found under both keys. -/
def FoundUnderBoth (fuel : Nat) (w : World σ) (fname : Bytes) (events : Int32) : Prop :=
  ∃ w', watchFile fuel fname events w = .ok (true, w') ∧
    wdFromFilename (answeredName w fname events) w' = .ok (answeredWd w fname events, w') ∧
    filenameFromWd (answeredWd w fname events) w' = .ok (answeredName w fname events, w')

theorem storedName_noNul (p : CString) (isDir : Bool) : 0 ∉ (storedName p.bytes isDir).1 := by
  have hslash : (0 : UInt8) ≠ slash := by decide
  unfold storedName
  split
  · exact p.noNul
  · split
    · exact p.noNul
    · simp [p.noNul, hslash]

theorem acceptedWatch_filename (w : World σ) (fname : Bytes) (events : Int32) :
    (acceptedWatch w fname events).filename.bytes = answeredName w fname events :=
  bytes_cstring (storedName_noNul _ _)

/-- **What a new watch is found under.** In inotify mode, when the kernel accepts a file with a
    positive descriptor: the name leads to that descriptor exactly when the name is not empty and was
    free or led there already, and the descriptor leads to the name exactly when the descriptor was
    free or led there already. -/
theorem watched_found {env : σ → σ → Prop} (hz : ¬ AnsweredZero σ) {w : World σ}
    (h : Reachable env w) (hi : w.lib.initialized = true) (hm : w.lib.fanotifyMode = false)
    (fuel : Nat) (fname : Bytes) (events : Int32) (hwd : 0 < answeredWd w fname events) :
    ∃ w', watchFile fuel fname events w = .ok (true, w') ∧
      (wdFromFilename (answeredName w fname events) w' = .ok (answeredWd w fname events, w') ↔
        answeredName w fname events ≠ [] ∧
          (w.lib.store.wdOf (answeredName w fname events) = none ∨
            w.lib.store.wdOf (answeredName w fname events) = some (answeredWd w fname events))) ∧
      (filenameFromWd (answeredWd w fname events) w' = .ok (answeredName w fname events, w') ↔
        w.lib.store.nameOf (answeredWd w fname events) = none ∨
          w.lib.store.nameOf (answeredWd w fname events) = some (answeredName w fname events)) := by
  have hw := h.inotify hz hi hm
  obtain ⟨w', hrun, hleaves⟩ := watchFile_watched hw hwd fuel
  have hw' : Inotify w' :=
    hw.leaves hleaves (hw.wellIndexed.insert _) (hw.plain.insert hw.wellIndexed rfl)
  have hname := acceptedWatch_filename w fname events
  have hkey : (acceptedWatch w fname events).wd = answeredWd w fname events := rfl
  have hzero : answeredWd w fname events ≠ 0 := by grind
  have hneg : answeredWd w fname events ≠ -1 := by grind
  refine ⟨w', hrun, ?_, ?_⟩
  · rw [wdFromFilename_run hw'.storedNames, hleaves.store, Store.wdOf_insert hw.wellIndexed, if_pos hname, hkey]
    cases w.lib.store.wdOf (answeredName w fname events) with
    | none => by_cases hempty : answeredName w fname events = [] <;> simp [hempty, Ne.symm hneg]
    | some wd => by_cases hempty : answeredName w fname events = [] <;> simp [hempty, Ne.symm hneg]
  · rw [filenameFromWd_run hw'.storedNames, hleaves.store, Store.nameOf_insert hw.wellIndexed, if_pos hkey,
      hname, if_neg hzero]
    cases w.lib.store.nameOf (answeredWd w fname events) <;> simp

/-! ## On the desk -/

/-- The directory `d` is watched. -/
def deskWatching (d : Bytes) : World Desk :=
  World.after 9 { lib := Inotifytools.new, os := { dirs := [d] } }
    [.init false false 0, .watchFiles [d] 2]

/-- The directory `d` was watched, deleted and created again: the kernel has forgotten it. -/
def deskRecreated (d : Bytes) : World Desk :=
  let w := deskWatching d
  { lib := w.lib, os := { w.os with watched := [] } }

theorem deskWatching_reachable (env : Desk → Desk → Prop) (d : Bytes) :
    Reachable env (deskWatching d) := ⟨_, World.run_after env 9 _ _⟩

/-- On a directory created again: the name still leads to the old descriptor. -/
theorem recreated_not_found : ∃ w : World Desk, Reachable Desk.Forgets w ∧
    w.lib.initialized = true ∧ w.lib.fanotifyMode = false ∧ 0 < answeredWd w (ascii "d") 2 ∧
      ¬ FoundUnderBoth 9 w (ascii "d") 2 := by
  refine ⟨deskRecreated (ascii "d"), ?_, by decide +kernel, by decide +kernel, by decide +kernel, ?_⟩
  · obtain ⟨os, hrun⟩ := deskWatching_reachable Desk.Forgets (ascii "d")
    exact ⟨os, hrun.tail (.env _ (List.nil_subset _))⟩
  · rintro ⟨w', hwatch, hfound, -⟩
    have hresult := Prog.result_bind (f := fun _ : Bool =>
      wdFromFilename (answeredName (deskRecreated (ascii "d")) (ascii "d") 2)) hwatch
    rw [Prog.result_of_ok hfound] at hresult
    exact absurd hresult (by decide +kernel)

/-- A directory watched again under the name it is stored under. -/
theorem watched_found_desk :
    let w := deskWatching (ascii "d")
    ∃ w', watchFile 9 (ascii "d") 2 w = .ok (true, w') ∧
      wdFromFilename (ascii "d/") w' = .ok (1, w') ∧
      filenameFromWd 1 w' = .ok (ascii "d/", w') := by
  obtain ⟨w', hrun, hwd, hname⟩ := watched_found Desk.kernelWatches.not_answeredZero
    (deskWatching_reachable Desk.Forgets (ascii "d")) (by decide +kernel) (by decide +kernel) 9
    (ascii "d") 2 (by decide +kernel)
  have hn : answeredName (deskWatching (ascii "d")) (ascii "d") 2 = ascii "d/" := by decide +kernel
  have hw : answeredWd (deskWatching (ascii "d")) (ascii "d") 2 = 1 := by decide +kernel
  rw [hn, hw] at hwd hname
  exact ⟨w', hrun, hwd.2 ⟨by decide, .inr (by decide +kernel)⟩, hname.2 (.inr (by decide +kernel))⟩

end InotifyTools
