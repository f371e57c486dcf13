import InotifyTools.Proofs.Kernel
import InotifyTools.Proofs.Inotify

set_option autoImplicit false

/-! # Operations that fail

What an operation that returns false leaves of the handle with inotify: everything, unless a filter is
replaced. -/

namespace InotifyTools

variable {σ : Type} [Sys σ] {w w' : World σ}

/-- The operations that can be refused. -/
inductive Fallible
  | watchFile (filename : Bytes) (events : Int32)
  | removeWatchByWd (wd : Int32)
  | removeWatchByFilename (filename : Bytes)
  | ignoreEventsByRegex (pattern : Option Bytes) (flags recursive : Int32)
  | ignoreEventsByInvertedRegex (pattern : Option Bytes) (flags recursive : Int32)

namespace Fallible

/-- What the operation does. -/
def run (fuel : Nat) : Fallible → M σ Bool
  | watchFile filename events => InotifyTools.watchFile fuel filename events
  | removeWatchByWd wd => InotifyTools.removeWatchByWd wd
  | removeWatchByFilename filename => InotifyTools.removeWatchByFilename filename
  | ignoreEventsByRegex pattern flags recursive =>
      InotifyTools.ignoreEventsByRegex pattern flags recursive
  | ignoreEventsByInvertedRegex pattern flags recursive =>
      InotifyTools.ignoreEventsByInvertedRegex pattern flags recursive

/-- No filter is installed that the operation could replace, and the polarity and the recursion flag
    it sets are there already. -/
def Spares (l : Inotifytools) : Fallible → Prop
  | ignoreEventsByRegex _ _ recursive =>
      l.regex = none ∧ l.invertRegexp = false ∧ l.recursiveWatch = recursive
  | ignoreEventsByInvertedRegex _ _ recursive =>
      l.regex = none ∧ l.invertRegexp = true ∧ l.recursiveWatch = recursive
  | _ => True

end Fallible

/-- The handle is as it was, but for the error number. -/
def Unchanged (w w' : World σ) : Prop := ∃ e, w'.lib = { w.lib with error := e }

omit [Sys σ] in
theorem Leaves.unchanged (h : Leaves w w.lib.store w') : Unchanged w w' := by
  obtain ⟨e, os, rfl⟩ := h
  exact ⟨e, rfl⟩

/-! ## Watches -/

/-- The kernel refuses a file, or it is watched. -/
theorem watchFile_failed (hz : ¬ AnsweredZero σ) (h : Inotify w) {fname : Bytes} {events : Int32}
    {fuel : Nat} (hrun : watchFile fuel fname events w = .ok (false, w')) : Unchanged w w' := by
  by_cases hneg : (addAnswer w (cstring fname) events).1 < 0
  · obtain ⟨w₁, hrun', hleaves⟩ := watchFile_refused h hneg fuel
    cases hrun'.symm.trans hrun
    exact hleaves.unchanged
  · have hne : (addAnswer w (cstring fname) events).1 ≠ 0 := fun he => hz ⟨_, _, _, _, he⟩
    have hpos : 0 < (addAnswer w (cstring fname) events).1 := by grind
    obtain ⟨w₁, hrun', -⟩ := watchFile_watched h hpos fuel
    cases hrun'.symm.trans hrun

/-- The kernel keeps a watch, and so does the store. -/
theorem removeWatch_failed (h : Inotify w) {id : Option Nat}
    (hid : ∀ i, id = some i → w.lib.store.Listed i)
    (hrun : removeWatch id w = .ok (false, w')) : Unchanged w w' := by
  cases id with
  | none =>
      rw [removeWatch_missing h.initialized] at hrun
      cases hrun
  | some i =>
      obtain ⟨v, hv⟩ : ∃ v, w.lib.store.watches[i]? = some v := by
        rcases hid i rfl with ⟨wd, hwd⟩ | ⟨n, hn⟩
        · obtain ⟨v, hv, -⟩ := h.wellIndexed.found_wd hwd
          exact ⟨v, hv⟩
        · obtain ⟨v, hv, -⟩ := h.wellIndexed.found_filename hn
          exact ⟨v, hv⟩
      obtain ⟨w₁, hrun', hleaves⟩ := removeWatch_run h.initialized hv (h.plain i v (hid i rfl) hv)
      rw [hrun'] at hrun
      obtain ⟨haccepted, rfl⟩ := Prod.mk.inj (Except.ok.inj hrun)
      rw [if_neg (of_decide_eq_false haccepted)] at hleaves
      exact hleaves.unchanged

/-! ## Filters -/

/-- A pattern that does not compile has replaced the filter. -/
theorem doIgnoreEventsByRegex_failed {pattern : Option Bytes} {flags : Int32} {invert : Bool}
    {recursive : Int32} (hrun : doIgnoreEventsByRegex pattern flags invert recursive w = .ok (false, w')) :
    w'.lib = { w.lib with regex := none, invertRegexp := invert, recursiveWatch := recursive
                          error := einval } := by
  unfold doIgnoreEventsByRegex at hrun
  cases pattern with
  | none => cases hrun
  | some pattern =>
      dsimp only at hrun
      obtain ⟨_, w₁, hset, hrun⟩ := Prog.bind_ok hrun
      cases hset
      rw [call_bind] at hrun
      generalize (Sys.regcomp (cstring pattern) (flags ||| regNosub) w.os).1 = compiled at hrun
      cases compiled with
      | some re => cases hrun
      | none =>
          cases hrun
          rfl

omit [Sys σ] in
/-- Replacing the filter changes nothing exactly when there was none, with the same flags. -/
theorem unchanged_iff_spares {invert : Bool} {recursive : Int32}
    (h : w'.lib = { w.lib with regex := none, invertRegexp := invert, recursiveWatch := recursive
                               error := einval }) :
    Unchanged w w' ↔
      w.lib.regex = none ∧ w.lib.invertRegexp = invert ∧ w.lib.recursiveWatch = recursive := by
  unfold Unchanged
  rw [h]
  constructor
  · rintro ⟨e, he⟩
    have hregex := congrArg Inotifytools.regex he
    have hinvert := congrArg Inotifytools.invertRegexp he
    have hrecursive := congrArg Inotifytools.recursiveWatch he
    exact ⟨hregex.symm, hinvert.symm, hrecursive.symm⟩
  · rintro ⟨hregex, rfl, rfl⟩
    exact ⟨einval, by rw [← hregex]⟩

/-- **An operation that fails leaves the handle alone, unless it replaces a filter.** With inotify, the
    watches, the statistics, what is buffered and the filter are as they were exactly when no filter was
    installed that the operation has overwritten. -/
theorem failed_unchanged {env : σ → σ → Prop} (hz : ¬ AnsweredZero σ) (h : Reachable env w)
    (hi : w.lib.initialized = true) (hm : w.lib.fanotifyMode = false) (o : Fallible) (fuel : Nat)
    (hrun : o.run fuel w = .ok (false, w')) : Unchanged w w' ↔ o.Spares w.lib := by
  have hw := h.inotify hz hi hm
  cases o with
  | watchFile fname events => exact iff_of_true (watchFile_failed hz hw hrun) trivial
  | removeWatchByWd wd =>
      exact iff_of_true (removeWatch_failed hw (fun i hi => .inl ⟨wd, hi⟩) hrun) trivial
  | removeWatchByFilename n =>
      exact iff_of_true (removeWatch_failed hw (fun i hi => .inr ⟨n, hi⟩) hrun) trivial
  | ignoreEventsByRegex => exact unchanged_iff_spares (doIgnoreEventsByRegex_failed hrun)
  | ignoreEventsByInvertedRegex => exact unchanged_iff_spares (doIgnoreEventsByRegex_failed hrun)

/-- A handle that ignores events by the pattern "tmp". -/
def filteredDesk : World Desk :=
  World.after 9 { lib := Inotifytools.new, os := {} }
    [.init false false 0, .ignoreEventsByRegex (some (ascii "tmp")) 0 0]

/-- A pattern that does not compile removes the filter that was installed before. -/
theorem failed_filter_lost :
    filteredDesk.lib.initialized = true ∧ filteredDesk.lib.fanotifyMode = false ∧
      filteredDesk.lib.regex.isSome = true ∧
      ∃ w', (Fallible.ignoreEventsByRegex (some (ascii "[")) 0 0).run 9 filteredDesk
          = .ok (false, w') ∧ w'.lib.regex.isSome = false ∧ ¬ Unchanged filteredDesk w' := by
  have hsome : filteredDesk.lib.regex.isSome = true := by decide +kernel
  have hfailed : (ignoreEventsByRegex (some (ascii "[")) 0 0 : M Desk Bool).result filteredDesk
      = some false := by decide +kernel
  have hrun := World.after_of_result 9 (.ignoreEventsByRegex (some (ascii "[")) 0 0) rfl hfailed
  refine ⟨by decide +kernel, by decide +kernel, hsome, _, hrun, by decide +kernel, ?_⟩
  intro hsame
  have hnone := ((unchanged_iff_spares (doIgnoreEventsByRegex_failed hrun)).1 hsame).1
  rw [hnone] at hsome
  cases hsome

/-- A kernel without the watch refuses its removal, and everything stays as it was. -/
theorem failed_unchanged_desk :
    let w := World.after 9 { lib := Inotifytools.new, os := ({} : Desk) }
      [.init false false 0, .watchFiles [ascii "f"] 2]
    let w₁ : World Desk := { w with os := { w.os with watched := [] } }
    ∃ w', (Fallible.removeWatchByWd 1).run 9 w₁ = .ok (false, w') ∧ Unchanged w₁ w' := by
  intro w w₁
  have hreach : Reachable Desk.Forgets w₁ :=
    ⟨_, (World.run_after Desk.Forgets 9 _ _).tail (.env w (List.nil_subset _))⟩
  have hfailed : (removeWatchByWd 1 : M Desk Bool).result w₁ = some false := by decide +kernel
  have hrun := World.after_of_result 9 (.removeWatchByWd 1) rfl hfailed
  refine ⟨_, hrun, ?_⟩
  exact (failed_unchanged Desk.kernelWatches.not_answeredZero hreach (by decide +kernel)
    (by decide +kernel) (.removeWatchByWd 1) 9 hrun).2 trivial

end InotifyTools
