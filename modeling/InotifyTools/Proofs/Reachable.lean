import InotifyTools.Implementation.Desk
import InotifyTools.Proofs.SoundEvents

set_option autoImplicit false

/-! # Runs of the library

The public operations as data, the steps a handle takes (an operation, or something that happens to
the operating system meanwhile), and what holds in every state a handle can reach. -/

namespace InotifyTools

open Relation

variable {σ : Type} [Sys σ]

/-! ## Operations and runs -/

/-- The public operations. -/
inductive Op
  | init (fanotify watchFilesystem : Bool) (verbose : Int32)
  | cleanup
  | watchFiles (filenames : List Bytes) (events : Int32)
  | watchRecursivelyWithExclude (path : Bytes) (events : Int32) (excludeList : List Bytes)
  | setFilenameByWd (wd : Int32) (filename : Bytes)
  | setFilenameByFilename (oldname newname : Bytes)
  | replaceFilename (oldname newname : Bytes)
  | removeWatchByWd (wd : Int32)
  | removeWatchByFilename (filename : Bytes)
  | nextEvents (timeout : Int) (numEvents : Int32)
  | initializeStats
  | ignoreEventsByRegex (pattern : Option Bytes) (flags recursive : Int32)
  | ignoreEventsByInvertedRegex (pattern : Option Bytes) (flags recursive : Int32)
  | setPrintfTimefmt (fmt : Bytes)
  | clearTimefmt
  | filenameFromWd (wd : Int32)
  | filenameFromEvent (ev : Event)
  | dirpathFromEvent (ev : Event)
  | filenameFromWatch (id : Nat)
  | wdFromFilename (filename : Bytes)
  | getNumWatches
  | getStatByWd (wd event : Int32)
  | getStatByFilename (filename : Bytes) (event : Int32)
  | getStatTotal (event : Int32)
  | watchesSortedByEvent (sortEvent : Int32)
  | eventToStrSep (events : Int32) (sep : UInt8)
  | snprintf (out : NString) (size : Int32) (ev : Event) (fmt : Option Bytes)
  | fprintfTo (file : Stream) (ev : Event) (fmt : Option Bytes)

/-- Run a program for its effects. -/
def runFor {α : Type} (m : M σ α) : M σ Unit := do
  let _ ← m
  return ()

omit [Sys σ] in
theorem runFor_unit (m : M σ Unit) : runFor m = m := by
  funext w
  show (m >>= fun _ => pure ()) w = m w
  rw [Prog.bind_run]
  cases m w <;> rfl

/-- What an operation does, with `fuel` for its loops. -/
def Op.run (fuel : Nat) : Op → M σ Unit
  | .init fanotify fs verbose => runFor (InotifyTools.init fanotify fs verbose)
  | .cleanup => InotifyTools.cleanup
  | .watchFiles filenames events => runFor (InotifyTools.watchFiles fuel filenames events)
  | .watchRecursivelyWithExclude path events excludeList =>
      runFor (InotifyTools.watchRecursivelyWithExclude fuel path events excludeList)
  | .setFilenameByWd wd filename => InotifyTools.setFilenameByWd wd filename
  | .setFilenameByFilename oldname newname => InotifyTools.setFilenameByFilename oldname newname
  | .replaceFilename oldname newname => InotifyTools.replaceFilename oldname newname
  | .removeWatchByWd wd => runFor (InotifyTools.removeWatchByWd wd)
  | .removeWatchByFilename filename => runFor (InotifyTools.removeWatchByFilename filename)
  | .nextEvents timeout numEvents => runFor (InotifyTools.nextEvents fuel timeout numEvents)
  | .initializeStats => InotifyTools.initializeStats
  | .ignoreEventsByRegex pattern flags recursive =>
      runFor (InotifyTools.ignoreEventsByRegex pattern flags recursive)
  | .ignoreEventsByInvertedRegex pattern flags recursive =>
      runFor (InotifyTools.ignoreEventsByInvertedRegex pattern flags recursive)
  | .setPrintfTimefmt fmt => InotifyTools.setPrintfTimefmt fmt
  | .clearTimefmt => InotifyTools.clearTimefmt
  | .filenameFromWd wd => runFor (InotifyTools.filenameFromWd wd)
  | .filenameFromEvent ev => runFor (InotifyTools.filenameFromEvent ev)
  | .dirpathFromEvent ev => runFor (InotifyTools.dirpathFromEvent ev)
  | .filenameFromWatch id => runFor (InotifyTools.filenameFromWatch id)
  | .wdFromFilename filename => runFor (InotifyTools.wdFromFilename filename)
  | .getNumWatches => runFor InotifyTools.getNumWatches
  | .getStatByWd wd event => runFor (InotifyTools.getStatByWd wd event)
  | .getStatByFilename filename event => runFor (InotifyTools.getStatByFilename filename event)
  | .getStatTotal event => runFor (InotifyTools.getStatTotal event)
  | .watchesSortedByEvent sortEvent => runFor (InotifyTools.watchesSortedByEvent sortEvent)
  | .eventToStrSep events sep => runFor (InotifyTools.eventToStrSep events sep)
  | .snprintf out size ev fmt => runFor (InotifyTools.snprintf out size ev fmt)
  | .fprintfTo file ev fmt => runFor (InotifyTools.fprintfTo file ev fmt)

/-- A step of a handle: an operation that returns, or a change of the operating system that `env`
    allows. -/
inductive Step (env : σ → σ → Prop) : World σ → World σ → Prop
  | op {w w' : World σ} (fuel : Nat) (o : Op) (h : o.run fuel w = .ok ((), w')) : Step env w w'
  | env (w : World σ) {os : σ} (h : env w.os os) : Step env w { w with os }

/-- Any number of steps. -/
abbrev Run (env : σ → σ → Prop) : World σ → World σ → Prop := ReflTransGen (Step env)

/-- A world that a new handle reaches. -/
def Reachable (env : σ → σ → Prop) (w : World σ) : Prop :=
  ∃ os, Run env { lib := Inotifytools.new, os } w

/-- The world after a list of operations, up to the first that does not return. -/
def World.after (fuel : Nat) (w : World σ) : List Op → World σ
  | [] => w
  | o :: ops => match o.run fuel w with
    | .ok (_, w') => w'.after fuel ops
    | .error _ => w

theorem World.run_after (env : σ → σ → Prop) (fuel : Nat) (w : World σ) (ops : List Op) :
    Run env w (w.after fuel ops) := by
  induction ops generalizing w with
  | nil => exact .refl
  | cons o ops ih =>
      unfold World.after
      split
      · next w' h => exact .head (.op fuel o h) (ih w')
      · exact .refl

/-- An operation run for its result leaves the world it leaves when run for its effects. -/
theorem World.after_of_result {α : Type} (fuel : Nat) {w : World σ} (o : Op) {m : M σ α} {a : α}
    (ho : o.run fuel = runFor m) (h : m.result w = some a) : m w = .ok (a, w.after fuel [o]) := by
  unfold Prog.result at h
  split at h
  · next b w' hm =>
      cases h
      have hrun : o.run fuel w = .ok ((), w') := by
        rw [ho]
        exact Prog.bind_run_ok hm
      rw [hm, World.after, hrun]
      rfl
  · cases h

/-! ## Every operation is sound -/

theorem runFor_sound {α : Type} {S : Set Kind} {m : M σ α} (h : Sound S m) : Sound S (runFor m) :=
  .bind h fun _ => .pure ()

/-- The kinds of effects of an operation. -/
def Op.kinds : Op → Set Kind
  | .init .. | .cleanup => {.config, .lifecycle, .stats}
  | .watchFiles .. | .watchRecursivelyWithExclude .. => {.watch}
  | .setFilenameByWd .. | .setFilenameByFilename .. | .replaceFilename .. => {.rename}
  | .removeWatchByWd .. | .removeWatchByFilename .. => {.remove}
  | .nextEvents .. => {.stream, .watch, .stats}
  | .initializeStats => {.stats}
  | .ignoreEventsByRegex .. | .ignoreEventsByInvertedRegex .. => {.config}
  | .setPrintfTimefmt .. | .clearTimefmt => {.config}
  | _ => ∅

/-- **Every operation is sound**, and its effects are of its kinds. -/
theorem Op.run_sound_kinds (fuel : Nat) (o : Op) : Sound o.kinds (o.run fuel : M σ Unit) := by
  cases o with
  | init => exact runFor_sound (init_sound (.inl rfl) (.inr (.inl rfl)) (.inr (.inr rfl)) _ _ _)
  | cleanup => exact cleanup_sound (.inl rfl) (.inr (.inl rfl)) (.inr (.inr rfl))
  | watchFiles => exact runFor_sound (watchFiles_sound (Set.mem_singleton _) nofun _ _ _)
  | watchRecursivelyWithExclude =>
      exact runFor_sound (watchRecursivelyWithExclude_sound (Set.mem_singleton _) nofun _ _ _ _)
  | setFilenameByWd => exact setFilenameByWd_sound (Set.mem_singleton _) _ _
  | setFilenameByFilename => exact setFilenameByFilename_sound (Set.mem_singleton _) _ _
  | replaceFilename => exact replaceFilename_sound (Set.mem_singleton _) _ _
  | removeWatchByWd => exact runFor_sound (removeWatchByWd_sound (Set.mem_singleton _) _)
  | removeWatchByFilename => exact runFor_sound (removeWatchByFilename_sound (Set.mem_singleton _) _)
  | nextEvents =>
      refine runFor_sound (nextEvents_sound (.inl rfl) (.inr (.inl rfl)) ?_ (.inr (.inr rfl)) _ _ _)
      rintro (h | h | h) <;> cases h
  | initializeStats => exact initializeStats_sound (Set.mem_singleton _)
  | ignoreEventsByRegex => exact runFor_sound (doIgnoreEventsByRegex_sound (Set.mem_singleton _) _ _ _ _)
  | ignoreEventsByInvertedRegex => exact runFor_sound (doIgnoreEventsByRegex_sound (Set.mem_singleton _) _ _ _ _)
  | setPrintfTimefmt => exact setPrintfTimefmt_sound (Set.mem_singleton _) _
  | clearTimefmt => exact clearTimefmt_sound (Set.mem_singleton _)
  | filenameFromWd => exact runFor_sound (filenameFromWd_sound _)
  | filenameFromEvent => exact runFor_sound (filenameFromEvent_sound _)
  | dirpathFromEvent => exact runFor_sound (dirpathFromEvent_sound _)
  | filenameFromWatch => exact runFor_sound (filenameFromWatch_sound _)
  | wdFromFilename => exact runFor_sound (wdFromFilename_sound _)
  | getNumWatches => exact runFor_sound getNumWatches_sound
  | getStatByWd => exact runFor_sound (getStatByWd_sound _ _)
  | getStatByFilename => exact runFor_sound (getStatByFilename_sound _ _)
  | getStatTotal => exact runFor_sound (getStatTotal_sound _)
  | watchesSortedByEvent => exact runFor_sound (watchesSortedByEvent_sound _)
  | eventToStrSep => exact runFor_sound (eventToStrSep_sound _ _)
  | snprintf => exact runFor_sound (snprintf_sound _ _ _ _)
  | fprintfTo => exact runFor_sound (fprintfTo_sound _ _ _)

theorem Op.run_sound (fuel : Nat) (o : Op) : Sound Set.univ (o.run fuel : M σ Unit) :=
  (run_sound_kinds fuel o).mono (Set.subset_univ _)

/-- What an operation that returned did. -/
theorem Op.effects {fuel : Nat} {o : Op} {w w' : World σ} (h : o.run fuel w = .ok ((), w'))
    (hw : w.lib.store.WellIndexed) : Effects Set.univ w w' :=
  ((o.run_sound fuel w hw).ok h).1

/-! ## Invariants of runs -/

theorem Step.integrity {env : σ → σ → Prop} {w w' : World σ} (h : Step env w w')
    (hw : w.lib.store.WellIndexed) :
    w'.lib.store.WellIndexed ∧ w.lib.store.Precedes w'.lib.store := by
  cases h with
  | op fuel o h => exact (Op.effects h hw).integrity hw
  | env h => exact ⟨hw, .refl _⟩

theorem Run.integrity {env : σ → σ → Prop} {w w' : World σ} (h : Run env w w')
    (hw : w.lib.store.WellIndexed) :
    w'.lib.store.WellIndexed ∧ w.lib.store.Precedes w'.lib.store := by
  induction h with
  | refl => exact ⟨hw, .refl _⟩
  | tail _ hs ih =>
      obtain ⟨hi, hp⟩ := ih
      obtain ⟨hi', hp'⟩ := hs.integrity hi
      exact ⟨hi', hp.trans hp'⟩

theorem Reachable.wellIndexed {env : σ → σ → Prop} {w : World σ} (h : Reachable env w) :
    w.lib.store.WellIndexed := by
  obtain ⟨os, hrun⟩ := h
  exact (Run.integrity hrun Store.wellIndexed_empty).1

/-- What every effect preserves and no change of the operating system affects holds along a run. -/
theorem Run.preserves {env : σ → σ → Prop} {P : World σ → Prop}
    (effect : ∀ k w w', Effect k w w' → P w → P w')
    (outside : ∀ w os, env w.os os → P w → P { w with os }) {w w' : World σ} (h : Run env w w')
    (hw : w.lib.store.WellIndexed) (hP : P w) : P w' := by
  induction h with
  | refl => exact hP
  | tail hr hs ih =>
      cases hs with
      | env he => exact outside _ _ he ih
      | op fuel o ho =>
          have heffects := Op.effects ho (Run.integrity hr hw).1
          exact heffects.preserves (fun k w₁ w₂ _ he => effect k w₁ w₂ he) ih

/-! ## Store integrity -/

/-- **Index integrity of the watch store.** In every state a handle reaches, whatever the operating
    system answers: each index entry leads to a watch with that key, every id is below the counter;
    no operation looks up an absent watch; and along every further run an id given out so far leads
    to the watch it led to, or to nothing. -/
theorem store_integrity {env : σ → σ → Prop} {w : World σ} (h : Reachable env w) :
    w.lib.store.WellIndexed ∧
      (∀ (fuel : Nat) (o : Op), o.run fuel w ≠ .error .missingWatch) ∧
      ∀ w', Run env w w' → w.lib.store.Precedes w'.lib.store := by
  have hw := h.wellIndexed
  refine ⟨hw, fun fuel o herr => ?_, fun w' hrun => (Run.integrity hrun hw).2⟩
  exact (o.run_sound fuel w hw).error herr rfl

/-- A directory is watched twice under two names, renamed and removed. -/
theorem store_integrity_desk :
    let w := World.after 9 { lib := Inotifytools.new, os := ({ dirs := [ascii "d"] } : Desk) }
      [.init false false 0, .watchFiles [ascii "d", ascii "e", ascii "d/"] 2,
        .setFilenameByWd 1 (ascii "e"), .removeWatchByWd 1]
    w.lib.store.nextId = 4 ∧ w.lib.store.byWd.toList = [(2, 2)] ∧ w.lib.store.WellIndexed := by
  refine ⟨by decide +kernel, by decide +kernel, ?_⟩
  exact (store_integrity ⟨_, World.run_after (fun _ _ => False) 9 _ _⟩).1

end InotifyTools
