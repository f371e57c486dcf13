import InotifyTools.Implementation.Desk
import InotifyTools.Proofs.Walks

set_option autoImplicit false

/-! # The calls of a walk

In inotify mode a walk makes few calls on a file: it looks at it, and asks for a watch. Whatever these
leave as it is, a walk changes only by its directory streams. -/

namespace InotifyTools

variable {σ α V U : Type} [Sys σ]

/-- What the calls on a file leave as it is. -/
structure Untouched (view : σ → V) : Prop where
  lstat : ∀ (p : CString) (os : σ), view (Sys.lstat p os).2 = view os
  addWatch : ∀ (fd : Int32) (p : CString) (mask : UInt32) (os : σ),
    view (Sys.inotifyAddWatch fd p mask os).2 = view os
  fwrite : ∀ (st : Stream) (b : Bytes) (os : σ), view (Sys.fwrite st b os) = view os

theorem Untouched.map {view : σ → V} (hv : Untouched view) (g : V → U) : Untouched (g ∘ view) where
  lstat p os := congrArg g (hv.lstat p os)
  addWatch fd p mask os := congrArg g (hv.addWatch fd p mask os)
  fwrite st b os := congrArg g (hv.fwrite st b os)

/-- Between `w` and `w'` the calls `new` were made, and `view` stayed as it was. -/
structure Made (view : σ → V) (new : List Entry) (w w' : World (Logged σ)) : Prop where
  inotify : Inotify w'
  view : view w'.os.os = view w.os.os
  log : w'.os.log = w.os.log ++ new

namespace Made

variable {view : σ → V} {new new' : List Entry} {w w' w'' : World (Logged σ)}

omit [Sys σ] in
theorem refl (h : Inotify w) : Made view [] w w := ⟨h, rfl, (List.append_nil _).symm⟩

omit [Sys σ] in
theorem trans (h : Made view new w w') (h' : Made view new' w' w'') :
    Made view (new ++ new') w w'' where
  inotify := h'.inotify
  view := h'.view.trans h.view
  log := by rw [h'.log, h.log, List.append_assoc]

omit [Sys σ] in
theorem map (h : Made view new w w') (g : V → U) : Made (g ∘ view) new w w' :=
  ⟨h.inotify, congrArg g h.view, h.log⟩

omit [Sys σ] in
/-- The error number is no matter. -/
theorem error (h : Inotify w) (e : Int32) :
    Made view [] w { w with lib := { w.lib with error := e } } :=
  ⟨⟨h.initialized, h.mode, h.wellIndexed, h.plain⟩, rfl, (List.append_nil _).symm⟩

/-- One call. -/
theorem call {g : σ → α × σ} (entry : α → SysCall) (h : Inotify w)
    (hview : view (g w.os.os).2 = view w.os.os) :
    Made view [⟨entry (g w.os.os).1, Sys.errno (g w.os.os).2⟩] w
      { w with os := (Logged.enter g entry w.os).2 } :=
  ⟨⟨h.initialized, h.mode, h.wellIndexed, h.plain⟩, hview, rfl⟩

end Made

/-! ## Looking at a file and watching it -/

/-- The call that looks at `p`, as the log keeps it. -/
def lookedAt (p : CString) (os : σ) : Entry :=
  ⟨.lstat p (Sys.lstat p os).1, Sys.errno (Sys.lstat p os).2⟩

/-- The call that asks for a watch on `p`, as the log keeps it. -/
def askedFor (fd : Int32) (p : CString) (events : Int32) (os : σ) : Entry :=
  let r := Sys.inotifyAddWatch fd p events.toUInt32 os
  ⟨.addWatch p r.1, Sys.errno r.2⟩

variable {view : σ → V} (hv : Untouched view) {w : World (Logged σ)}

include hv

theorem isdir_made (p : CString) (h : Inotify w) : ∃ isDir w',
    isdir p.bytes w = .ok (isDir, w') ∧ Made view [lookedAt p w.os.os] w w' := by
  let w₁ : World (Logged σ) := { w with os := (Logged.enter (Sys.lstat p) (.lstat p) w.os).2 }
  have hlook : Made view [lookedAt p w.os.os] w w₁ := .call (.lstat p) h (hv.lstat _ _)
  unfold isdir
  rw [cstring_bytes, call_bind]
  cases hmode : (Sys.lstat p w.os).1 with
  | some mode => exact ⟨_, w₁, rfl, hlook⟩
  | none =>
      show ∃ isDir w', (errno >>= _) w₁ = .ok (isDir, w') ∧ _
      rw [Prog.bind_run_ok (rfl : errno w₁ = .ok (Sys.errno w₁.os, w₁)),
        Prog.bind_run_ok (rfl : strerror _ w₁ = .ok (_, w₁))]
      by_cases he : Sys.errno w₁.os ≠ enoent
      · rw [if_pos he]
        refine ⟨false, _, rfl, ⟨?_, (hv.fwrite _ _ _).trans hlook.view, hlook.log⟩⟩
        exact ⟨h.initialized, h.mode, h.wellIndexed, h.plain⟩
      · rw [if_neg he]
        exact ⟨false, w₁, rfl, hlook⟩

/-- A file the kernel accepts is looked at then. -/
theorem watchFile_accepted (fuel : Nat) (p : CString) (events : Int32) (h : Inotify w)
    (hpos : 0 < (Sys.inotifyAddWatch w.lib.fd p events.toUInt32 w.os.os).1) :
    ∃ w', watchFile fuel p.bytes events w = .ok (true, w') ∧
      Made view [askedFor w.lib.fd p events w.os.os,
        lookedAt p (Sys.inotifyAddWatch w.lib.fd p events.toUInt32 w.os.os).2] w w' := by
  let v : World (Logged σ) := { w with lib := { w.lib with error := 0 } }
  let r := addAnswer v p events
  have hr : 0 < r.1 := hpos
  let v₁ : World (Logged σ) := { v with os := r.2 }
  have hask : Made view [askedFor w.lib.fd p events w.os.os] w v₁ :=
    ⟨⟨h.initialized, h.mode, h.wellIndexed, h.plain⟩, hv.addWatch _ _ _ _, rfl⟩
  obtain ⟨isDir, v₂, hisdir, hlook⟩ := isdir_made hv p hask.inotify
  let u : Watch := Watch.mk none (cstring (storedName p.bytes isDir).1) r.1 0 {}
  let v₃ : World (Logged σ) := v₂.withStore (v₂.lib.store.insert u)
  have hstore : storeWatch fuel p r.1 v₁ = .ok (true, v₃) := by
    unfold storeWatch watchFid
    rw [Prog.bind_run_ok hisdir]
    dsimp only
    rw [if_pos (show r.1 ≠ 0 by grind)]
    exact Prog.bind_run_ok (createWatch_run hr fuel none _ v₂)
  have hone : watchOne fuel p.bytes events v = .ok ((true, events), v₃) := by
    unfold watchOne
    rw [cstring_bytes]
    refine (Prog.bind_run_ok (addWatch_run_inotify (w := v) h.mode p events)).trans ?_
    show (if r.1 < 0 then _ else _ : M (Logged σ) (Bool × Int32)) v₁ = _
    rw [if_neg (by grind)]
    exact Prog.bind_run_ok hstore
  have hmade := hask.trans hlook
  refine ⟨v₃, ?_, ⟨?_, hmade.view, hmade.log⟩⟩
  · rw [watchFile_eq h.initialized]
    exact Prog.bind_run_ok hone
  · exact ⟨hlook.inotify.initialized, hlook.inotify.mode, hlook.inotify.wellIndexed.insert u,
      hlook.inotify.plain.insert hlook.inotify.wellIndexed rfl⟩

/-- A file the kernel refuses is not looked at. -/
theorem watchFile_turnedDown (fuel : Nat) (p : CString) (events : Int32) (h : Inotify w)
    (hneg : (Sys.inotifyAddWatch w.lib.fd p events.toUInt32 w.os.os).1 < 0) :
    ∃ w', watchFile fuel p.bytes events w = .ok (false, w') ∧
      Made view [askedFor w.lib.fd p events w.os.os] w w' ∧
      ((Sys.inotifyAddWatch w.lib.fd p events.toUInt32 w.os.os).1 = -1 →
        w'.lib.error = (askedFor w.lib.fd p events w.os.os).errno) := by
  let v : World (Logged σ) := { w with lib := { w.lib with error := 0 } }
  let r := addAnswer v p events
  have hr : r.1 < 0 := hneg
  let v₁ : World (Logged σ) := { v with os := r.2 }
  have hask : Made view [askedFor w.lib.fd p events w.os.os] w v₁ :=
    ⟨⟨h.initialized, h.mode, h.wellIndexed, h.plain⟩, hv.addWatch _ _ _ _, rfl⟩
  obtain ⟨v₂, hrefused, hmade, herror⟩ : ∃ v₂, watchRefused p.bytes r.1 v₁ = .ok ((), v₂) ∧
      Made view [askedFor w.lib.fd p events w.os.os] w v₂ ∧
      (r.1 = -1 → v₂.lib.error = Sys.errno r.2) := by
    unfold watchRefused
    by_cases hr : r.1 = -1
    · rw [if_pos hr]
      refine ⟨_, rfl, ?_, fun _ => rfl⟩
      have hend := hask.trans (.error hask.inotify (Sys.errno r.2))
      rwa [List.append_nil] at hend
    · rw [if_neg hr]
      refine ⟨_, rfl, ⟨?_, (hv.fwrite _ _ _).trans hask.view, hask.log⟩, fun he => absurd he hr⟩
      exact ⟨h.initialized, h.mode, h.wellIndexed, h.plain⟩
  have hone : watchOne fuel p.bytes events v = .ok ((false, events), v₂) := by
    unfold watchOne
    rw [cstring_bytes]
    refine (Prog.bind_run_ok (addWatch_run_inotify (w := v) h.mode p events)).trans ?_
    show (if r.1 < 0 then _ else _ : M (Logged σ) (Bool × Int32)) v₁ = _
    rw [if_pos hr]
    exact Prog.bind_run_ok hrefused
  refine ⟨v₂, ?_, hmade, herror⟩
  rw [watchFile_eq h.initialized]
  exact Prog.bind_run_ok hone

omit hv [Sys σ] in
/-- A name goes by its first component. -/
theorem takeWhile_name {n y : Bytes} (hn : slash ∉ n) (hpre : n ++ [slash] <+: y) :
    y.takeWhile (· ≠ slash) = n := by
  obtain ⟨rest, rfl⟩ := hpre
  have hall : ∀ c ∈ n, decide (c ≠ slash) = true := fun c hc =>
    decide_eq_true fun he => hn (he ▸ hc)
  rw [List.append_assoc, List.takeWhile_append_of_pos hall, List.singleton_append,
    List.takeWhile_cons_of_neg (by simp), List.append_nil]

omit hv [Sys σ] in
theorem trim_concat (p : Bytes) : Desk.trim (p ++ [slash]) = p := by
  unfold Desk.trim
  rw [if_pos List.getLast?_concat, List.dropLast_concat]

omit hv [Sys σ] in
theorem spelled_eq_trim (p : Bytes) : spelled p = Desk.trim p ++ [slash] := by
  unfold spelled Desk.trim
  split
  · next h => exact (List.dropLast_append_getLast? slash h).symm
  · rfl

end InotifyTools
