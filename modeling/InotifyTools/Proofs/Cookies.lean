import InotifyTools.Proofs.Moves

set_option autoImplicit false

/-! # Two moves that do not belong together

The tracker remembers the path of a directory that moved away, and no cookie: whatever moves in next
is taken for it. -/

namespace InotifyTools

variable {σ : Type} [Sys σ] {w : World σ}

omit [Sys σ] in
/-- A bulk rename returns, and every watch keeps its descriptor. -/
theorem replaceFilenames_run (old new : Bytes) (ids : List Nat) (w : World σ) :
    ∃ s', replaceFilenames old new ids w =
        .ok ((), { w with lib := { w.lib with store := s' } }) ∧
      ∀ id : Nat, s'.watches[id]?.map Watch.wd = w.lib.store.watches[id]?.map Watch.wd := by
  induction ids generalizing w with
  | nil => exact ⟨_, rfl, fun _ => rfl⟩
  | cons id ids ih =>
      unfold replaceFilenames
      cases hv : w.lib.store.watches[id]? with
      | none =>
          have hround : replaceFilenameOf old new id w = .ok ((), w) := by
            unfold replaceFilenameOf
            rw [getLib_bind, hv]
            rfl
          obtain ⟨s', hrun, hkeeps⟩ := ih w
          exact ⟨s', by rw [Prog.bind_run_ok hround, hrun], hkeeps⟩
      | some v =>
          let s₁ := w.lib.store.renameBelow old new id v
          obtain ⟨s', hrun, hkeeps⟩ := ih { w with lib := { w.lib with store := s₁ } }
          refine ⟨s', by rw [Prog.bind_run_ok (replaceFilenameOf_run hv), hrun], fun i => ?_⟩
          rw [hkeeps]
          show s₁.watches[i]?.map Watch.wd = _
          unfold s₁ Store.renameBelow
          split
          · exact Store.watches_rename_wd hv i
          · rfl

/-- The path of an event changes nothing. -/
theorem dirpathFromEvent_returns (h : Inotify w) (ev : Event) :
    ∃ path, dirpathFromEvent ev w = .ok (path, w) := by
  unfold dirpathFromEvent
  rw [Prog.bind_run_ok (filenameFromWd_run h.storedNames ev.wd)]
  generalize (if ev.wd = 0 then [] else (w.lib.store.nameOf ev.wd).getD []) = n
  by_cases hnone : n.isEmpty ∨ ev.mask.toInt32 &&& inIsdir = 0
  · rw [if_pos hnone]
    exact ⟨_, rfl⟩
  · rw [if_neg hnone]
    exact ⟨_, rfl⟩

/-- A directory that moved away keeps its watch when anything moves in. -/
theorem MoveTracker.handle_movedTo_keeps (h : Inotify w) {ev : Event} (hev : MovedTo ev)
    (old : Bytes) (fuel : Nat) (events : Int32) (announce : Bool) (out : List Piece → M σ Unit) :
    ∃ w', handle { movedFrom := some old } fuel ev true events announce out w = .ok ({}, w') ∧
      ∀ id : Nat, w'.lib.store.watches[id]?.map Watch.wd
        = w.lib.store.watches[id]?.map Watch.wd := by
  obtain ⟨path, hpath⟩ := dirpathFromEvent_returns h ev
  rw [handle_movedTo hev hpath]
  unfold replaceFilename
  by_cases hempty : old.isEmpty ∨ (path.getD []).isEmpty
  · rw [if_pos hempty]
    exact ⟨w, rfl, fun _ => rfl⟩
  · rw [if_neg hempty]
    obtain ⟨s', hrun, hkeeps⟩ := replaceFilenames_run old (path.getD [])
      w.lib.store.byFilename.values w
    refine ⟨{ w with lib := { w.lib with store := s' } }, ?_, hkeeps⟩
    show (replaceFilenames old _ w.lib.store.byFilename.values >>= fun _ => pure _) w = _
    rw [Prog.bind_run_ok hrun]
    rfl

/-- The directory `d` moved away with the cookie `c`, and the next event has another cookie: nothing
    at or below `d` is renamed, and the watch of `d` is removed. -/
def LeavesTree (fuel : Nat) (w : World σ) (d : Bytes) (c : UInt32) (ev : Event) (events : Int32)
    (announce : Bool) (out : List Piece → M σ Unit) : Prop :=
  ev.cookie ≠ c →
    ∃ moves w', MoveTracker.handle { movedFrom := some d } fuel ev true events announce out w
        = .ok (moves, w') ∧
      (∀ wd s, w.lib.store.nameOf wd = some (d ++ s) →
        w'.lib.store.nameOf wd = none ∨ w'.lib.store.nameOf wd = some (d ++ s)) ∧
      ∀ id, w.lib.store.byFilename[d]? = some id → w'.lib.store.watches[id]? = none

theorem not_leavesTree (h : Inotify w) {d : Bytes} (hd : w.lib.store.wdOf d ≠ none) {c : UInt32}
    {ev : Event} (hev : MovedTo ev) (hc : ev.cookie ≠ c) (fuel : Nat) (events : Int32)
    (announce : Bool) (out : List Piece → M σ Unit) :
    ¬ LeavesTree fuel w d c ev events announce out := by
  intro hleaves
  obtain ⟨moves, w', hrun, -, hgone⟩ := hleaves hc
  obtain ⟨u, hrun', hkeeps⟩ := MoveTracker.handle_movedTo_keeps h hev d fuel events announce out
  rw [hrun'] at hrun
  cases hrun
  cases hid : w.lib.store.byFilename[d]? with
  | none => exact hd (Store.wdOf_none hid)
  | some id =>
      obtain ⟨v, hv, -, -⟩ := h.wellIndexed.found_filename hid
      have hsame := hkeeps id
      rw [hgone id hid, hv] at hsame
      cases hsame

/-- **Moves are not paired by their cookies.** Whatever moves in after a directory moved away, with
    whatever cookie: the directory does not leave the tree. -/
theorem move_never_leaves {env : σ → σ → Prop} (hz : ¬ AnsweredZero σ) (h : Reachable env w)
    (hi : w.lib.initialized = true) (hm : w.lib.fanotifyMode = false) {d : Bytes}
    (hd : w.lib.store.wdOf d ≠ none) {c : UInt32} {ev : Event} (hev : MovedTo ev)
    (hc : ev.cookie ≠ c) (fuel : Nat) (events : Int32) (announce : Bool)
    (out : List Piece → M σ Unit) : ¬ LeavesTree fuel w d c ev events announce out :=
  not_leavesTree (h.inotify hz hi hm) hd hev hc fuel events announce out

/-- The directory "d/a/" moves out of the tree with the cookie 1, and a directory moves in as "e/b/"
    with the cookie 2: the watch of "d/a/" stays, and is called "e/b/" from then on. -/
theorem moves_cross :
    let away : Event := { wd := 1, mask := 0x40000040, cookie := 1, name := ascii "a" }
    let new : Event := { wd := 5, mask := 0x40000080, cookie := 2, name := ascii "b" }
    Reachable Desk.Forgets deskTree ∧ deskTree.lib.initialized = true ∧
      deskTree.lib.fanotifyMode = false ∧ MovedTo new ∧
      MoveTracker.handle {} 9 away true 2 false (fun _ => pure ()) deskTree
        = .ok ({ movedFrom := some (ascii "d/a/") }, deskTree) ∧
      ¬ LeavesTree 9 deskTree (ascii "d/a/") away.cookie new 2 false (fun _ => pure ()) ∧
      (MoveTracker.handle { movedFrom := some (ascii "d/a/") } 9 new true 2 false (fun _ => pure ())
        >>= fun _ => filenameFromWd 2).result deskTree = some (ascii "e/b/") := by
  have hnew : MovedTo { wd := 5, mask := 0x40000080, cookie := 2, name := ascii "b" } :=
    ⟨by decide, by decide, by decide⟩
  have haway : MovedFromDir { wd := 1, mask := 0x40000040, cookie := 1, name := ascii "a" } :=
    ⟨by decide, by decide, by decide, by decide⟩
  have hd : deskTree.lib.store.nameOf 1 = some (ascii "d/") := by decide +kernel
  have hold : deskTree.lib.store.wdOf (ascii "d/" ++ ascii "a" ++ [slash]) = some 2 := by
    decide +kernel
  refine ⟨deskTree_reachable, deskTree_inotify.initialized, deskTree_inotify.mode, hnew, ?_, ?_,
    by decide +kernel⟩
  · exact MoveTracker.handle_movedFrom deskTree_inotify haway (by decide) hd (by decide) hold
      (by decide) 9 2 false _
  · exact not_leavesTree deskTree_inotify (by decide +kernel) hnew (by decide) 9 2 false _

theorem move_never_leaves_desk :
    ¬ LeavesTree 9 deskTree (ascii "d/a/") 1 { wd := 5, mask := 0x40000080, cookie := 2 } 2 false
      (fun _ => pure ()) :=
  move_never_leaves Desk.kernelWatches.not_answeredZero deskTree_reachable (by decide +kernel)
    (by decide +kernel) (by decide +kernel) ⟨by decide, by decide, by decide⟩ (by decide) 9 2 false _

end InotifyTools
