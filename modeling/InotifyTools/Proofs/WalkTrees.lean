import InotifyTools.Proofs.Surveys

set_option autoImplicit false

/-! # The walk of a tree that stays as it is

On a file system that does not change, and where nothing fails but what may not be read, the walk
watches its directories in post-order. -/

namespace InotifyTools

/-! ## A kernel that serves a tree -/

variable {σ α : Type} [Sys σ]

/-- The kernel answers by the tree `t`: nothing fails but what `t` does not let be read. -/
structure ServesTree (σ : Type) [Sys σ] (t : FileTree) where
  /-- What an open directory stream has not yielded yet. -/
  pending : σ → Nat → Option (List CString)
  opendir : ∀ (p : CString) (os : σ) {names : List CString}, t.look p.bytes = .directory names →
    ∃ dir, (Sys.opendir p os).1 = some dir ∧ pending os dir = none ∧
      pending (Sys.opendir p os).2 = Function.update (pending os) dir (some names)
  opendir_sealed : ∀ (p : CString) (os : σ), t.look p.bytes = .sealed →
    (Sys.opendir p os).1 = none ∧ Sys.errno (Sys.opendir p os).2 = eacces ∧
      pending (Sys.opendir p os).2 = pending os
  readdir_cons : ∀ (dir : Nat) (os : σ) {n : CString} {names : List CString},
    pending os dir = some (n :: names) → (Sys.readdir dir os).1 = some n ∧
      pending (Sys.readdir dir os).2 = Function.update (pending os) dir (some names)
  readdir_nil : ∀ (dir : Nat) (os : σ), pending os dir = some [] →
    (Sys.readdir dir os).1 = none ∧ pending (Sys.readdir dir os).2 = pending os
  closedir : ∀ (dir : Nat) (os : σ),
    pending (Sys.closedir dir os) = Function.update (pending os) dir none
  lstat : ∀ (p : CString) (os : σ), t.hidden (Desk.trim p.bytes) = false →
    ∃ mode, (Sys.lstat p os).1 = some mode ∧
      (mode &&& sIfmt = sIfdir ↔ (t.look p.bytes).isDirectory = true)
  lstat_hidden : ∀ (p : CString) (os : σ), t.hidden (Desk.trim p.bytes) = true →
    (Sys.lstat p os).1 = none ∧ Sys.errno (Sys.lstat p os).2 = eacces
  lstat_pending : ∀ (p : CString) (os : σ), pending (Sys.lstat p os).2 = pending os
  addWatch : ∀ (fd : Int32) (p : CString) (mask : UInt32) (os : σ),
    0 < (Sys.inotifyAddWatch fd p mask os).1 ∧
      pending (Sys.inotifyAddWatch fd p mask os).2 = pending os
  fwrite : ∀ (st : Stream) (b : Bytes) (os : σ), pending (Sys.fwrite st b os) = pending os

variable {t : FileTree} (s : ServesTree σ t)

/-- The paths `l` were to be watched, in order. -/
def AddedPaths (l : List Bytes) (new : List Entry) : Prop := (added new).map CString.bytes = l

omit [Sys σ] in
theorem AddedPaths.append {l l' : List Bytes} {w w' w'' : World (Logged σ)}
    (h : Grows (AddedPaths l) w w') (h' : Grows (AddedPaths l') w' w'') :
    Grows (AddedPaths (l ++ l')) w w'' := by
  obtain ⟨old, hold, hadded⟩ := h
  obtain ⟨new, hnew, hadded'⟩ := h'
  refine ⟨old ++ new, by rw [hnew, hold, List.append_assoc], ?_⟩
  rw [AddedPaths, added_append, List.map_append, hadded, hadded']

theorem ServesTree.untouched : Untouched s.pending where
  lstat := s.lstat_pending
  addWatch fd p mask os := (s.addWatch fd p mask os).2
  fwrite := s.fwrite

/-- A call about no watch. -/
theorem addedPaths_nil {w : World (Logged σ)} {g : σ → α × σ} {entry : α → SysCall}
    (hadded : ∀ a, (entry a).added = none) :
    Grows (AddedPaths []) w { w with os := (Logged.enter g entry w.os).2 } :=
  ⟨_, rfl, by simp [AddedPaths, added, hadded]⟩

/-- What a walk relies on, going by the log. -/
theorem ServesTree.surveyable : Surveyable t (fun os : Logged σ => s.pending os.os)
    (fun _ => Inotify) fun l => Grows (AddedPaths l) where
  initialized h := h.initialized
  refl _ := ⟨[], (List.append_nil _).symm, rfl⟩
  trans := AddedPaths.append
  error _ h := ⟨⟨h.initialized, h.mode, h.wellIndexed, h.plain⟩, [], (List.append_nil _).symm, rfl⟩
  peek h hpeek := by
    refine ⟨⟨h.initialized, h.mode, h.wellIndexed, h.plain⟩, ?_⟩
    cases hpeek with
    | closedir => exact ⟨[], (List.append_nil _).symm, rfl⟩
    | opendir | readdir | lstat => exact addedPaths_nil fun _ => rfl
  opendir p _ _ hlook := s.opendir p _ hlook
  opendir_sealed p _ hsealed := s.opendir_sealed p _ hsealed
  readdir_cons dir _ _ _ hpending := s.readdir_cons dir _ hpending
  readdir_nil dir _ hpending := s.readdir_nil dir _ hpending
  closedir dir _ := s.closedir dir _
  lstat p _ hseen := s.lstat p _ hseen
  lstat_hidden p _ hhidden := s.lstat_hidden p _ hhidden
  lstat_pending p _ := s.lstat_pending p _
  watch fuel p events h _ := by
    obtain ⟨w', hrun, hmade⟩ := watchFile_accepted s.untouched fuel ⟨_, spelled_noNul p⟩ events h
      (s.addWatch _ _ _ _).1
    exact ⟨w', hrun, hmade.inotify, hmade.view, _, hmade.log, rfl⟩

variable {s}

/-- **The walk of a tree that stays as it is watches each directory that can be reached once,** after
    everything below it. -/
theorem walk_watches_tree {env : Logged σ → Logged σ → Prop} (s : ServesTree σ t)
    {w : World (Logged σ)} (h : Reachable env w) (hi : w.lib.initialized = true)
    (hm : w.lib.fanotifyMode = false) {path : Bytes} {names : List CString}
    (hroot : t.look (cstring path).bytes = .directory names) (events : Int32) (ex : List Bytes)
    (hfinite : ∃ bound, ∀ p, Relation.ReflTransGen (t.Subdirectory ex)
      (spelled (cstring path).bytes) p → p.length ≤ bound) :
    ∃ fuel₀, ∀ fuel, fuel₀ ≤ fuel → ∃ w',
      watchRecursivelyWithExclude fuel path events ex w = .ok (true, w') ∧
      let watched := (added (callsBetween w w')).map CString.bytes
      (∀ p, p ∈ watched ↔
        Relation.ReflTransGen (t.Subdirectory ex) (spelled (cstring path).bytes) p) ∧
      watched.Nodup ∧ watched.Pairwise fun p q => ¬ p <+: q := by
  have hz : ¬ AnsweredZero (Logged σ) := by
    refine Logged.not_answeredZero fun ⟨fd, p, mask, os, hzero⟩ => ?_
    have hpos := (s.addWatch fd p mask os).1
    rw [hzero] at hpos
    exact absurd hpos (by decide)
  obtain ⟨l, fuel₀, hmem, hnodup, horder, hvisits⟩ := s.surveyable.walk hroot hfinite events
  refine ⟨fuel₀, fun fuel hfuel => ?_⟩
  obtain ⟨w', hrun, hadds⟩ := hvisits fuel hfuel [] w (h.inotify hz hi hm)
  obtain ⟨new, hlog, hadded⟩ := hadds.watched
  refine ⟨w', hrun, ?_⟩
  dsimp only
  rw [callsBetween_eq hlog, hadded]
  exact ⟨hmem, hnodup, horder⟩

/-! ## A kernel with a tree planted in it -/

/-- The paths in a listed tree are not much longer than those listed. -/
theorem FileTree.planted_bounded {nodes : List (Bytes × Node)} {hidden : List Bytes}
    {h : ∀ e ∈ nodes, e.2.Proper} {ex : List Bytes} {root p : Bytes} {bound : Nat}
    (hroot : root.length ≤ bound) (hnodes : ∀ e ∈ nodes, e.1.length < bound)
    (hp : Relation.ReflTransGen ((planted nodes hidden h).Subdirectory ex) root p) :
    p.length ≤ bound := by
  cases hp with
  | refl => exact hroot
  | tail _ hsub =>
      have hread := hsub.readable
      change ((nodes.lookup (Desk.trim p)).getD .other).isReadable = true at hread
      cases hlookup : nodes.lookup (Desk.trim p) with
      | none =>
          rw [hlookup] at hread
          cases hread
      | some node =>
          have hlt := hnodes _ (mem_of_lookup hlookup)
          dsimp only [Desk.trim] at hlt
          split at hlt
          · rw [List.length_dropLast] at hlt
            omega
          · exact hlt.le

namespace Planted

theorem pending_setStream {d : Planted t} {dir : Nat} {rest : Option (List CString)}
    (h : d.pending dir ≠ none ∨ rest = none) :
    (d.setStream dir rest).pending = Function.update d.pending dir rest := by
  funext i
  rw [pending, setStream, List.getElem?_set, Function.update_apply]
  by_cases hi : i = dir
  · rw [if_pos hi, if_pos hi.symm]
    split
    · rfl
    · next hge =>
        have hnone : d.pending dir = none := by
          rw [pending, List.getElem?_eq_none (not_lt.1 hge)]
          rfl
        rw [h.resolve_left (not_not.2 hnone)]
        rfl
  · rw [if_neg hi, if_neg (Ne.symm hi)]
    rfl

/-- It serves the tree. -/
def serves (t : FileTree) : ServesTree (Planted t) t where
  pending := pending
  opendir p d names h := by
    refine ⟨d.streams.length, ?_, ?_, ?_⟩
    · simp [Sys.opendir, h]
    · simp [pending]
    · have hstate : (Sys.opendir p d).2 = { d with streams := d.streams ++ [some names] } := by
        simp [Sys.opendir, h]
      rw [hstate]
      funext i
      rw [pending, List.getElem?_append, Function.update_apply]
      split
      · next hlt => rw [if_neg hlt.ne]; rfl
      · next hge =>
          by_cases hi : i = d.streams.length
          · rw [if_pos hi, hi, Nat.sub_self]
            rfl
          · rw [if_neg hi, pending, List.getElem?_eq_none (by simp; omega),
              List.getElem?_eq_none (by omega)]
  opendir_sealed p d h := by
    have hstate : Sys.opendir p d = (none, { d with errno := eacces }) := by simp [Sys.opendir, h]
    rw [hstate]
    exact ⟨rfl, rfl, rfl⟩
  readdir_cons dir d n names h := by
    have hstate : Sys.readdir dir d = (some n, d.setStream dir (some names)) := by
      simp [Sys.readdir, h]
    rw [hstate]
    exact ⟨rfl, pending_setStream (.inl (by simp [h]))⟩
  readdir_nil dir d h := by simp [Sys.readdir, h]
  closedir _ _ := pending_setStream (.inr rfl)
  lstat p d h := by
    refine ⟨if (t.look p.bytes).isDirectory then sIfdir else 0x8000, ?_, ?_⟩
    · simp [Sys.lstat, h]
    · cases (t.look p.bytes).isDirectory <;> decide
  lstat_hidden p d h := by simp [Sys.lstat, Sys.errno, h]
  lstat_pending p d := by
    simp only [Sys.lstat]
    split <;> rfl
  addWatch _ p _ d := ⟨d.watched.add_pos (Desk.trim p.bytes), rfl⟩
  fwrite _ _ _ := rfl

end Planted

theorem walk_watches_tree_planted :
    let w := World.after 0 { lib := Inotifytools.new, os := { os := ({} : Planted plantedTree) } }
      [.init false false 0]
    ∃ fuel w', watchRecursivelyWithExclude fuel (ascii "/t") 2 [ascii "/t/x"] w = .ok (true, w') ∧
      ascii "/t/a/c/" ∈ (added (callsBetween w w')).map CString.bytes := by
  intro w
  have hreach : Reachable (fun _ _ => False) w := ⟨_, World.run_after _ _ _ _⟩
  have hsub : ascii "/t/a/" ∈ plantedTree.below [ascii "/t/x"] (ascii "/t/") := by decide +kernel
  have hsub' : ascii "/t/a/c/" ∈ plantedTree.below [ascii "/t/x"] (ascii "/t/a/") := by
    decide +kernel
  obtain ⟨names, hroot⟩ : ∃ names, plantedTree.look (cstring (ascii "/t")).bytes = .directory names :=
    ⟨_, by rfl⟩
  obtain ⟨fuel, hwalk⟩ := walk_watches_tree (Planted.serves plantedTree) hreach (by decide +kernel)
    (by decide +kernel) hroot 2 [ascii "/t/x"]
    ⟨9, fun p => FileTree.planted_bounded (by decide +kernel) (by decide +kernel)⟩
  obtain ⟨w', hrun, hmem, -⟩ := hwalk fuel le_rfl
  exact ⟨fuel, w', hrun, (hmem _).2
    (.tail (.single ((FileTree.mem_below _ _).1 hsub)) ((FileTree.mem_below _ _).1 hsub'))⟩

end InotifyTools
