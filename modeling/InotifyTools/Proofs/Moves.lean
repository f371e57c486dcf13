import InotifyTools.Proofs.Pairs
import InotifyTools.Tools.Common

set_option autoImplicit false

/-! # Moves inside the tree

`replace_filename` gives every watch below a directory its new name, one after the other, and the
tracker reaches it with the two events of a move. -/

namespace InotifyTools

open KeyedMap

variable {σ : Type}

/-! ## Bulk renames -/

/-- The watch with its new name, if it lies below `old`. -/
def Watch.moved (old new : Bytes) (v : Watch) : Watch :=
  if old <+: v.filename.bytes then
    { v with filename := cstring (new ++ v.filename.bytes.drop old.length) }
  else v

theorem Watch.moved_fid (old new : Bytes) (v : Watch) : (v.moved old new).fid = v.fid := by
  unfold moved
  split <;> rfl

theorem Watch.moved_stats (old new : Bytes) (v : Watch) : (v.moved old new).stats = v.stats := by
  unfold moved
  split <;> rfl

/-- The new name of a watch below `old`. -/
theorem Watch.moved_filename (old : Bytes) {new : Bytes} (hnul : 0 ∉ new) (v : Watch) :
    (v.moved old new).filename.bytes =
      if old <+: v.filename.bytes then new ++ v.filename.bytes.drop old.length
      else v.filename.bytes := by
  unfold moved
  split
  · refine bytes_cstring ?_
    have hdrop : 0 ∉ v.filename.bytes.drop old.length := fun h =>
      v.filename.noNul (List.mem_of_mem_drop h)
    simp [hnul, hdrop]
  · rfl

/-- The store after the watch `id` is renamed if it lies below `old` and is not called `new`. -/
def Store.renameBelow (s : Store) (old new : Bytes) (id : Nat) (v : Watch) : Store :=
  if old <+: v.filename.bytes ∧ v.filename.bytes ≠ new then
    s.rename id v (cstring (new ++ v.filename.bytes.drop old.length))
  else s

/-- One round of `replace_filename` on a watch that is there. -/
theorem replaceFilenameOf_run {w : World σ} {id : Nat} {v : Watch} {old new : Bytes}
    (hv : w.lib.store.watches[id]? = some v) : replaceFilenameOf old new id w =
      .ok ((), { w with lib :=
        { w.lib with store := w.lib.store.renameBelow old new id v } }) := by
  unfold replaceFilenameOf Store.renameBelow
  rw [getLib_bind, hv]
  dsimp only
  simp only [List.isPrefixOf_iff_prefix]
  split
  · exact renameWatch_run hv _
  · rfl

/-- In the middle of a bulk rename of `s₀`: the watches indexed by name have moved, except for those
    that are still to come. -/
structure Moving (s₀ s : Store) (old new : Bytes) (rest : List Nat) : Prop where
  wellIndexed : s.WellIndexed
  matched : s.Matched
  byWd : s.byWd = s₀.byWd
  watches : ∀ id, s.watches[id]? = s₀.watches[id]?.map fun v =>
    if id ∈ s₀.byFilename.values ∧ id ∉ rest then v.moved old new else v

namespace Moving

variable {s₀ s : Store} {old new : Bytes} {id : Nat} {rest : List Nat} {v : Watch}

/-- A watch that is still to come is as it was. -/
theorem waiting (h : Moving s₀ s old new (id :: rest)) : s.watches[id]? = s₀.watches[id]? := by
  rw [h.watches]
  cases s₀.watches[id]? <;> simp

/-- The new name of the next watch is free: whoever has it was moved there from the same old name, or
    had it before. -/
theorem free (h : Moving s₀ s old new (id :: rest)) (h₀ : s₀.WellIndexed) (hm₀ : s₀.Matched)
    (hnul : 0 ∉ new) (hnew : ∀ (n : Bytes) (i : Nat), s₀.byFilename[n]? = some i → ¬ new <+: n)
    (hn : s₀.byFilename[v.filename.bytes]? = some id)
    (hold : old <+: v.filename.bytes) :
    s.byFilename[new ++ v.filename.bytes.drop old.length]? = none := by
  cases hi : s.byFilename[new ++ v.filename.bytes.drop old.length]? with
  | none => rfl
  | some i =>
      exfalso
      obtain ⟨u, hu, hname, -⟩ := h.wellIndexed.found_filename hi
      obtain ⟨wd, hwd⟩ := (h.matched i).2 ⟨_, hi⟩
      rw [h.byWd] at hwd
      obtain ⟨n, hn'⟩ := (hm₀ i).1 ⟨wd, hwd⟩
      obtain ⟨u₀, hu₀, hname₀, -⟩ := h₀.found_filename hn'
      have hmap := h.watches i
      rw [hu, hu₀, Option.map_some] at hmap
      by_cases hmoved : i ∉ id :: rest
      · rw [if_pos ⟨(mem_values _ _).2 ⟨n, hn'⟩, hmoved⟩] at hmap
        cases hmap
        rw [Watch.moved_filename old hnul] at hname
        by_cases hpre : old <+: u₀.filename.bytes
        · rw [if_pos hpre, List.append_cancel_left_eq] at hname
          have hsame : u₀.filename.bytes = v.filename.bytes := by
            rw [← List.prefix_iff_eq_append.1 hpre, ← List.prefix_iff_eq_append.1 hold, hname]
          rw [← hname₀, hsame, hn] at hn'
          cases hn'
          exact hmoved List.mem_cons_self
        · rw [if_neg hpre] at hname
          exact hnew n i hn' (hname₀ ▸ hname ▸ List.prefix_append _ _)
      · rw [if_neg fun hc => hmoved hc.2] at hmap
        cases hmap
        exact hnew n i hn' (hname₀ ▸ hname ▸ List.prefix_append _ _)

/-- The watches after one more of them is dealt with. -/
theorem watches_step (h : Moving s₀ s old new (id :: rest)) (hid : id ∉ rest)
    (hn : id ∈ s₀.byFilename.values) (hv : s₀.watches[id]? = some v) {s' : Store}
    (hs : ∀ i, s'.watches[i]? = if id = i then some (v.moved old new) else s.watches[i]?) (i : Nat) :
    s'.watches[i]? = s₀.watches[i]?.map fun v =>
      if i ∈ s₀.byFilename.values ∧ i ∉ rest then v.moved old new else v := by
  rw [hs]
  by_cases hi : id = i
  · subst hi
    rw [if_pos rfl, hv, Option.map_some, if_pos ⟨hn, hid⟩]
  · rw [if_neg hi, h.watches]
    have hmem : (i ∉ id :: rest) ↔ i ∉ rest := by simp [Ne.symm hi]
    simp only [hmem]

/-- One round of `replace_filename`. -/
theorem step {w : World σ} (h : Moving s₀ w.lib.store old new (id :: rest)) (hid : id ∉ rest)
    (h₀ : s₀.WellIndexed) (hm₀ : s₀.Matched) (hnul : 0 ∉ new)
    (hnew : ∀ (n : Bytes) (i : Nat), s₀.byFilename[n]? = some i → ¬ new <+: n)
    (hmem : id ∈ s₀.byFilename.values) :
    ∃ s', replaceFilenameOf old new id w =
        .ok ((), { w with lib := { w.lib with store := s' } }) ∧ Moving s₀ s' old new rest := by
  obtain ⟨n, hn⟩ := (mem_values _ _).1 hmem
  obtain ⟨v, hv, rfl, -⟩ := h₀.found_filename hn
  have hv' : w.lib.store.watches[id]? = some v := h.waiting.trans hv
  have hne : v.filename.bytes ≠ new := fun he => hnew _ _ hn (he ▸ List.prefix_refl _)
  refine ⟨_, replaceFilenameOf_run hv', ?_⟩
  by_cases hold : old <+: v.filename.bytes
  · have hmoved : v.moved old new
        = { v with filename := cstring (new ++ v.filename.bytes.drop old.length) } := if_pos hold
    have hfree : w.lib.store.byFilename[(cstring (new ++ v.filename.bytes.drop old.length)).bytes]?
        = none := by
      have hname := Watch.moved_filename old hnul v
      rw [hmoved, if_pos hold] at hname
      rw [show (cstring _).bytes = _ from hname]
      exact h.free h₀ hm₀ hnul hnew hn hold
    have hlisted : w.lib.store.byFilename[v.filename.bytes]? = some id := by
      obtain ⟨wd, hwd⟩ := (hm₀ id).2 ⟨_, hn⟩
      exact h.matched.filename h.wellIndexed (h.byWd ▸ hwd) hv'
    rw [show w.lib.store.renameBelow old new id v = _ from if_pos ⟨hold, hne⟩]
    refine ⟨h.wellIndexed.rename hv' _, h.matched.rename h.wellIndexed hv' hlisted (.inl hfree),
      h.byWd, h.watches_step hid hmem hv fun i => ?_⟩
    rw [hmoved]
    exact lookup_insert w.lib.store.watches id i _
  · rw [show w.lib.store.renameBelow old new id v = _ from if_neg fun hc => hold hc.1]
    refine ⟨h.wellIndexed, h.matched, h.byWd, h.watches_step hid hmem hv fun i => ?_⟩
    split
    · next he =>
        subst he
        rw [hv', show v.moved old new = v from if_neg hold]
    · rfl

/-- All rounds of `replace_filename`. -/
theorem run {w : World σ} (h : Moving s₀ w.lib.store old new rest) (hrest : rest.Nodup)
    (h₀ : s₀.WellIndexed) (hm₀ : s₀.Matched) (hnul : 0 ∉ new)
    (hnew : ∀ (n : Bytes) (i : Nat), s₀.byFilename[n]? = some i → ¬ new <+: n)
    (hmem : ∀ id ∈ rest, id ∈ s₀.byFilename.values) :
    ∃ s', replaceFilenames old new rest w =
        .ok ((), { w with lib := { w.lib with store := s' } }) ∧ Moving s₀ s' old new [] := by
  induction rest generalizing w with
  | nil => exact ⟨_, rfl, h⟩
  | cons id rest ih =>
      obtain ⟨hid, hnodup⟩ := List.nodup_cons.1 hrest
      obtain ⟨s₁, hrun, h₁⟩ := h.step hid h₀ hm₀ hnul hnew (hmem id List.mem_cons_self)
      obtain ⟨s₂, hruns, h₂⟩ := ih (w := { w with lib := { w.lib with store := s₁ } }) h₁ hnodup
        fun i hi => hmem i (List.mem_cons_of_mem _ hi)
      refine ⟨s₂, ?_, h₂⟩
      unfold replaceFilenames
      rw [Prog.bind_run_ok hrun, hruns]

end Moving

/-- A bulk rename to a name nothing lies below. -/
theorem replaceFilename_run {w : World σ} {old new : Bytes} (hs : w.lib.store.WellIndexed)
    (hm : w.lib.store.Matched) (hold : old ≠ []) (hne : new ≠ []) (hnul : 0 ∉ new)
    (hnew : ∀ (n : Bytes) (i : Nat), w.lib.store.byFilename[n]? = some i → ¬ new <+: n) :
    ∃ s', replaceFilename old new w = .ok ((), { w with lib := { w.lib with store := s' } }) ∧
      Moving w.lib.store s' old new [] := by
  have hstart : Moving w.lib.store w.lib.store old new w.lib.store.byFilename.values := by
    refine ⟨hs, hm, rfl, fun id => ?_⟩
    have hnone : ¬ (id ∈ w.lib.store.byFilename.values ∧ id ∉ w.lib.store.byFilename.values) :=
      fun hc => hc.2 hc.1
    simp only [hnone, if_false, Option.map_id']
  have hnodup : w.lib.store.byFilename.values.Nodup :=
    nodup_values fun a b v ha hb => hs.byFilename.inj ha hb
  obtain ⟨s', hrun, hend⟩ := hstart.run hnodup hs hm hnul hnew fun _ h => h
  refine ⟨s', ?_, hend⟩
  unfold replaceFilename
  rw [if_neg (by simp [hold, hne])]
  exact hrun

namespace Moving

variable {s₀ s : Store} {old new : Bytes}

/-- A watch after the bulk rename. -/
theorem watches_end (h : Moving s₀ s old new []) (id : Nat) : s.watches[id]? =
    s₀.watches[id]?.map fun v => if id ∈ s₀.byFilename.values then v.moved old new else v := by
  rw [h.watches]
  simp

/-- Names after the bulk rename. -/
theorem nameOf_end (h : Moving s₀ s old new []) (h₀ : s₀.WellIndexed) (hm₀ : s₀.Matched)
    (hnul : 0 ∉ new) (wd : Int32) : s.nameOf wd =
      (s₀.nameOf wd).map fun n => if old <+: n then new ++ n.drop old.length else n := by
  cases hid : s₀.byWd[wd]? with
  | none => rw [Store.nameOf_none hid, Store.nameOf_none (h.byWd ▸ hid), Option.map_none]
  | some id =>
      obtain ⟨v, hv, -, hn⟩ := h₀.found_wd hid
      have hmem : id ∈ s₀.byFilename.values := (mem_values _ _).2 ((hm₀ id).1 ⟨wd, hid⟩)
      have hv' := h.watches_end id
      rw [hv, Option.map_some, if_pos hmem] at hv'
      rw [Store.nameOf_some (h.byWd ▸ hid) hv', hn, Option.map_some, Watch.moved_filename old hnul]

/-- The bulk rename adds and removes no watch, and counts nothing. -/
theorem stats_end (h : Moving s₀ s old new []) (id : Nat) :
    s.watches[id]?.map Watch.stats = s₀.watches[id]?.map Watch.stats := by
  rw [h.watches_end]
  cases s₀.watches[id]? with
  | none => rfl
  | some v =>
      rw [Option.map_some, Option.map_some, Option.map_some]
      split
      · rw [Watch.moved_stats]
      · rfl

/-- No listed watch has a fid if none had. -/
theorem plain_end (h : Moving s₀ s old new []) (hp : s₀.Plain) : s.Plain := by
  intro id v hid hv
  have hlisted : s₀.Listed id := by
    rcases hid with hid | hid
    · exact .inl (h.byWd ▸ hid)
    · exact .inl (h.byWd ▸ (h.matched id).2 hid)
  rw [h.watches_end] at hv
  cases hu : s₀.watches[id]? with
  | none => rw [hu] at hv; cases hv
  | some u =>
      have hfid : u.fid = none := hp id u hlisted hu
      rw [hu, Option.map_some] at hv
      cases hv
      split
      · rw [Watch.moved_fid, hfid]
      · exact hfid

end Moving

/-! ## The two events of a move -/

variable [Sys σ]

/-- A directory has been moved away: the event reports nothing else. -/
structure MovedFromDir (ev : Event) : Prop where
  movedFrom : ev.mask.toInt32 &&& inMovedFrom ≠ 0
  isDir : ev.mask.toInt32 &&& inIsdir ≠ 0
  noCreate : ev.mask.toInt32 &&& inCreate = 0
  noMovedTo : ev.mask.toInt32 &&& inMovedTo = 0

/-- Something has been moved in: the event reports nothing else. -/
structure MovedTo (ev : Event) : Prop where
  movedTo : ev.mask.toInt32 &&& inMovedTo ≠ 0
  noCreate : ev.mask.toInt32 &&& inCreate = 0
  noMovedFrom : ev.mask.toInt32 &&& inMovedFrom = 0

/-- A directory has been moved in. -/
structure MovedToDir (ev : Event) : Prop extends MovedTo ev where
  isDir : ev.mask.toInt32 &&& inIsdir ≠ 0

variable {w : World σ}

/-- The path of a directory event: the name of its watch and the name of the event. -/
theorem dirpathFromEvent_run (h : Inotify w) {ev : Event} {n : Bytes} (hwd : ev.wd ≠ 0)
    (hname : w.lib.store.nameOf ev.wd = some n) (hn : n ≠ [])
    (hdir : ev.mask.toInt32 &&& inIsdir ≠ 0) :
    dirpathFromEvent ev w = .ok (some (n ++ ev.name ++ [slash]), w) := by
  unfold dirpathFromEvent
  rw [Prog.bind_run_ok (filenameFromWd_run h.storedNames ev.wd), if_neg hwd, hname, Option.getD_some,
    if_neg (by simp [hn, hdir]), getLib_bind]
  show Except.ok (some (n ++ (if w.lib.fanotifyMode = true then [] else ev.name) ++ [slash]), w) = _
  rw [h.mode]
  rfl

namespace MoveTracker

/-- A directory found under its old name has moved away: its name is kept. -/
theorem handle_movedFrom (h : Inotify w) {ev : Event} (hev : MovedFromDir ev) {n : Bytes}
    {wd : Int32} (hwd : ev.wd ≠ 0) (hname : w.lib.store.nameOf ev.wd = some n) (hn : n ≠ [])
    (hold : w.lib.store.wdOf (n ++ ev.name ++ [slash]) = some wd) (hneg : wd ≠ -1) (fuel : Nat)
    (events : Int32) (announce : Bool) (out : List Piece → M σ Unit) :
    handle {} fuel ev true events announce out w =
      .ok ({ movedFrom := some (n ++ ev.name ++ [slash]) }, w) := by
  have hne : n ++ ev.name ++ [slash] ≠ [] := by simp
  show follow {} fuel ev events announce out w = _
  unfold follow
  dsimp only
  rw [if_neg (by simp [hev.noCreate, hev.noMovedTo]), if_pos hev.movedFrom,
    Prog.bind_run_ok (dirpathFromEvent_run h hwd hname hn hev.isDir),
    Prog.bind_run_ok (wdFromFilename_run h.storedNames _), Option.getD_some, if_neg hne, hold,
    Option.getD_some, if_neg hneg]
  rfl

/-- Whatever has moved in is taken for the directory that moved away. -/
theorem handle_movedTo {ev : Event} (hev : MovedTo ev) {path : Option Bytes}
    (hpath : dirpathFromEvent ev w = .ok (path, w)) (old : Bytes) (fuel : Nat) (events : Int32)
    (announce : Bool) (out : List Piece → M σ Unit) :
    handle { movedFrom := some old } fuel ev true events announce out w =
      (replaceFilename old (path.getD []) >>= fun _ => pure {}) w := by
  unfold handle settle
  dsimp only
  rw [if_neg hev.movedTo]
  show follow { movedFrom := some old } fuel ev events announce out w = _
  unfold follow
  dsimp only
  rw [if_neg (by simp [hev.noCreate]), if_neg (by simp [hev.noMovedFrom]), if_pos hev.movedTo,
    Prog.bind_run_ok hpath]

end MoveTracker

/-- **A move inside the tree is tracked.** A directory indexed under its name is moved to a name
    nothing is indexed below: everything below it is found under its new name, all other names stay,
    no watch is added or removed, nothing is counted, and no move is pending. -/
theorem directory_move_tracked {env : σ → σ → Prop} (hz : ¬ AnsweredZero σ) (h : Reachable env w)
    (hi : w.lib.initialized = true) (hm : w.lib.fanotifyMode = false)
    (hmatched : w.lib.store.Matched) {evFrom evTo : Event} (hfrom : MovedFromDir evFrom)
    (hto : MovedToDir evTo) {np nq : Bytes} (hp : w.lib.store.nameOf evFrom.wd = some np)
    (hnp : np ≠ []) (hq : w.lib.store.nameOf evTo.wd = some nq) (hnq : nq ≠ [])
    (hb : 0 ∉ evTo.name) (hold : w.lib.store.wdOf (np ++ evFrom.name ++ [slash]) ≠ none)
    (hnew : ∀ n, w.lib.store.wdOf n ≠ none → ¬ (nq ++ evTo.name ++ [slash]) <+: n) (fuel : Nat)
    (events : Int32) (announce : Bool) (out : List Piece → M σ Unit) :
    ∃ w', (MoveTracker.handle {} fuel evFrom true events announce out >>= fun moves =>
          moves.handle fuel evTo true events announce out) w = .ok ({}, w') ∧
      (∀ wd s, filenameFromWd wd w = .ok (np ++ evFrom.name ++ [slash] ++ s, w) →
        filenameFromWd wd w' = .ok (nq ++ evTo.name ++ [slash] ++ s, w') ∧
          wdFromFilename (nq ++ evTo.name ++ [slash] ++ s) w' = .ok (wd, w')) ∧
      (∀ wd n, filenameFromWd wd w = .ok (n, w) → ¬ (np ++ evFrom.name ++ [slash]) <+: n →
        filenameFromWd wd w' = .ok (n, w')) ∧
      (∀ id : Nat, w'.lib.store.watches[id]?.map Watch.stats
        = w.lib.store.watches[id]?.map Watch.stats) ∧
      w'.lib.totals = w.lib.totals := by
  have hw := h.inotify hz hi hm
  have hs := hw.wellIndexed
  obtain ⟨wd₀, hwd₀⟩ := Option.ne_none_iff_exists'.1 hold
  have hfound : 0 < wd₀ := h.positive.nameOf hs ((hmatched.nameOf_iff hs).2 hwd₀)
  have hparent : 0 < evFrom.wd := h.positive.nameOf hs hp
  have hparent' : 0 < evTo.wd := h.positive.nameOf hs hq
  have hnul : 0 ∉ nq ++ evTo.name ++ [slash] := by
    have hslash : (0 : UInt8) ≠ slash := by decide
    simp [Store.nameOf_noNul hq, hb, hslash]
  have hne : np ++ evFrom.name ++ [slash] ≠ [] := by simp
  obtain ⟨s', hrun, hend⟩ := replaceFilename_run hs hmatched hne
    (by simp : nq ++ evTo.name ++ [slash] ≠ []) hnul fun n i hn hpre => by
      obtain ⟨v, -, -, hwd⟩ := hs.found_filename hn
      exact hnew n (by simp [hwd]) hpre
  let w' : World σ := { w with lib := { w.lib with store := s' } }
  have hw' : Inotify w' := ⟨hw.initialized, hw.mode, hend.wellIndexed, hend.plain_end hw.plain⟩
  have hname' := hend.nameOf_end hs hmatched hnul
  refine ⟨w', ?_, ?_, ?_, hend.stats_end, rfl⟩
  · -- MOVED_FROM leaves the old name pending, which MOVED_TO replaces
    rw [Prog.bind_run_ok (MoveTracker.handle_movedFrom hw hfrom (by grind) hp hnp hwd₀ (by grind)
      fuel events announce out), MoveTracker.handle_movedTo hto.toMovedTo
      (dirpathFromEvent_run hw (by grind) hq hnq hto.isDir), Option.getD_some,
      Prog.bind_run_ok hrun]
    rfl
  · intro wd s hn
    rw [filenameFromWd_run hw.storedNames] at hn
    by_cases hzero : wd = 0
    · rw [if_pos hzero] at hn
      simp at hn
    · rw [if_neg hzero] at hn
      have hold' : w.lib.store.nameOf wd = some (np ++ evFrom.name ++ [slash] ++ s) := by
        cases hx : w.lib.store.nameOf wd <;> simp_all
      have hn' : s'.nameOf wd = some (nq ++ evTo.name ++ [slash] ++ s) := by
        rw [hname', hold', Option.map_some, if_pos (List.prefix_append _ _), List.drop_left]
      constructor
      · rw [filenameFromWd_run hw'.storedNames, if_neg hzero, hn', Option.getD_some]
      · rw [wdFromFilename_run hw'.storedNames, if_neg (by simp),
          (hend.matched.nameOf_iff hend.wellIndexed).1 hn', Option.getD_some]
  · intro wd n hn hpre
    rw [filenameFromWd_run hw.storedNames] at hn
    rw [filenameFromWd_run hw'.storedNames, hname']
    by_cases hzero : wd = 0
    · rw [if_pos hzero] at hn ⊢
      cases hn
      rfl
    · rw [if_neg hzero] at hn ⊢
      cases hx : w.lib.store.nameOf wd with
      | none =>
          rw [hx] at hn
          cases hn
          rfl
      | some m =>
          rw [hx] at hn
          cases hn
          rw [Option.map_some, if_neg (by simpa using hpre)]

omit [Sys σ] in
/-- The indexes of a store match if they list the same ids. -/
theorem Store.matched_of_values {s : Store}
    (h : ∀ id, id ∈ s.byWd.values ↔ id ∈ s.byFilename.values) : s.Matched := by
  intro id
  rw [← mem_values, ← mem_values]
  exact h id

/-- The directories "d/", "d/a/", "d/ab/" and "e/" are watched, and the file "d/a/f". -/
def deskTree : World Desk :=
  World.after 9
    { lib := Inotifytools.new, os := { dirs := [ascii "d", ascii "d/a", ascii "d/ab", ascii "e"] } }
    [.init false false 0, .watchFiles [ascii "d", ascii "d/a", ascii "d/a/f", ascii "d/ab",
      ascii "e"] 2]

theorem deskTree_reachable : Reachable Desk.Forgets deskTree := ⟨_, World.run_after _ _ _ _⟩

theorem deskTree_inotify : Inotify deskTree :=
  deskTree_reachable.inotify Desk.kernelWatches.not_answeredZero (by decide +kernel)
    (by decide +kernel)

/-- The directory "d/a/" is moved to "e/b/". -/
theorem directory_move_tracked_desk :
    ∃ w', (MoveTracker.handle {} 9 { wd := 1, mask := 0x40000040, name := ascii "a" } true 2 false
          (fun _ => pure ()) >>= fun moves =>
        moves.handle 9 { wd := 5, mask := 0x40000080, name := ascii "b" } true 2 false
          (fun _ => pure ())) deskTree = .ok ({}, w') ∧
      filenameFromWd 3 w' = .ok (ascii "e/b/f", w') ∧
      wdFromFilename (ascii "e/b/f") w' = .ok (3, w') ∧
      filenameFromWd 4 w' = .ok (ascii "d/ab/", w') := by
  have hvalues : deskTree.lib.store.byWd.values = deskTree.lib.store.byFilename.values := by
    decide +kernel
  have hnames : ∀ n ∈ deskTree.lib.store.byFilename.keys, ¬ ascii "e/b/" <+: n := by
    decide +kernel
  have hw := deskTree_inotify
  have hfound : ∀ wd n, wd ≠ 0 → deskTree.lib.store.nameOf wd = some n →
      filenameFromWd wd deskTree = .ok (n, deskTree) := by
    intro wd n hwd hn
    rw [filenameFromWd_run hw.storedNames, if_neg hwd, hn, Option.getD_some]
  have hfrom : MovedFromDir { wd := 1, mask := 0x40000040, name := ascii "a" } :=
    ⟨by decide, by decide, by decide, by decide⟩
  have hto : MovedToDir { wd := 5, mask := 0x40000080, name := ascii "b" } :=
    ⟨⟨by decide, by decide, by decide⟩, by decide⟩
  have hd : deskTree.lib.store.nameOf 1 = some (ascii "d/") := by decide +kernel
  have he : deskTree.lib.store.nameOf 5 = some (ascii "e/") := by decide +kernel
  obtain ⟨w', hrun, hbelow, hother, -, -⟩ := directory_move_tracked
    Desk.kernelWatches.not_answeredZero deskTree_reachable hw.initialized hw.mode
    (Store.matched_of_values fun id => by rw [hvalues]) hfrom hto hd (by decide) he (by decide)
    (by decide) (by decide +kernel) (fun n hn => hnames n (Store.mem_keys_of_wdOf hn)) 9 2 false
    (fun _ => pure ())
  refine ⟨w', hrun, ?_, ?_, ?_⟩
  · exact (hbelow 3 (ascii "f") (hfound 3 _ (by decide) (by decide +kernel))).1
  · exact (hbelow 3 (ascii "f") (hfound 3 _ (by decide) (by decide +kernel))).2
  · exact hother 4 _ (hfound 4 _ (by decide) (by decide +kernel)) (by decide)

end InotifyTools
