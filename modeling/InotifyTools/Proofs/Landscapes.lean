import InotifyTools.Proofs.Moves
import InotifyTools.Proofs.Surveys

set_option autoImplicit false

/-! # Walks on the map

The kernel knows the directory behind each descriptor by itself, wherever that directory is. A walk of
a tree enters what it watches into the store under the path that the kernel has for it. -/

namespace InotifyTools

/-! ## Charts -/

/-- Descriptors, and the paths of what they were handed out for. -/
abbrev Chart := Int32 → Option Bytes

/-- Where a path lies after `old` became `new`. -/
def moved (old new p : Bytes) : Bytes := if old <+: p then new ++ p.drop old.length else p

theorem moved_ne_nil {old new p : Bytes} (hnew : new ≠ []) (hp : p ≠ []) : moved old new p ≠ [] := by
  unfold moved
  split
  · exact List.append_ne_nil_of_left_ne_nil hnew _
  · exact hp

variable {σ : Type}

/-- The handle has the watches of the chart `c`, under the paths of `c`. -/
structure Mirrors (w : World σ) (c : Chart) : Prop where
  inotify : Inotify w
  matched : w.lib.store.Matched
  names : w.lib.store.nameOf = c
  proper : ∀ {wd p}, c wd = some p → 0 < wd ∧ p ≠ []

namespace Mirrors

variable {w w' : World σ} {c : Chart}

/-- Names are found by descriptors, and descriptors by names. -/
theorem wdOf (h : Mirrors w c) {p : Bytes} {wd : Int32} :
    w.lib.store.wdOf p = some wd ↔ c wd = some p := by
  rw [← h.matched.nameOf_iff h.inotify.wellIndexed, h.names]

theorem noNul (h : Mirrors w c) {wd : Int32} {p : Bytes} (hp : c wd = some p) : 0 ∉ p :=
  Store.nameOf_noNul (h.names ▸ hp : w.lib.store.nameOf wd = some p)

/-- What is no matter of the store. -/
theorem same (h : Mirrors w c) (error : Int32) (os : σ) :
    Mirrors { lib := { w.lib with error }, os } c :=
  ⟨⟨h.inotify.initialized, h.inotify.mode, h.inotify.wellIndexed, h.inotify.plain⟩, h.matched,
    h.names, h.proper⟩

/-- A watch that is new in both respects. -/
theorem insert (h : Mirrors w c) {v : Watch} (hl : Leaves w (w.lib.store.insert v) w')
    (hfid : v.fid = none) (hpos : 0 < v.wd) (hne : v.filename.bytes ≠ []) (hwd : c v.wd = none)
    (hfresh : ∀ wd, c wd ≠ some v.filename.bytes) :
    Mirrors w' (Function.update c v.wd (some v.filename.bytes)) := by
  have hs := h.inotify.wellIndexed
  have hnone : w.lib.store.nameOf v.wd = none := h.names ▸ hwd
  have hfree : w.lib.store.wdOf v.filename.bytes = none := by
    cases hfound : w.lib.store.wdOf v.filename.bytes with
    | none => rfl
    | some wd => exact absurd (h.wdOf.1 hfound) (hfresh wd)
  refine ⟨h.inotify.leaves hl (hs.insert v) (h.inotify.plain.insert hs hfid), ?_, ?_, ?_⟩
  · rw [hl.store]
    exact h.matched.insert (hs.nameOf_eq_none.1 hnone) (hs.wdOf_eq_none.1 hfree)
  · funext wd
    rw [hl.store, Store.nameOf_insert hs, h.names, Function.update_apply]
    by_cases he : v.wd = wd
    · rw [if_pos he, if_pos he.symm, ← he, hwd]
      rfl
    · rw [if_neg he, if_neg (Ne.symm he)]
  · intro wd p hp
    rw [Function.update_apply] at hp
    split at hp
    · next he =>
        cases hp
        exact ⟨he ▸ hpos, hne⟩
    · exact h.proper hp

/-- A bulk rename to a path that nothing has, and nothing lies below. -/
theorem replaceFilename (h : Mirrors w c) {old new : Bytes} (hold : old ≠ []) (hne : new ≠ [])
    (hnul : 0 ∉ new) (hfree : ∀ wd p, c wd = some p → ¬ new <+: p) :
    ∃ w', replaceFilename old new w = .ok ((), w') ∧ w'.os = w.os ∧ w'.lib.fd = w.lib.fd ∧
      Mirrors w' fun wd => (c wd).map (moved old new) := by
  have hs := h.inotify.wellIndexed
  obtain ⟨s', hrun, hmoving⟩ := replaceFilename_run hs h.matched hold hne hnul fun n i hn => by
    obtain ⟨v, -, -, hfound⟩ := hs.found_filename hn
    exact hfree _ _ (h.wdOf.1 hfound)
  refine ⟨_, hrun, rfl, rfl, ?_, hmoving.matched, ?_, ?_⟩
  · exact ⟨h.inotify.initialized, h.inotify.mode, hmoving.wellIndexed,
      hmoving.plain_end h.inotify.plain⟩
  · funext wd
    refine (hmoving.nameOf_end hs h.matched hnul wd).trans ?_
    rw [h.names]
    rfl
  · intro wd p hp
    obtain ⟨p₀, hp₀, rfl⟩ := Option.map_eq_some_iff.1 hp
    exact ⟨(h.proper hp₀).1, moved_ne_nil hne (h.proper hp₀).2⟩

end Mirrors

/-! ## What the kernel knows -/

/-- The file system, what an inotify instance watches of it, and how much more it may watch. -/
structure Terrain where
  tree : FileTree
  chart : Chart
  room : Nat

variable [Sys σ]

/-- The kernel answers by what it knows: of the tree it lets be read what can be read, and what is new
    to the chart it enters under a descriptor that is new to the chart, as long as there is room. -/
structure Landscape (σ : Type) [Sys σ] where
  /-- The descriptor of the inotify instance. -/
  fd : Int32
  view : σ → Terrain
  /-- What an open directory stream has not yielded yet. -/
  pending : σ → Nat → Option (List CString)
  peek : ∀ {os os' : σ}, Peek os os' → view os' = view os
  fwrite : ∀ (st : Stream) (b : Bytes) (os : σ), view (Sys.fwrite st b os) = view os ∧
    pending (Sys.fwrite st b os) = pending os
  syslog : ∀ (b : Bytes) (os : σ), view (Sys.syslog b os) = view os
  opendir : ∀ (p : CString) (os : σ) {names : List CString},
    (view os).tree.look p.bytes = .directory names →
    ∃ dir, (Sys.opendir p os).1 = some dir ∧ pending os dir = none ∧
      pending (Sys.opendir p os).2 = Function.update (pending os) dir (some names)
  opendir_sealed : ∀ (p : CString) (os : σ), (view os).tree.look p.bytes = .sealed →
    (Sys.opendir p os).1 = none ∧ Sys.errno (Sys.opendir p os).2 = eacces ∧
      pending (Sys.opendir p os).2 = pending os
  readdir_cons : ∀ (dir : Nat) (os : σ) {n : CString} {names : List CString},
    pending os dir = some (n :: names) → (Sys.readdir dir os).1 = some n ∧
      pending (Sys.readdir dir os).2 = Function.update (pending os) dir (some names)
  readdir_nil : ∀ (dir : Nat) (os : σ), pending os dir = some [] →
    (Sys.readdir dir os).1 = none ∧ pending (Sys.readdir dir os).2 = pending os
  closedir : ∀ (dir : Nat) (os : σ),
    pending (Sys.closedir dir os) = Function.update (pending os) dir none
  lstat : ∀ (p : CString) (os : σ), (view os).tree.hidden (Desk.trim p.bytes) = false →
    ∃ mode, (Sys.lstat p os).1 = some mode ∧
      (mode &&& sIfmt = sIfdir ↔ ((view os).tree.look p.bytes).isDirectory = true)
  lstat_hidden : ∀ (p : CString) (os : σ), (view os).tree.hidden (Desk.trim p.bytes) = true →
    (Sys.lstat p os).1 = none ∧ Sys.errno (Sys.lstat p os).2 = eacces
  lstat_pending : ∀ (p : CString) (os : σ), pending (Sys.lstat p os).2 = pending os
  addWatch : ∀ (p : CString) (mask : UInt32) (os : σ),
    ((view os).tree.look p.bytes).isReadable = true → 0 < (view os).room →
    (∀ wd, (view os).chart wd ≠ some (spelled p.bytes)) →
    let r := Sys.inotifyAddWatch fd p mask os
    0 < r.1 ∧ (view os).chart r.1 = none ∧ pending r.2 = pending os ∧
      view r.2 =
        { view os with
          chart := Function.update (view os).chart r.1 (some (spelled p.bytes))
          room := (view os).room - 1 }

/-! ## Watching a file -/

/-- The calls that look at a file to be watched, and report on it. -/
inductive Glance : σ → σ → Prop
  | lstat (p : CString) (os : σ) : Glance os (Sys.lstat p os).2
  | fwrite (st : Stream) (b : Bytes) (os : σ) : Glance os (Sys.fwrite st b os)

theorem isdir_glances (p : CString) (w : World σ) :
    ∃ isDir os, isdir p.bytes w = .ok (isDir, { w with os }) ∧
      Relation.ReflTransGen Glance w.os os := by
  have hstat : Glance w.os (Sys.lstat p w.os).2 := .lstat _ _
  unfold isdir
  rw [cstring_bytes, call_bind]
  cases hmode : (Sys.lstat p w.os).1 with
  | some mode => exact ⟨_, _, rfl, .single hstat⟩
  | none =>
      show ∃ isDir os, (errno >>= _) _ = .ok (isDir, { w with os }) ∧ _
      rw [Prog.bind_run_ok (rfl : errno _ = .ok (Sys.errno (Sys.lstat p w.os).2, _)),
        Prog.bind_run_ok (rfl : strerror _ _ = .ok (_, _))]
      by_cases he : Sys.errno (Sys.lstat p w.os).2 ≠ enoent
      · rw [if_pos he]
        exact ⟨_, _, rfl, .tail (.single hstat) (.fwrite _ _ _)⟩
      · rw [if_neg he]
        exact ⟨_, _, rfl, .single hstat⟩

omit [Sys σ] in
theorem storedName_spelled (p : Bytes) (isDir : Bool) : (storedName (spelled p) isDir).1 = spelled p := by
  have hslash : (spelled p).getLast? = some slash := by
    obtain ⟨q, hq⟩ := spelled_eq_concat p
    rw [hq, List.getLast?_concat]
  unfold storedName
  cases isDir
  · rfl
  · rw [if_neg (by decide), if_pos hslash]

/-- A path with a trailing '/' that the kernel accepts is entered as it is. -/
theorem watchFile_spelled {w : World σ} (h : Inotify w) (fuel : Nat) (p : CString)
    (hp : spelled p.bytes = p.bytes) (events : Int32)
    (hpos : 0 < (Sys.inotifyAddWatch w.lib.fd p events.toUInt32 w.os).1) :
    let r := Sys.inotifyAddWatch w.lib.fd p events.toUInt32 w.os
    ∃ w', watchFile fuel p.bytes events w = .ok (true, w') ∧
      Leaves w (w.lib.store.insert (Watch.mk none p r.1 0 {})) w' ∧
      Relation.ReflTransGen Glance r.2 w'.os := by
  intro r
  have hr : 0 < r.1 := hpos
  let v : World σ := { w with lib := { w.lib with error := 0 } }
  let v₁ : World σ := { v with os := r.2 }
  obtain ⟨isDir, os, hisdir, hglances⟩ := isdir_glances p v₁
  let v₂ : World σ := { v₁ with os }
  let w' := v₂.withStore (w.lib.store.insert (Watch.mk none p r.1 0 {}))
  have hstore : storeWatch fuel p r.1 v₁ = .ok (true, w') := by
    have hname := storedName_spelled p.bytes isDir
    rw [hp] at hname
    unfold storeWatch watchFid
    rw [Prog.bind_run_ok hisdir]
    dsimp only
    rw [if_pos (show r.1 ≠ 0 by grind), hname]
    refine (Prog.bind_run_ok (createWatch_run hr fuel none _ v₂)).trans ?_
    rw [cstring_bytes]
    rfl
  have hone : watchOne fuel p.bytes events v = .ok ((true, events), w') := by
    unfold watchOne
    rw [cstring_bytes]
    refine (Prog.bind_run_ok (addWatch_run_inotify (w := v) h.mode p events)).trans ?_
    show (if r.1 < 0 then _ else _ : M σ (Bool × Int32)) v₁ = _
    rw [if_neg (by grind)]
    exact Prog.bind_run_ok hstore
  refine ⟨w', ?_, ⟨0, os, rfl⟩, hglances⟩
  rw [watchFile_eq h.initialized]
  exact Prog.bind_run_ok hone

/-! ## Walks -/

namespace Landscape

variable (L : Landscape σ)

theorem glances {os os' : σ} (h : Relation.ReflTransGen Glance os os') :
    L.view os' = L.view os ∧ L.pending os' = L.pending os := by
  induction h with
  | refl => exact ⟨rfl, rfl⟩
  | tail _ hglance ih =>
      rw [← ih.1, ← ih.2]
      cases hglance with
      | lstat p => exact ⟨L.peek (.lstat p _), L.lstat_pending p _⟩
      | fwrite st b => exact L.fwrite st b _

/-- The store is the chart of the kernel, which knows the tree `t`. The paths `l` are new to it, and
    there is room for them. -/
structure Surveying (t : FileTree) (l : List Bytes) (w : World σ) : Prop where
  mirrors : Mirrors w (L.view w.os).chart
  fd : w.lib.fd = L.fd
  tree : (L.view w.os).tree = t
  fresh : ∀ p ∈ l, ∀ wd, (L.view w.os).chart wd ≠ some p
  nodup : l.Nodup
  room : l.length ≤ (L.view w.os).room

/-- Between `w` and `w'` the paths `l` are charted, and nothing is lost. -/
structure Charts (l : List Bytes) (w w' : World σ) : Prop where
  kept : ∀ {wd p}, (L.view w.os).chart wd = some p → (L.view w'.os).chart wd = some p
  got : ∀ p ∈ l, ∃ wd, (L.view w'.os).chart wd = some p
  only : ∀ {wd p}, (L.view w'.os).chart wd = some p → (L.view w.os).chart wd = some p ∨ p ∈ l

variable {L} {t : FileTree} {l l' : List Bytes} {w w' w'' : World σ}

theorem Charts.same (h : L.view w'.os = L.view w.os) : L.Charts [] w w' where
  kept hp := by rw [h]; exact hp
  got := nofun
  only hp := .inl (by rw [← h]; exact hp)

theorem Charts.trans (h : L.Charts l w w') (h' : L.Charts l' w' w'') : L.Charts (l ++ l') w w'' where
  kept hp := h'.kept (h.kept hp)
  got p hp := by
    rcases List.mem_append.1 hp with hp | hp
    · obtain ⟨wd, hwd⟩ := h.got p hp
      exact ⟨wd, h'.kept hwd⟩
    · exact h'.got p hp
  only hp := by
    rcases h'.only hp with hp | hp
    · exact (h.only hp).imp_right (List.mem_append_left _)
    · exact .inr (List.mem_append_right _ hp)

/-- A path is charted under a new descriptor. -/
theorem Charts.update {wd : Int32} {p : Bytes}
    (h : (L.view w'.os).chart = Function.update (L.view w.os).chart wd (some p))
    (hnone : (L.view w.os).chart wd = none) : L.Charts [p] w w' where
  kept {i n} hn := by
    rw [h, Function.update_apply, if_neg]
    · exact hn
    · rintro rfl
      rw [hnone] at hn
      cases hn
  got n hn := by
    cases List.mem_singleton.1 hn
    exact ⟨wd, by rw [h, Function.update_self]⟩
  only {i n} hn := by
    rw [h, Function.update_apply] at hn
    split at hn
    · cases hn
      exact .inr (List.mem_singleton_self _)
    · exact .inl hn

theorem Surveying.same (h : L.Surveying t l w) (error : Int32) {os : σ}
    (hview : L.view os = L.view w.os) : L.Surveying t l { lib := { w.lib with error }, os } where
  mirrors := by
    show Mirrors _ (L.view os).chart
    rw [hview]
    exact h.mirrors.same error os
  fd := h.fd
  tree := (congrArg Terrain.tree hview).trans h.tree
  fresh := by
    show ∀ p ∈ l, ∀ wd, (L.view os).chart wd ≠ some p
    rw [hview]
    exact h.fresh
  nodup := h.nodup
  room := by
    show l.length ≤ (L.view os).room
    rw [hview]
    exact h.room

/-- A path that is new is watched and charted. -/
theorem Surveying.watch (fuel : Nat) (p : CString) (events : Int32)
    (h : L.Surveying t (spelled p.bytes :: l) w) (hread : (t.look p.bytes).isReadable = true) :
    ∃ w', watchFile fuel (spelled p.bytes) events w = .ok (true, w') ∧ L.Surveying t l w' ∧
      L.pending w'.os = L.pending w.os ∧ L.Charts [spelled p.bytes] w w' := by
  let q : CString := ⟨_, spelled_noNul p⟩
  have hq : spelled q.bytes = q.bytes := by
    obtain ⟨n, hn⟩ := spelled_eq_concat p.bytes
    show spelled (spelled p.bytes) = spelled p.bytes
    rw [hn, spelled_concat]
  have hne : q.bytes ≠ [] := by
    obtain ⟨n, hn⟩ := spelled_eq_concat p.bytes
    show spelled p.bytes ≠ []
    rw [hn]
    exact List.concat_ne_nil slash n
  have hroom := h.room
  rw [List.length_cons] at hroom
  obtain ⟨hfresh, hrest⟩ := List.forall_mem_cons.1 h.fresh
  obtain ⟨hnew, hnodup⟩ := List.nodup_cons.1 h.nodup
  obtain ⟨hpos, hnone, hpending, hview⟩ := L.addWatch q events.toUInt32 w.os
    (by rw [h.tree, Surveyable.look_spelled]; exact hread) (by omega) (by rw [hq]; exact hfresh)
  rw [hq] at hview
  rw [← h.fd] at hpos hnone hpending hview
  obtain ⟨w', hrun, hleaves, hglances⟩ :=
    watchFile_spelled h.mirrors.inotify fuel q hq events hpos
  obtain ⟨hos, hstreams⟩ := L.glances hglances
  rw [hview] at hos
  have hchart : (L.view w'.os).chart = Function.update (L.view w.os).chart _ (some q.bytes) :=
    congrArg Terrain.chart hos
  have hroom' : (L.view w'.os).room = (L.view w.os).room - 1 := congrArg Terrain.room hos
  have hfd : w'.lib.fd = w.lib.fd := by
    obtain ⟨e, os, rfl⟩ := hleaves
    rfl
  refine ⟨w', hrun, ⟨?_, hfd.trans h.fd, (congrArg Terrain.tree hos).trans h.tree, ?_, hnodup,
    by omega⟩, hstreams.trans hpending, ?_⟩
  · rw [hchart]
    exact h.mirrors.insert hleaves rfl hpos hne hnone hfresh
  · intro n hn wd
    rw [hchart, Function.update_apply]
    split
    · rintro ⟨⟩
      exact hnew hn
    · exact hrest n hn wd
  · exact .update hchart hnone

/-- What a walk relies on, going by the chart. -/
theorem surveyable (L : Landscape σ) (t : FileTree) :
    Surveyable t L.pending (L.Surveying t) L.Charts where
  initialized h := h.mirrors.inotify.initialized
  refl _ := .same rfl
  trans := .trans
  error error h := ⟨h.same error rfl, .same rfl⟩
  peek h hpeek := ⟨h.same _ (L.peek hpeek), .same (L.peek hpeek)⟩
  opendir p _ h hlook := L.opendir p _ (by rw [h.tree]; exact hlook)
  opendir_sealed p h hsealed := L.opendir_sealed p _ (by rw [h.tree]; exact hsealed)
  readdir_cons dir _ _ _ hpending := L.readdir_cons dir _ hpending
  readdir_nil dir _ hpending := L.readdir_nil dir _ hpending
  closedir dir _ := L.closedir dir _
  lstat p h hseen := by
    cases h.tree
    exact L.lstat p _ hseen
  lstat_hidden p h hhidden := by
    cases h.tree
    exact L.lstat_hidden p _ hhidden
  lstat_pending p _ := L.lstat_pending p _
  watch fuel p events h hread := h.watch fuel p events hread

end Landscape

end InotifyTools
