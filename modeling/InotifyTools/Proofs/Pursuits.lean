import InotifyTools.Base.Replica
import InotifyTools.Proofs.Filters
import InotifyTools.Proofs.Gardens
import InotifyTools.Proofs.MoreFuel
import InotifyTools.Proofs.Runs
import InotifyTools.Tools.Inotifywait

set_option autoImplicit false

/-! # The tracker follows the tree

Directories appear and move while the events that tell of it wait to be handled. Moves can pile up: the
tracker works them off on the store alone, so the store lags behind the kernel by the events that are
still to come, and has the paths of the time an event is from when that event's turn comes. A directory
that appears is walked where it is when its event is handled, so nothing may change in between. -/

namespace InotifyTools

open Replica

/-! ## What the events tell -/

/-- The path of the directory an event is about. -/
def Chart.path (c : Chart) (ev : Event) : Option Bytes := (c ev.wd).map (· ++ ev.name ++ [slash])

/-- No directory comes with the event, and none of the chart goes. -/
def Chart.Ignores (c : Chart) (ev : Event) : Prop :=
  ¬ (ev.mask.toInt32 &&& inIsdir ≠ 0 ∧ ev.mask.toInt32 &&& (inCreate ||| inMovedTo) ≠ 0) ∧
    (ev.mask.toInt32 &&& inIsdir ≠ 0 → ev.mask.toInt32 &&& inMovedFrom ≠ 0 → ∀ p wd,
      c.path ev = some p → c wd ≠ some p)

/-- The chart after `old` became `new`. -/
def Chart.moved (c : Chart) (old new : Bytes) : Chart := fun wd =>
  (c wd).map (InotifyTools.moved old new)

/-- What a tracker goes by. -/
structure Notes where
  chart : Chart
  /-- The directory that has moved away. -/
  away : Option Bytes

/-- What an event tells a tracker. -/
inductive Tells : Notes → Event → Notes → Prop
  | away {c : Chart} {ev : Event} {old : Bytes} {wd : Int32} (hev : MovedFromDir ev)
      (hold : c.path ev = some old) (hwd : c wd = some old) : Tells ⟨c, none⟩ ev ⟨c, some old⟩
  | back {c : Chart} {ev : Event} {old new : Bytes} (hev : MovedToDir ev)
      (hnew : c.path ev = some new) (hnul : 0 ∉ ev.name)
      (hfree : ∀ wd p, c wd = some p → ¬ new <+: p) :
      Tells ⟨c, some old⟩ ev ⟨c.moved old new, none⟩
  | idle {c : Chart} {ev : Event} (hev : c.Ignores ev) : Tells ⟨c, none⟩ ev ⟨c, none⟩

/-- An event, and where the directory it is about was at the time. -/
structure Sent where
  event : Event
  dir : Option Bytes

/-- The event happens now. -/
def Chart.sends (c : Chart) (ev : Event) : Sent := ⟨ev, c ev.wd⟩

/-- The event is from the time of the notes `n`, and leads to `n'`. -/
def Sent.Leads (n : Notes) (m : Sent) (n' : Notes) : Prop :=
  m.dir = n.chart m.event.wd ∧ Tells n m.event n'

variable {σ : Type}

/-- The handle and the tracker have noted `n`. -/
structure Noted (w : World σ) (t : MoveTracker) (n : Notes) : Prop where
  mirrors : Mirrors w n.chart
  away : t.movedFrom = n.away
  proper : ∀ old ∈ n.away, old ≠ []

variable [Sys σ] {w w' : World σ} {c : Chart} {ev : Event}

omit [Sys σ] in
theorem Mirrors.dirpath (h : Mirrors w c) (ev : Event) :
    w.lib.store.dirpath ev = if ev.mask.toInt32 &&& inIsdir = 0 then none else c.path ev := by
  unfold Store.dirpath Chart.path
  dsimp only
  rw [h.names]
  by_cases hdir : ev.mask.toInt32 &&& inIsdir = 0
  · rw [if_pos (.inr hdir), if_pos hdir]
  · rw [if_neg hdir]
    cases hn : c ev.wd with
    | none =>
        refine if_pos (.inl ?_)
        split <;> rfl
    | some n =>
        obtain ⟨hpos, hne⟩ := h.proper hn
        rw [if_neg (show ev.wd ≠ 0 by grind), Option.getD_some, if_neg (by simp [hne, hdir])]
        rfl

theorem Mirrors.dirpathFromEvent (h : Mirrors w c) {p : Bytes} (hp : c.path ev = some p)
    (hdir : ev.mask.toInt32 &&& inIsdir ≠ 0) : dirpathFromEvent ev w = .ok (some p, w) := by
  rw [dirpathFromEvent_eq h.inotify, h.dirpath, if_neg hdir, hp]

/-- Events are reported where they happen. -/
theorem Mirrors.filenameFromEvent (h : Mirrors w c) (ev : Event) :
    ∃ path, filenameFromEvent ev w = .ok (path, w) ∧ path.dirname = (c ev.wd).getD [] := by
  refine ⟨_, filenameFromEvent_run h.inotify ev, ?_⟩
  unfold EventPath.dirname Store.eventPath
  dsimp only
  rw [List.take_length, h.names]
  split
  · next hzero =>
      cases hc : c ev.wd with
      | none => rfl
      | some p =>
          have hpos := (h.proper hc).1
          rw [hzero] at hpos
          exact absurd hpos (by decide)
  · rfl

omit [Sys σ] in
theorem Mirrors.not_departs (h : Mirrors w c) (hev : c.Ignores ev) : ¬ w.lib.Departs ev := by
  rintro ⟨hfrom, p, hp, hfound⟩
  rw [Inotifytools.dirpath_inotify h.inotify.mode, h.dirpath] at hp
  split at hp
  · cases hp
  · next hdir =>
      cases hwd : w.lib.store.wdOf p with
      | none => exact hfound hwd
      | some wd => exact hev.2 hdir hfrom p wd hp (h.wdOf.1 hwd)

namespace MoveTracker

variable {events : Int32} {announce : Bool} {out : List Piece → M σ Unit}

/-- The tracker notes what an event tells it, and asks nothing of the kernel. -/
theorem handle_tells {t : MoveTracker} {n n' : Notes} (h : Noted w t n) (htells : Tells n ev n') :
    ∃ t' w', Noted w' t' n' ∧ w'.os = w.os ∧ w'.lib.fd = w.lib.fd ∧ ∀ fuel,
      t.handle fuel ev true events announce out w = .ok (t', w') := by
  obtain ⟨hm, haway, hproper⟩ := h
  cases t
  cases haway
  cases htells with
  | @away c _ old wd hev hold hwd =>
      have hpath := hold
      obtain ⟨p, hp, rfl⟩ := Option.map_eq_some_iff.1 hold
      obtain ⟨hpos, hne⟩ := hm.proper hp
      have hpos' := (hm.proper hwd).1
      refine ⟨{ movedFrom := some (p ++ ev.name ++ [slash]) }, w, ⟨hm, rfl, ?_⟩, rfl, rfl,
        fun fuel => ?_⟩
      · rintro _ ⟨⟩
        exact List.concat_ne_nil slash _
      · exact handle_movedFrom hm.inotify hev (by grind) (hm.names ▸ hp) hne (hm.wdOf.2 hwd)
          (by grind) fuel events announce out
  | @back c _ old new hev hnew hnul hfree =>
      have hpath := hm.dirpathFromEvent hnew hev.isDir
      obtain ⟨p, hp, rfl⟩ := Option.map_eq_some_iff.1 hnew
      have hzero : 0 ∉ p ++ ev.name ++ [slash] := by
        have hslash : (0 : UInt8) ≠ slash := by decide
        simp [hm.noNul hp, hnul, hslash]
      obtain ⟨w', hrun, hos, hfd, hm'⟩ := hm.replaceFilename (hproper old rfl)
        (List.concat_ne_nil slash _) hzero hfree
      refine ⟨{}, w', ⟨hm', rfl, nofun⟩, hos, hfd, fun fuel => ?_⟩
      rw [handle_movedTo hev.toMovedTo hpath, Option.getD_some, Prog.bind_run_ok hrun]
      rfl
  | idle hev =>
      refine ⟨{}, w, ⟨hm, rfl, hproper⟩, rfl, rfl, fun fuel => ?_⟩
      exact handle_idle hm.inotify.storedNames hev.1 (hm.not_departs hev) fuel events announce out

end MoveTracker

/-! ## Changes of the tree -/

namespace Landscape

variable (L : Landscape σ)

/-- The directory `p` can be reached from `root`. -/
def Reach (os : σ) (root p : Bytes) : Prop :=
  Relation.ReflTransGen ((L.view os).tree.Subdirectory []) root p

/-- A change that needs no look at the tree, and the events of it. -/
inductive Change (root : Bytes) : σ → List Event → σ → Prop
  /-- The directory `old`, which is watched, becomes `new`; nothing at or below `new` was. -/
  | move {os os' : σ} {evFrom evTo : Event} {old new : Bytes} {wd : Int32}
      (hfrom : MovedFromDir evFrom) (hto : MovedToDir evTo) (hnul : 0 ∉ evTo.name)
      (hold : (L.view os).chart.path evFrom = some old)
      (hnew : (L.view os).chart.path evTo = some new) (hwd : (L.view os).chart wd = some old)
      (hfree : ∀ wd p, (L.view os).chart wd = some p → ¬ new <+: p)
      (hchart : (L.view os').chart = (L.view os).chart.moved old new)
      (htree : ∀ p, L.Reach os' root p → ∃ p₀, L.Reach os root p₀ ∧ p = moved old new p₀) :
      Change root os [evFrom, evTo] os'
  /-- Anything else, as long as no directory can be reached that could not be before. -/
  | other {os os' : σ} {evs : List Event} (hevs : ∀ ev ∈ evs, (L.view os).chart.Ignores ev)
      (hchart : (L.view os').chart = (L.view os).chart)
      (htree : ∀ p, L.Reach os' root p → L.Reach os root p) : Change root os evs os'

/-- The directory `new` appears; nothing at or below it was watched, and there is room for what is
    there now. -/
structure Appears (root : Bytes) (os : σ) (ev : Event) (new : Bytes) (os' : σ) : Prop where
  isDir : ev.mask.toInt32 &&& inIsdir ≠ 0
  isNew : ev.mask.toInt32 &&& inCreate ≠ 0 ∨ ev.mask.toInt32 &&& inMovedTo ≠ 0
  noNul : 0 ∉ ev.name
  path : (L.view os).chart.path ev = some new
  free : ∀ wd p, (L.view os).chart wd = some p → ¬ new <+: p
  chart : (L.view os').chart = (L.view os).chart
  seen : (L.view os').tree.hidden (Desk.trim new) = false
  readable : ∃ names, (L.view os').tree.look new = .directory names
  room : ∃ known : List Bytes, known.length ≤ (L.view os').room ∧ ∀ p, L.Reach os' new p → p ∈ known
  tree : ∀ p, L.Reach os' root p → L.Reach os root p ∨ L.Reach os' new p

/-- Every directory that can be reached is watched under its path. -/
def Complete (root : Bytes) (os : σ) : Prop :=
  ∀ p, L.Reach os root p → ∃ wd, (L.view os).chart wd = some p

variable {L} {root : Bytes} {os os' : σ}

/-- The events of a change tell of it. -/
theorem Change.owes {evs : List Event} (h : L.Change root os evs os') :
    Owes Sent.Leads ⟨(L.view os).chart, none⟩ (evs.map (L.view os).chart.sends)
      ⟨(L.view os').chart, none⟩ := by
  cases h with
  | move hfrom hto hnul hold hnew hwd hfree hchart _ =>
      rw [hchart]
      exact .cons ⟨rfl, .away hfrom hold hwd⟩ (.single ⟨rfl, .back hto hnew hnul hfree⟩)
  | other hevs hchart _ =>
      rw [hchart]
      induction evs with
      | nil => exact .nil _
      | cons ev evs ih =>
          obtain ⟨hev, hevs⟩ := List.forall_mem_cons.1 hevs
          exact .cons ⟨rfl, .idle hev⟩ (ih hevs)

theorem Change.complete {evs : List Event} (h : L.Change root os evs os')
    (hc : L.Complete root os) : L.Complete root os' := by
  intro p hp
  cases h with
  | move _ _ _ _ _ _ _ hchart htree =>
      obtain ⟨p₀, hp₀, rfl⟩ := htree p hp
      obtain ⟨wd, hwd⟩ := hc p₀ hp₀
      refine ⟨wd, ?_⟩
      rw [hchart, Chart.moved, hwd]
      rfl
  | other _ hchart htree => exact hchart ▸ hc p (htree p hp)

end Landscape

/-! ## A walk that is followed by nothing -/

variable {L : Landscape σ}

/-- The walk of a tree that is new to the chart enters the whole of it. -/
theorem Landscape.watchRecursively_charts (hm : Mirrors w (L.view w.os).chart)
    (hfd : w.lib.fd = L.fd) {path : Bytes} {names : List CString}
    (hroot : (L.view w.os).tree.look (cstring path).bytes = .directory names)
    (hfree : ∀ wd p, (L.view w.os).chart wd = some p → ¬ spelled (cstring path).bytes <+: p)
    {known : List Bytes} (hroom : known.length ≤ (L.view w.os).room)
    (hknown : ∀ p, L.Reach w.os (spelled (cstring path).bytes) p → p ∈ known) (events : Int32) :
    ∃ l fuel₀, (∀ p, p ∈ l ↔ L.Reach w.os (spelled (cstring path).bytes) p) ∧
      ∀ fuel, fuel₀ ≤ fuel → ∃ w', watchRecursively fuel path events w = .ok (true, w') ∧
        L.Surveying (L.view w.os).tree [] w' ∧ L.Charts l w w' := by
  have hfinite : ∃ bound, ∀ p, Relation.ReflTransGen ((L.view w.os).tree.Subdirectory [])
      (spelled (cstring path).bytes) p → p.length ≤ bound :=
    ⟨known.flatten.length, fun p hp => (List.sublist_flatten_of_mem (hknown p hp)).length_le⟩
  obtain ⟨l, fuel₀, hmem, hnodup, -, hvisits⟩ :=
    (L.surveyable (L.view w.os).tree).walk hroot hfinite events
  have hsub : l ⊆ known := fun p hp => hknown p ((hmem p).1 hp)
  have hsurvey : L.Surveying (L.view w.os).tree (l ++ []) w := by
    rw [List.append_nil]
    refine ⟨hm, hfd, rfl, fun p hp wd hwd => ?_, hnodup,
      (hnodup.subperm hsub).length_le.trans hroom⟩
    refine hfree wd p hwd ?_
    exact FileTree.prefix_of_reaches ((FileTree.reaches_below _ _).2 ((hmem p).1 hp))
  refine ⟨l, fuel₀, hmem, fun fuel hfuel => ?_⟩
  obtain ⟨w', hrun, hadds⟩ := hvisits fuel hfuel [] w hsurvey
  exact ⟨w', hrun, hadds.inv, hadds.watched⟩

/-! ## Directories that appear -/

/-- What is said is no matter to the kernel. -/
def Landscape.Hears (L : Landscape σ) (out : List Piece → M σ Unit) : Prop :=
  ∀ ps w, ∃ os, out ps w = .ok ((), { w with os }) ∧ L.view os = L.view w.os

/-- What inotifywait says. -/
theorem Landscape.hears_outputError (L : Landscape σ) (syslog : Bool) :
    L.Hears (Inotifywait.outputError syslog) := by
  intro ps w
  unfold Inotifywait.outputError
  cases syslog with
  | true => exact ⟨_, rfl, L.syslog _ _⟩
  | false => exact ⟨_, rfl, (L.fwrite _ _ _).1⟩

/-- What inotifywatch says. -/
theorem Landscape.hears_stderr (L : Landscape σ) :
    L.Hears fun msg => exec (Sys.fwrite .stderr (cat msg)) :=
  fun _ _ => ⟨_, rfl, (L.fwrite _ _ _).1⟩

/-- A directory that is not hidden is found to be one. -/
theorem Landscape.isdir_seen {p : CString}
    (hseen : (L.view w.os).tree.hidden (Desk.trim p.bytes) = false)
    (hdir : ((L.view w.os).tree.look p.bytes).isDirectory = true) :
    ∃ os, isdir p.bytes w = .ok (true, { w with os }) ∧ L.view os = L.view w.os := by
  obtain ⟨mode, hmode, hiff⟩ := L.lstat p w.os hseen
  refine ⟨_, ?_, L.peek (.lstat p w.os)⟩
  unfold isdir
  rw [cstring_bytes, call_bind, hmode]
  exact congrArg (fun b => Except.ok (b, _)) (decide_eq_true (hiff.2 hdir))

variable {root new : Bytes} {os : σ} {out : List Piece → M σ Unit}

/-- The tracker watches what has appeared. -/
theorem MoveTracker.handle_appears (events : Int32) (announce : Bool) (hout : L.Hears out) (hm : Mirrors w (L.view w.os).chart)
    (hfd : w.lib.fd = L.fd) (h : L.Appears root os ev new w.os) :
    ∃ l fuel₀, (∀ p, p ∈ l ↔ L.Reach w.os new p) ∧ ∀ fuel, fuel₀ ≤ fuel → ∃ w',
      handle {} fuel ev true events announce out w = .ok ({}, w') ∧
      L.Surveying (L.view w.os).tree [] w' ∧ L.Charts l w w' := by
  have hpath : (L.view w.os).chart.path ev = some new := h.chart ▸ h.path
  have hnew : 0 ∉ new ∧ spelled new = new ∧ new ≠ [] := by
    obtain ⟨n, hn, rfl⟩ := Option.map_eq_some_iff.1 hpath
    have hslash : (0 : UInt8) ≠ slash := by decide
    exact ⟨by simp [hm.noNul hn, h.noNul, hslash], spelled_concat _, List.concat_ne_nil slash _⟩
  obtain ⟨hnul, hspelled, hne⟩ := hnew
  obtain ⟨names, hlook⟩ := h.readable
  have hc : (cstring new).bytes = new := bytes_cstring hnul
  obtain ⟨os₁, hisdir, hview₁⟩ := L.isdir_seen (w := w) (p := ⟨new, hnul⟩) h.seen
    (by rw [hlook]; rfl)
  obtain ⟨os₂, hsay, hview₂⟩ : ∃ os₂, (if announce = true then
      out [.text "Watching new directory ", .bytes new, .text "\n"] else pure () : M σ Unit)
        { w with os := os₁ } = .ok ((), { w with os := os₂ }) ∧ L.view os₂ = L.view w.os := by
    cases announce with
    | true =>
        obtain ⟨os₂, hrun, hview⟩ := hout [.text "Watching new directory ", .bytes new, .text "\n"]
          { w with os := os₁ }
        exact ⟨os₂, hrun, hview.trans hview₁⟩
    | false => exact ⟨os₁, rfl, hview₁⟩
  -- neither lstat nor the message changes what the landscape looks like
  let w₂ : World σ := { w with os := os₂ }
  have hm₂ : Mirrors w₂ (L.view w₂.os).chart := by
    rw [hview₂]
    exact hm.same w.lib.error os₂
  obtain ⟨known, hroom, hknown⟩ := h.room
  have hlook₂ : (L.view w₂.os).tree.look (cstring new).bytes = .directory names := by
    rw [hc, hview₂, hlook]
  obtain ⟨l, fuel₀, hmem, hwalk⟩ := L.watchRecursively_charts hm₂ hfd hlook₂
    (by rw [hc, hspelled, hview₂, h.chart]; exact h.free)
    (by rw [hview₂]; exact hroom)
    (by
      unfold Landscape.Reach at hknown ⊢
      rw [hc, hspelled, hview₂]
      exact hknown) events
  unfold Landscape.Reach at hmem ⊢
  rw [hc, hspelled, hview₂] at hmem
  refine ⟨l, fuel₀, hmem, fun fuel hfuel => ?_⟩
  obtain ⟨w', hrun, hsurvey, hcharts⟩ := hwalk fuel hfuel
  rw [hview₂] at hsurvey
  have hsaid : L.Charts [] w w₂ := .same hview₂
  refine ⟨w', ?_, hsurvey, hsaid.trans hcharts⟩
  have hnewRun : watchNew fuel ev events announce out w = .ok ((), w') := by
    unfold watchNew
    rw [Prog.bind_run_ok (hm.dirpathFromEvent hpath h.isDir)]
    dsimp only
    rw [if_neg (by simp [hne]), Prog.bind_run_ok hisdir, if_neg (by decide), Prog.bind_run_ok hsay,
      Prog.bind_run_ok hrun]
    rfl
  show follow {} fuel ev events announce out w = _
  unfold follow
  dsimp only
  rw [if_pos (h.isNew.imp_right fun hto => ⟨rfl, hto⟩), Prog.bind_run_ok hnewRun]
  rfl

/-! ## Runs -/

/-- A handle, the tracker, and the events that are still to be handled. -/
structure Pursuit (σ : Type) where
  world : World σ
  moves : MoveTracker := {}
  queue : List Sent := []

namespace Pursuit

/-- The tree changes, an event is handled, or a directory appears when nothing is to be handled, and
    that is handled before anything else happens. -/
inductive Step (L : Landscape σ) (root : Bytes) (events : Int32) (announce : Bool)
    (out : List Piece → M σ Unit) : Pursuit σ → Pursuit σ → Prop
  | changes {w : World σ} {t : MoveTracker} {q : List Sent} {evs : List Event} {os : σ}
      (h : L.Change root w.os evs os) :
      Step L root events announce out ⟨w, t, q⟩
        ⟨{ w with os }, t, q ++ evs.map (L.view w.os).chart.sends⟩
  | handles {w w' : World σ} {t t' : MoveTracker} {m : Sent} {q : List Sent} {fuel : Nat}
      (h : t.handle fuel m.event true events announce out w = .ok (t', w')) :
      Step L root events announce out ⟨w, t, m :: q⟩ ⟨w', t', q⟩
  | appears {w w' : World σ} {t t' : MoveTracker} {ev : Event} {new : Bytes} {os : σ} {fuel : Nat}
      (h : L.Appears root w.os ev new os)
      (hrun : t.handle fuel ev true events announce out { w with os } = .ok (t', w')) :
      Step L root events announce out ⟨w, t, []⟩ ⟨w', t', []⟩

/-- The events that are still to be handled lead from what is noted to what the kernel knows, and that
    is all there is. -/
structure Follows (L : Landscape σ) (root : Bytes) (s : Pursuit σ) : Prop where
  fd : s.world.lib.fd = L.fd
  notes : ∃ n, Noted s.world s.moves n ∧
    Owes Sent.Leads n s.queue ⟨(L.view s.world.os).chart, none⟩
  complete : L.Complete root s.world.os

variable {events : Int32} {announce : Bool} {s s' : Pursuit σ}

/-- A tracker that has handled every event has caught up. -/
theorem Follows.caughtUp (h : s.Follows L root) (hq : s.queue = []) :
    s.moves = {} ∧ Mirrors s.world (L.view s.world.os).chart := by
  obtain ⟨n, hnoted, howes⟩ := h.notes
  rw [hq] at howes
  cases howes.caughtUp
  cases hmoves : s.moves
  have haway := hnoted.away
  rw [hmoves] at haway
  cases haway
  exact ⟨rfl, hnoted.mirrors⟩

/-- What has appeared is followed as soon as it is watched. -/
theorem Follows.appears {w : World σ} {t : MoveTracker} {os : σ} (hout : L.Hears out)
    (h : Follows L root ⟨w, t, []⟩) (happears : L.Appears root w.os ev new os) :
    ∃ fuel₀, ∀ fuel, fuel₀ ≤ fuel → ∃ w',
      t.handle fuel ev true events announce out { w with os } = .ok ({}, w') ∧
        Follows L root ⟨w', {}, []⟩ := by
  obtain ⟨hmoves, hm⟩ := h.caughtUp rfl
  dsimp only at hmoves hm
  subst hmoves
  rw [← happears.chart] at hm
  obtain ⟨l, fuel₀, hmem, hhandles⟩ := MoveTracker.handle_appears (w := { w with os })
    events announce hout (hm.same w.lib.error os) h.fd happears
  refine ⟨fuel₀, fun fuel hfuel => ?_⟩
  obtain ⟨w', hrun, hsurvey, hcharts⟩ := hhandles fuel hfuel
  refine ⟨w', hrun, hsurvey.fd, ⟨⟨_, none⟩, ⟨hsurvey.mirrors, rfl, nofun⟩, .nil _⟩, fun p hp => ?_⟩
  unfold Landscape.Reach at hp
  rw [hsurvey.tree] at hp
  rcases happears.tree p hp with hp | hp
  · obtain ⟨wd, hwd⟩ := h.complete p hp
    exact ⟨wd, hcharts.kept (happears.chart ▸ hwd)⟩
  · exact hcharts.got p ((hmem p).2 hp)

/-- When the turn of an event comes, the handle has the path of the time it is from. -/
theorem Follows.reports {w : World σ} {t : MoveTracker} {m : Sent} {q : List Sent}
    (h : Follows L root ⟨w, t, m :: q⟩) :
    ∃ path, filenameFromEvent m.event w = .ok (path, w) ∧ path.dirname = m.dir.getD [] := by
  obtain ⟨n, hnoted, howes⟩ := h.notes
  obtain ⟨-, ⟨hdir, -⟩, -⟩ := howes.take
  rw [hdir]
  exact hnoted.mirrors.filenameFromEvent m.event

/-- An event is handled whenever its turn comes. -/
theorem Follows.handles {w : World σ} {t : MoveTracker} {m : Sent} {q : List Sent}
    (h : Follows L root ⟨w, t, m :: q⟩) : ∃ t' w', Follows L root ⟨w', t', q⟩ ∧
      ∀ fuel, t.handle fuel m.event true events announce out w = .ok (t', w') := by
  obtain ⟨n, hnoted, howes⟩ := h.notes
  obtain ⟨n', ⟨-, htells⟩, howes⟩ := howes.take
  obtain ⟨t', w', hnoted', hos, hfd, hrun⟩ := MoveTracker.handle_tells hnoted htells
  rw [← hos] at howes
  exact ⟨t', w', ⟨hfd.trans h.fd, ⟨n', hnoted', howes⟩, hos ▸ h.complete⟩, hrun⟩

/-- One step. -/
theorem Step.follows (hout : L.Hears out) (h : Step L root events announce out s s')
    (hs : s.Follows L root) : s'.Follows L root := by
  cases h with
  | @changes w t q evs os hchange =>
      obtain ⟨n, hnoted, howes⟩ := hs.notes
      refine ⟨hs.fd, ⟨n, ?_, howes.append hchange.owes⟩, hchange.complete hs.complete⟩
      exact ⟨hnoted.mirrors.same w.lib.error os, hnoted.away, hnoted.proper⟩
  | handles hrun =>
      obtain ⟨t, w, hfollows, hrun'⟩ := hs.handles
      cases hrun.symm.trans (hrun' _)
      exact hfollows
  | @appears w w' t t' ev new os fuel happears hrun =>
      obtain ⟨fuel₀, hhandles⟩ := hs.appears hout happears
      obtain ⟨w'', hrun', hfollows⟩ := hhandles (max fuel fuel₀) (le_max_right _ _)
      have hmore := MoveTracker.handle_extends (le_max_left fuel fuel₀) t ev true events announce out
        _ _ hrun
      cases hmore.symm.trans hrun'
      exact hfollows

/-- Whole runs. -/
theorem follows_of_run (hout : L.Hears out)
    (h : Relation.ReflTransGen (Step L root events announce out) s s') (hs : s.Follows L root) :
    s'.Follows L root := by
  induction h with
  | refl => exact hs
  | tail _ hstep ih => exact hstep.follows hout ih

end Pursuit

/-! ## From the start -/

/-- A new handle that is initialised mirrors a kernel that watches nothing. -/
theorem Mirrors.init {watchFilesystem : Bool} {verbose : Int32}
    (h : InotifyTools.init false watchFilesystem verbose { lib := Inotifytools.new, os } = .ok (true, w)) :
    Mirrors w fun _ => none := by
  obtain ⟨pid, mark, _, fd, os, -, -, -, hrun⟩ :=
    init_run (w := { lib := Inotifytools.new, os }) rfl false watchFilesystem verbose
  rw [hrun] at h
  split at h
  · cases h
  · cases h
    refine ⟨⟨rfl, rfl, Store.wellIndexed_empty.clearIndexes, .clearIndexes _⟩, .clearIndexes _, ?_,
      nofun⟩
    funext wd
    rfl

/-- **A tracker follows the tree:** whatever changed, and however many events piled up, each is handled
    when its turn comes, and until then the handle has the paths of the time it is from; once all are
    handled, the watches have the paths that the kernel watches. -/
theorem tracker_follows_tree (L : Landscape σ) (hout : L.Hears out) {watchFilesystem : Bool}
    {verbose : Int32} (hinit : init false watchFilesystem verbose { lib := Inotifytools.new, os } =
      .ok (true, w)) (hfd : w.lib.fd = L.fd) (hnothing : ∀ wd, (L.view w.os).chart wd = none)
    {path : Bytes} {names : List CString}
    (hroot : (L.view w.os).tree.look (cstring path).bytes = .directory names) {known : List Bytes}
    (hroom : known.length ≤ (L.view w.os).room)
    (hknown : ∀ p, L.Reach w.os (spelled (cstring path).bytes) p → p ∈ known) (events : Int32)
    (announce : Bool) :
    ∃ fuel₀, ∀ fuel, fuel₀ ≤ fuel → ∃ w', watchRecursively fuel path events w = .ok (true, w') ∧
      let root := spelled (cstring path).bytes
      ∀ s, Relation.ReflTransGen (Pursuit.Step L root events announce out) { world := w' } s →
        L.Complete root s.world.os ∧
        (s.queue = [] → s.moves = {} ∧ ∀ wd p,
          (s.world.lib.store.nameOf wd = some p ↔ (L.view s.world.os).chart wd = some p) ∧
          (s.world.lib.store.wdOf p = some wd ↔ (L.view s.world.os).chart wd = some p)) ∧
        (∀ m q, s.queue = m :: q →
          (∃ path, filenameFromEvent m.event s.world = .ok (path, s.world) ∧
            path.dirname = m.dir.getD []) ∧
          ∃ t' w', ∀ fuel,
            s.moves.handle fuel m.event true events announce out s.world = .ok (t', w')) ∧
        (s.queue = [] → ∀ ev new os, L.Appears root s.world.os ev new os → ∃ fuel₀,
          ∀ fuel, fuel₀ ≤ fuel → ∃ w', s.moves.handle fuel ev true events announce out
            { s.world with os } = .ok ({}, w')) := by
  have hchart : (L.view w.os).chart = fun _ => none := funext hnothing
  have hm : Mirrors w (L.view w.os).chart := hchart ▸ Mirrors.init hinit
  obtain ⟨l, fuel₀, hmem, hwalk⟩ := L.watchRecursively_charts hm hfd hroot
    (fun wd p hp => by rw [hnothing] at hp; cases hp) hroom hknown events
  refine ⟨fuel₀, fun fuel hfuel => ?_⟩
  obtain ⟨w', hrun, hsurvey, hcharts⟩ := hwalk fuel hfuel
  refine ⟨w', hrun, ?_⟩
  intro root s hs
  have hstart : Pursuit.Follows L root { world := w' } := by
    refine ⟨hsurvey.fd, ⟨⟨_, none⟩, ⟨hsurvey.mirrors, rfl, nofun⟩, .nil _⟩, fun p hp => ?_⟩
    unfold Landscape.Reach at hp
    rw [hsurvey.tree] at hp
    exact hcharts.got p ((hmem p).2 hp)
  -- the walk sets up what every step keeps
  have hfollows := Pursuit.follows_of_run hout hs hstart
  obtain ⟨v, t, q⟩ := s
  refine ⟨hfollows.complete, fun hq => ?_, fun m q hq => ?_, fun hq ev new os happears => ?_⟩
  · obtain ⟨hmoves, hm⟩ := hfollows.caughtUp hq
    exact ⟨hmoves, fun wd p => ⟨by rw [hm.names], hm.wdOf⟩⟩
  · cases hq
    obtain ⟨t', w', -, hrun⟩ := hfollows.handles
    exact ⟨hfollows.reports, t', w', hrun⟩
  · cases hq
    obtain ⟨fuel₀, hhandles⟩ := hfollows.appears hout happears
    refine ⟨fuel₀, fun fuel hfuel => ?_⟩
    obtain ⟨w', hrun, -⟩ := hhandles fuel hfuel
    exact ⟨w', hrun⟩

/-! ## A garden that grows -/

namespace Garden

variable {d : Garden} {t : FileTree} {old new : Bytes} {evFrom evTo : Event} {before after : List Bytes}

theorem mem_of_reach {l : List Bytes} (h : Spans (d.tree.below []) root l) {p : Bytes} :
    p ∈ l ↔ landscape.Reach d root p := by
  unfold Landscape.Reach
  rw [h.mem_iff, FileTree.reaches_below]
  rfl

theorem appears {l : List Bytes} (hdir : ev.mask.toInt32 &&& inIsdir ≠ 0)
    (hnew : ev.mask.toInt32 &&& inCreate ≠ 0) (hnul : 0 ∉ ev.name)
    (hpath : Chart.path (charted d.watched) ev = some new) (hfree : ∀ p ∈ d.watched, ¬ new <+: p)
    (hseen : t.hidden (Desk.trim new) = false) {names : List CString}
    (hlook : t.look new = .directory names) (hroom : d.watched.length + l.length ≤ capacity)
    (hbefore : Spans (d.tree.below []) root before) (hafter : Spans (t.below []) root after)
    (hl : Spans (t.below []) new l) (hall : ∀ p ∈ after, p ∈ before ∨ p ∈ l) :
    landscape.Appears root d ev new { d with tree := t } where
  isDir := hdir
  isNew := .inl hnew
  noNul := hnul
  path := hpath
  free wd p hp := hfree p (mem_of_charted hp)
  chart := rfl
  seen := hseen
  readable := ⟨names, hlook⟩
  room := ⟨l, Nat.le_sub_of_add_le' hroom, fun _ hp =>
    (mem_of_reach (d := { d with tree := t }) hl).2 hp⟩
  tree p hp := by
    rcases hall p ((mem_of_reach (d := { d with tree := t }) hafter).2 hp) with hp | hp
    · exact .inl ((mem_of_reach hbefore).1 hp)
    · exact .inr ((mem_of_reach (d := { d with tree := t }) hl).1 hp)

theorem move (hfrom : MovedFromDir evFrom) (hto : MovedToDir evTo) (hnul : 0 ∉ evTo.name)
    (hold : Chart.path (charted d.watched) evFrom = some old)
    (hnew : Chart.path (charted d.watched) evTo = some new) {wd : Int32}
    (hwd : charted d.watched wd = some old) (hfree : ∀ p ∈ d.watched, ¬ new <+: p)
    (hbefore : Spans (d.tree.below []) root before) (hafter : Spans (t.below []) root after)
    (hall : ∀ p ∈ after, ∃ p₀ ∈ before, p = moved old new p₀) :
    landscape.Change root d [evFrom, evTo]
      { d with tree := t, watched := d.watched.map (moved old new) } := by
  refine .move hfrom hto hnul hold hnew hwd (fun wd p hp => hfree p (mem_of_charted hp)) ?_ ?_
  · funext wd
    exact charted_map _ wd
  · intro p hp
    obtain ⟨p₀, hp₀, he⟩ := hall p ((mem_of_reach (d := { d with tree := t }) hafter).2 hp)
    exact ⟨p₀, (mem_of_reach hbefore).1 hp₀, he⟩

end Garden

/-- "/t/b/x/" appears; then "/t/a/" becomes "/t/b/d/", and the tracker gets to know. -/
theorem tracker_follows_tree_garden :
    let w₀ := (init false false 0).after
      { lib := Inotifytools.new, os := ({ tree := tendedTree } : Garden) }
    let out : List Piece → M Garden Unit := fun msg => exec (Sys.fwrite .stderr (cat msg))
    ∃ fuel w s, watchRecursively fuel (ascii "/t") 2 w₀ = .ok (true, w) ∧
      Relation.ReflTransGen (Pursuit.Step Garden.landscape (ascii "/t/") 2 false out) { world := w } s ∧
      s.queue = [] ∧ s.world.lib.store.nameOf 1 = some (ascii "/t/b/d/c/") ∧
      s.world.lib.store.wdOf (ascii "/t/b/x/") = some 4 := by
  intro w₀ out
  let evNew : Event := { wd := 3, mask := 0x40000100, name := ascii "b" }
  let evFrom : Event := { wd := 3, mask := 0x40000040, name := ascii "a" }
  let evTo : Event := { wd := 5, mask := 0x40000080, name := ascii "d" }
  let old := ascii "/t/a/"
  let new := ascii "/t/b/d/"
  let t : MoveTracker := { movedFrom := some old }
  let handle (t : MoveTracker) (ev : Event) := t.handle 9 ev true 2 false out
  let grow (v : World Garden) : World Garden := { v with os := { v.os with tree := grownTree } }
  let move (v : World Garden) : World Garden :=
    { v with os := { v.os with tree := movedTree, watched := v.os.watched.map (moved old new) } }
  have hmain : ∀ w₀ w v u u' : World Garden,
      init false false 0 { lib := Inotifytools.new, os := { tree := tendedTree } } = .ok (true, w₀) →
      w₀.lib.fd = Garden.instanceFd → w₀.os.watched = [] →
      (w₀.os.tree.look (cstring (ascii "/t")).bytes).isReadable = true →
      Spans (w₀.os.tree.below []) (ascii "/t/") tendedDirs →
      watchRecursively 9 (ascii "/t") 2 w₀ = .ok (true, w) → w.os.watched = tendedDirs →
      Spans (w.os.tree.below []) (ascii "/t/") tendedDirs →
      handle {} evNew (grow w) = .ok ({}, v) → v.os.watched = tendedDirs ++ newDirs →
      Spans (v.os.tree.below []) (ascii "/t/") grownDirs →
      handle {} evFrom (move v) = .ok (t, u) → handle t evTo u = .ok ({}, u') →
      u'.os.watched = (tendedDirs ++ newDirs).map (moved old new) →
      ∃ fuel w s, watchRecursively fuel (ascii "/t") 2 w₀ = .ok (true, w) ∧
        Relation.ReflTransGen (Pursuit.Step Garden.landscape (ascii "/t/") 2 false out)
          { world := w } s ∧
        s.queue = [] ∧ s.world.lib.store.nameOf 1 = some (ascii "/t/b/d/c/") ∧
        s.world.lib.store.wdOf (ascii "/t/b/x/") = some 4 := by
    intro w₀ w v u u' hinit hfd hnone hread hspans₀ hwalk hw hspans hgrow hv hgrown hfrom hto hu'
    obtain ⟨names, hlook⟩ := Node.eq_directory hread
    have hroot : spelled (cstring (ascii "/t")).bytes = ascii "/t/" := by decide +kernel
    have hcharts : (Garden.landscape.view u'.os).chart =
        Garden.charted ((tendedDirs ++ newDirs).map (moved old new)) :=
      congrArg Garden.charted hu'
    have hnothing : ∀ wd, (Garden.landscape.view w₀.os).chart wd = none := by
      intro wd
      show Garden.charted w₀.os.watched wd = none
      rw [hnone, Garden.charted_nil]
    have hroom : tendedDirs.length ≤ (Garden.landscape.view w₀.os).room := by
      show _ ≤ Garden.capacity - w₀.os.watched.length
      rw [hnone]
      decide
    have hknown : ∀ p, Garden.landscape.Reach w₀.os (spelled (cstring (ascii "/t")).bytes) p →
        p ∈ tendedDirs := by
      rw [hroot]
      exact fun p => (Garden.mem_of_reach hspans₀).2
    obtain ⟨fuel₀, hfollows⟩ := tracker_follows_tree Garden.landscape (Landscape.hears_stderr _) hinit
      hfd hnothing hlook hroom hknown 2 false
    obtain ⟨w', hwalk', hruns⟩ := hfollows (max fuel₀ 9) (le_max_left _ _)
    have hmore := watchRecursivelyWithExclude_extends (le_max_right fuel₀ 9) _ _ _ _ _ hwalk
    cases hwalk'.symm.trans hmore
    have hgrows : Garden.landscape.Appears (ascii "/t/") w.os evNew (ascii "/t/b/") (grow w).os := by
      have hafter : Spans (grownTree.below []) (ascii "/t/") grownDirs := by decide +kernel
      have hnew : Spans (grownTree.below []) (ascii "/t/b/") newDirs := by decide +kernel
      refine Garden.appears (by decide) (by decide) (by decide) ?_ ?_ (by decide +kernel) rfl ?_ hspans
        hafter hnew (by decide +kernel)
      all_goals rw [hw]; decide +kernel
    have hmoves : Garden.landscape.Change (ascii "/t/") v.os [evFrom, evTo] (move v).os := by
      have hafter : Spans (movedTree.below []) (ascii "/t/") movedDirs := by decide +kernel
      have hwd : Garden.charted v.os.watched 2 = some old := by
        rw [hv]
        decide +kernel
      refine Garden.move ⟨by decide, by decide, by decide, by decide⟩
        ⟨⟨by decide, by decide, by decide⟩, by decide⟩ (by decide) ?_ ?_ hwd ?_ hgrown hafter
        (by decide +kernel)
      all_goals rw [hv]; decide +kernel
    have hrun : Relation.ReflTransGen (Pursuit.Step Garden.landscape (ascii "/t/") 2 false out)
        { world := w } { world := u' } :=
      .tail (.tail (.tail (.single (.appears hgrows hgrow)) (.changes hmoves)) (.handles hfrom))
        (.handles hto)
    rw [hroot] at hruns
    obtain ⟨-, hcaughtUp, -⟩ := hruns _ hrun
    obtain ⟨-, hnames⟩ := hcaughtUp rfl
    rw [hcharts] at hnames
    refine ⟨_, w, _, hwalk', hrun, rfl, (hnames _ _).1.2 ?_, (hnames _ _).2.2 ?_⟩
    · decide +kernel
    · decide +kernel
  let w := (watchRecursively 9 (ascii "/t") 2).after w₀
  let v := (handle {} evNew).after (grow w)
  let u := (handle {} evFrom).after (move v)
  let u' := (handle t evTo).after u
  exact hmain w₀ w v u u' (Prog.run_of_result (by decide +kernel)) (by decide +kernel)
    (by decide +kernel) (by decide +kernel) (by decide +kernel)
    (Prog.run_of_result (by decide +kernel)) (by decide +kernel) (by decide +kernel)
    (Prog.run_of_result (by decide +kernel)) (by decide +kernel) (by decide +kernel)
    (Prog.run_of_result (by decide +kernel)) (Prog.run_of_result (by decide +kernel))
    (by decide +kernel)

end InotifyTools
