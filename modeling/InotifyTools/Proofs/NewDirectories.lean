import InotifyTools.Proofs.Masked
import InotifyTools.Proofs.Unseen
import InotifyTools.Proofs.Walks

set_option autoImplicit false

/-! # Directories that are created

A directory that is created in a watched one is watched once the program has heard of it. Whether it
hears is decided by the mask it has added the watches with, and inotifywatch builds that mask from the
event selection alone. -/

namespace InotifyTools

/-! ## Hearing of a creation -/

/-- The event that a directory `name` was created in the directory watched as `wd`. -/
structure Event.Creates (ev : Event) (wd : Int32) (name : Bytes) : Prop where
  wd : ev.wd = wd
  mask : ev.mask = (inCreate ||| inIsdir).toUInt32
  name : ev.name = name

section Hearing

variable {σ : Type} [Sys σ] {w v w' : World σ}

/-- `Encounters c fuel w v`: from `w`, the loop of `next_events` drops some events, and then takes one
    in `v`, which it may drop too. -/
inductive Encounters (c : Call) : Nat → World σ → World σ → Prop
  | here {fuel : Nat} {w v : World σ}
      (htake : takeRecord fuel c.timeout c.numEvents w = .ok (some 0, v)) : Encounters c (fuel + 1) w v
  | skip {fuel : Nat} {w w₁ v : World σ}
      (hround : eventRound fuel c.timeout c.numEvents w = .ok (.skip, w₁))
      (h : Encounters c fuel w₁ v) : Encounters c (fuel + 1) w v

/-- The creation of a directory is not subject to the filter. -/
def Inotifytools.Exempts (l : Inotifytools) : Prop := l.regex = none ∨ l.recursiveWatch ≠ 0

theorem Effects.exempts {S : Set Kind} (h : Effects S w w') (hS : Kind.config ∉ S)
    (hw : w.lib.Exempts) : w'.lib.Exempts := by
  obtain ⟨hre, -, hrec⟩ : w'.lib.regex = w.lib.regex ∧ w'.lib.invertRegexp = w.lib.invertRegexp ∧
      w'.lib.recursiveWatch = w.lib.recursiveWatch := by
    simpa only [Prod.mk.injEq] using h.filter_eq hS
  rwa [Inotifytools.Exempts, hre, hrec]

/-- A turn that drops its event leaves the store alone. -/
theorem eventRound_skip (hz : ¬ AnsweredZero σ) (h : Inotify w) {fuel : Nat} {timeout : Int}
    {numEvents : Int32} (hrun : eventRound fuel timeout numEvents w = .ok (.skip, w')) :
    Effects {.stream} w w' := by
  rw [eventRound_eq] at hrun
  obtain ⟨pid, v, htake, hdeliver⟩ := Prog.bind_ok hrun
  have he := ((takeRecord_sound h fuel timeout numEvents).ok htake).1
  cases pid with
  | none => cases hdeliver
  | some pid =>
      dsimp only at hdeliver
      rw [deliver_eq (h.effects hz he nofun)] at hdeliver
      split at hdeliver
      · cases hdeliver
        exact he
      · split at hdeliver <;> cases hdeliver
        exact he

/-- What is taken on the way changes the event stream alone. -/
theorem Encounters.effects (hz : ¬ AnsweredZero σ) {c : Call} {fuel : Nat}
    (h : Encounters c fuel w v) (hw : Inotify w) : Effects {.stream} w v := by
  induction h with
  | here htake => exact ((takeRecord_sound hw _ _ _).ok htake).1
  | skip hround _ ih =>
      have he := eventRound_skip hz hw hround
      exact he.trans (ih (hw.effects hz he nofun))

/-- The creation of a directory is delivered when it is taken. -/
theorem Encounters.receives (hz : ¬ AnsweredZero σ) {c : Call} {fuel : Nat}
    (h : Encounters c fuel w v) (hw : Inotify w) (hexempt : w.lib.Exempts) {wd : Int32} {name : Bytes}
    (hev : v.lib.stream.currentEvent.Creates wd name) : Receives c fuel w v v.delivered := by
  induction h with
  | @here fuel w v htake =>
      have he := ((takeRecord_sound hw _ _ _).ok htake).1
      have hkept : v.lib.drops v.lib.stream.currentEvent = false := by
        unfold Inotifytools.drops Inotifytools.rejects
        rcases he.exempts nofun hexempt with hre | hrec
        · rw [hre]
          rfl
        · have hfilter : filterExempt v.lib v.lib.stream.currentEvent.mask = true := by
            rw [hev.mask]
            exact decide_eq_true ⟨hrec, by decide, by decide⟩
          rw [hfilter, Bool.not_true, Bool.and_false]
      refine ⟨_, _, _, .here htake, ?_⟩
      rw [deliver_eq (hw.effects hz he nofun), if_neg (fun hp => hp.1 hp.2), hkept]
      rfl
  | skip hround _ ih =>
      have he := eventRound_skip hz hw hround
      obtain ⟨n, u, pid, hmeets, hdeliver⟩ := ih (hw.effects hz he nofun) (he.exempts nofun hexempt) hev
      exact ⟨n, u, pid, .later hround hmeets, hdeliver⟩

/-- If the first event that is taken is returned, the loop comes to no other. -/
theorem Encounters.first {c : Call} {fuel : Nat} (h : Encounters c (fuel + 1) w v)
    (hround : (eventRound fuel c.timeout c.numEvents).result w = some .event) :
    v = (takeRecord fuel c.timeout c.numEvents).after w := by
  cases h with
  | here htake => exact (Prog.after_of_ok htake).symm
  | skip hskip => cases (Prog.result_of_ok hskip).symm.trans hround

end Hearing

/-! ## Following a creation -/

namespace MoveTracker

/-- Settling a move takes no name but that of the directory that has moved away. -/
theorem settle_keeps {σ : Type} [Sys σ] {w w' : World σ} (h : Inotify w) {t t' : MoveTracker}
    {wd : Int32} (hpending : ∀ mf ∈ t.movedFrom, w.lib.store.wdOf mf ≠ some wd) {ev : Event}
    {out : List Piece → M σ Unit} (hout : Prints out) (hrun : t.settle ev out w = .ok (t', w')) :
    w'.lib.store.nameOf wd = w.lib.store.nameOf wd := by
  unfold settle at hrun
  cases hmf : t.movedFrom with
  | none =>
      rw [hmf] at hrun
      cases hrun
      rfl
  | some mf =>
      rw [hmf] at hrun
      dsimp only at hrun
      split at hrun
      · obtain ⟨ok, w₁, hremove, hrest⟩ := Prog.bind_ok hrun
        have hsrest : Sound ∅ (do
            (if (!ok) = true then do
              out [.text "Error removing watch on ", .bytes mf, .text ": ",
                .bytes (← strerror (← getLib).error), .text "\n"]
            else pure ())
            return { movedFrom := none } : M σ MoveTracker) :=
          .bind (.ite (.bind .getLib fun _ => .bind (strerror_sound _) fun _ => hout _) (.pure _))
            fun _ => .pure _
        have hw₁ : w₁.lib.store.WellIndexed ∧ w₁.lib.store.nameOf wd = w.lib.store.nameOf wd := by
          have hrw : removeWatch w.lib.store.byFilename[mf]? w = .ok (ok, w₁) := hremove
          cases hid : w.lib.store.byFilename[mf]? with
          | none =>
              rw [hid, removeWatch_missing h.initialized] at hrw
              cases hrw
              exact ⟨h.wellIndexed, rfl⟩
          | some id =>
              obtain ⟨v, hv, -, hwd⟩ := h.wellIndexed.found_filename hid
              have hne : v.wd ≠ wd := fun he => hpending mf hmf (he ▸ hwd)
              obtain ⟨w₂, hrm, hleaves⟩ := removeWatch_run h.initialized hv
                (h.plain id v (.inr ⟨mf, hid⟩) hv)
              rw [hid, hrm] at hrw
              cases hrw
              rw [hleaves.store]
              split
              · exact ⟨h.wellIndexed.remove hv,
                  (Store.nameOf_remove h.wellIndexed hv wd).trans (if_neg hne)⟩
              · exact ⟨h.wellIndexed, rfl⟩
        have he := ((hsrest w₁ hw₁.1).ok hrest).1
        rw [he.sameBooks.store]
        exact hw₁.2
      · cases hrun
        rfl

variable {σ : Type} [Sys σ] {w w' : World (Logged σ)} {out : List Piece → M (Logged σ) Unit}

/-- What is a directory is taken for one. -/
theorem isdir_stands {p : Bytes} (hp : 0 ∉ p) {isDir : Bool} (hrun : isdir p w = .ok (isDir, w'))
    (hstands : Standing p w w') : isDir = true := by
  obtain ⟨mode, w₁, hstat, hrest⟩ := Prog.bind_ok hrun
  obtain ⟨hlog, -⟩ := call_logged (e := .lstat (cstring p)) hstat
  have hsame : w'.os.log = w₁.os.log ∧ ∀ m ∈ mode, isDir = decide (m &&& sIfmt = sIfdir) := by
    cases mode with
    | none =>
        obtain ⟨e, w₂, herrno, hrest⟩ := Prog.bind_ok hrest
        cases herrno
        obtain ⟨reason, w₃, hreason, hrest⟩ := Prog.bind_ok hrest
        cases hreason
        obtain ⟨_, w₄, hprint, hrest⟩ := Prog.bind_ok hrest
        cases hrest
        refine ⟨?_, nofun⟩
        split at hprint <;> cases hprint <;> rfl
    | some m =>
        cases hrest
        exact ⟨rfl, by rintro _ ⟨⟩; rfl⟩
  have hmem : ⟨.lstat (cstring p) mode, Sys.errno w₁.os⟩ ∈ callsBetween w w' := by
    rw [callsBetween_eq (hsame.1.trans hlog)]
    exact List.mem_singleton_self _
  obtain ⟨m, hm, hdir⟩ : ∃ m ∈ mode, m &&& sIfmt = sIfdir := hstands _ hmem (bytes_cstring hp)
  rw [hsame.2 m hm, decide_eq_true hdir]

/-- The directory that an event reports as new is watched, unless its walk is given up. -/
theorem watchNew_covers (hz : ¬ AnsweredZero (Logged σ)) (hn : ProperNames σ) (h : Inotify w)
    (hout : Prints out) {ev : Event} {path : Bytes} (hpath : w.lib.store.dirpath ev = some path)
    (hnul : 0 ∉ path) (hslash : path.getLast? = some slash) {fuel : Nat} {events : Int32}
    {announce : Bool} {u : Unit} (hrun : watchNew fuel ev events announce out w = .ok (u, w'))
    (hstands : Standing path w w') (hpassed : AllPassed path w w') : Covered path w w' := by
  have hprint : ∀ ps, Sound ({.watch} : Set Kind) (out ps) := fun ps =>
    (hout ps).mono (Set.empty_subset _)
  have hwalks := watchRecursivelyWithExclude_sound (σ := Logged σ) (S := {.watch}) rfl nofun fuel path
    events []
  have hsend : Sound ∅ (do
      let e ← strerror (← getLib).error
      out [.text "Couldn't watch new directory ", .bytes path, .text ": ", .bytes e, .text "\n"]) :=
    .bind .getLib fun _ => .bind (strerror_sound _) fun _ => hout _
  unfold watchNew at hrun
  rw [Prog.bind_run_ok (dirpathFromEvent_eq h ev), hpath] at hrun
  dsimp only at hrun
  rw [if_neg (by rw [List.isEmpty_iff]; rintro rfl; cases hslash)] at hrun
  obtain ⟨isDir, w₁, hisdir, hrest⟩ := Prog.bind_ok hrun
  have he₁ := ((isdir_sound (S := {.watch}) path w h.wellIndexed).ok hisdir).1
  have h₁ := h.effects hz he₁ nofun
  have hsrest : Sound {.watch} (if (!isDir) = true then pure () else do
      (if announce then out [.text "Watching new directory ", .bytes path, .text "\n"] else pure ())
      let ok ← watchRecursively fuel path events
      (if !ok then do
        let e ← strerror (← getLib).error
        out [.text "Couldn't watch new directory ", .bytes path, .text ": ", .bytes e, .text "\n"]
      else pure ())) :=
    .ite (.pure _) (.bind (.ite (hprint _) (.pure _)) fun _ => .bind hwalks fun _ =>
      .ite (hsend.mono (Set.empty_subset _)) (.pure _))
  have hpre := ((hsrest w₁ h₁.wellIndexed).ok hrest).1.log_extends
  rw [isdir_stands hnul hisdir (hstands.part List.prefix_rfl he₁.log_extends hpre)] at hrest
  -- announcing it and reporting a failure change nothing
  obtain ⟨_, w₂, hannounce, hrest⟩ := Prog.bind_ok hrest
  have hsannounce : Sound {.watch} (if announce then
      out [.text "Watching new directory ", .bytes path, .text "\n"] else pure ()) :=
    .ite (hprint _) (.pure _)
  have he₂ := ((hsannounce w₁ h₁.wellIndexed).ok hannounce).1
  have h₂ := h₁.effects hz he₂ nofun
  obtain ⟨ok, w₃, hwalk, hend⟩ := Prog.bind_ok hrest
  have he₃ := ((hwalks w₂ h₂.wellIndexed).ok hwalk).1
  have he₄ := (((hsend.ite (.pure _) : Sound ∅ (if (!ok) = true then _ else pure ())) w₃
    (h₂.effects hz he₃ nofun).wellIndexed).ok hend).1
  have hbefore := he₁.log_extends.trans he₂.log_extends
  obtain ⟨-, e, hmem, wd, hcall, hpos, id, hid⟩ := watchRecursively_covers hz hn h₂ hnul hslash hwalk
    (hstands.part hbefore he₃.log_extends he₄.log_extends)
    (hpassed.part hbefore he₃.log_extends he₄.log_extends)
  refine ⟨e, callsBetween_subset hbefore he₃.log_extends he₄.log_extends hmem, wd, hcall, hpos, id, ?_⟩
  rw [he₄.sameBooks.store]
  exact hid

/-- A directory that is created is watched, unless its walk is given up. -/
theorem handle_creation (hz : ¬ AnsweredZero (Logged σ)) (hn : ProperNames σ) (h : Inotify w)
    {ev : Event} {wd : Int32} {d name : Bytes} (hev : ev.Creates wd name) (hwd : wd ≠ 0)
    (hname : w.lib.store.nameOf wd = some d) (hd : d ≠ []) (hnul : 0 ∉ name) {t t' : MoveTracker}
    (hpending : ∀ mf ∈ t.movedFrom, w.lib.store.wdOf mf ≠ some wd) (hout : Prints out) {fuel : Nat}
    {events : Int32} {announce : Bool}
    (hrun : t.handle fuel ev true events announce out w = .ok (t', w'))
    (hstands : Standing (d ++ name ++ [slash]) w w')
    (hpassed : AllPassed (d ++ name ++ [slash]) w w') : Covered (d ++ name ++ [slash]) w w' := by
  obtain ⟨t₁, w₁, hsettle, hfollow⟩ := Prog.bind_ok hrun
  have he₁ := ((settle_sound (S := {.remove}) rfl hout t ev w h.wellIndexed).ok hsettle).1
  have h₁ : Inotify w₁ := h.effects hz he₁ nofun
  change t₁.follow fuel ev events announce out w₁ = _ at hfollow
  unfold follow at hfollow
  dsimp only at hfollow
  rw [if_pos (.inl (by rw [hev.mask]; decide))] at hfollow
  obtain ⟨_, w₂, hnew, hrest⟩ := Prog.bind_ok hfollow
  cases hrest
  -- the new directory is where its parent's name says
  have hdirpath : w₁.lib.store.dirpath ev = some (d ++ name ++ [slash]) := by
    unfold Store.dirpath
    rw [hev.wd, if_neg hwd, settle_keeps h hpending hout hsettle, hname, hev.mask, hev.name]
    refine if_neg fun hnone => hnone.elim (fun he => hd (List.isEmpty_iff.1 he)) ?_
    decide
  have hnul' : 0 ∉ d ++ name ++ [slash] := by
    have hslash : (0 : UInt8) ≠ slash := by decide
    simp [Store.nameOf_noNul hname, hnul, hslash]
  have he₂ := ((watchNew_sound (S := {.watch}) rfl nofun hout fuel ev events announce w₁
    h₁.wellIndexed).ok hnew).1
  obtain ⟨e, hmem, hcov⟩ := watchNew_covers hz hn h₁ hout hdirpath hnul' List.getLast?_concat hnew
    (hstands.part he₁.log_extends he₂.log_extends List.prefix_rfl)
    (hpassed.part he₁.log_extends he₂.log_extends List.prefix_rfl)
  exact ⟨e, callsBetween_subset he₁.log_extends he₂.log_extends List.prefix_rfl hmem, hcov⟩

end MoveTracker

/-! ## The filter -/

section Filter

variable {σ α : Type} [Sys σ] {w : World σ}

/-- The runs of `m` leave the creation of a directory exempt. -/
abbrev Exempting (m : M σ α) : Prop :=
  Prog.Keeps (Prog.Inherits fun w => w.lib.store.WellIndexed ∧ w.lib.Exempts) m

theorem sound_exempting {S : Set Kind} {m : M σ α} (hm : Sound S m) (hc : Kind.config ∉ S) :
    Exempting m := by
  rintro w a w' hrun ⟨hw, hexempt⟩
  have he := ((hm w hw).ok hrun).1
  exact ⟨he.wellIndexed hw, he.exempts hc hexempt⟩

/-- Most of a program leaves the filter alone. -/
theorem quiet_exempting {m : M σ α} (hm : Sound ∅ m) : Exempting m :=
  sound_exempting hm (Set.notMem_empty _)

/-- With `-r` a filter is installed for recursive watching. -/
theorem doIgnoreEventsByRegex_exempting (pattern : Option Bytes) (flags : Int32) (invert : Bool)
    {recursive : Int32} (hr : recursive ≠ 0) :
    Exempting (doIgnoreEventsByRegex pattern flags invert recursive : M σ Bool) := by
  cases pattern with
  | none => exact .bind (.update fun _ h => ⟨h.1, .inl rfl⟩) fun _ => .pure _
  | some pattern =>
      rintro w ok w' hrun ⟨hw, -⟩
      obtain ⟨_, w₁, hset, hrest⟩ := Prog.bind_ok hrun
      cases hset
      obtain ⟨re, w₂, hcomp, hrest⟩ := Prog.bind_ok hrest
      have hlib : w₂.lib.store = w.lib.store ∧ w₂.lib.recursiveWatch = recursive := by
        cases hcomp
        exact ⟨rfl, rfl⟩
      cases re <;> cases hrest <;> exact ⟨hlib.1 ▸ hw, .inr (hlib.2 ▸ hr)⟩

theorem Filters.install_exempting (f : Filters) {recursive : Int32} (hr : recursive ≠ 0) :
    Exempting (f.install recursive : M σ Bool) := by
  have heach : ∀ (ignore : Option Bytes → Int32 → M σ Bool) (msg : String)
      (res : List (Option Bytes × Int32)), (∀ re flags, Exempting (ignore re flags)) →
      Exempting (Filters.installEach ignore msg res) := by
    intro ignore msg res hignore
    induction res with
    | nil => exact .pure true
    | cons re res ih =>
        obtain ⟨re, flags⟩ := re
        cases re with
        | none => exact ih
        | some re =>
            refine .bind (hignore _ _) fun _ => .ite ?_ ih
            exact .bind (quiet_exempting (ceprint_sound _)) fun _ => .pure _
  refine .bind (heach _ _ _ fun re flags => ?_) fun _ => .ite (.pure _) (heach _ _ _ fun re flags => ?_)
  · exact doIgnoreEventsByRegex_exempting _ _ _ hr
  · exact doIgnoreEventsByRegex_exempting _ _ _ hr

theorem init_exempting (fanotify watchFilesystem : Bool) (verbose : Int32) :
    Exempting (init fanotify watchFilesystem verbose : M σ Bool) := by
  rintro w ok w' hrun ⟨hw, hexempt⟩
  refine ⟨((init_sound (S := Set.univ) trivial trivial trivial fanotify watchFilesystem verbose w
    hw).ok hrun).1.wellIndexed hw, ?_⟩
  by_cases hi : w.lib.initialized = true
  · unfold init at hrun
    rw [getLib_bind, if_pos hi] at hrun
    cases hrun
    exact hexempt
  · obtain ⟨_, _, _, fd, _, -, -, -, hinit⟩ := init_run (Bool.eq_false_iff.2 hi) fanotify
      watchFilesystem verbose
    rw [hrun] at hinit
    by_cases hfd : fd < 0
    · rw [if_pos hfd] at hinit
      cases hinit
      exact hexempt
    · rw [if_neg hfd] at hinit
      cases hinit
      exact hexempt

end Filter

/-! ## The programs -/

namespace Tool

/-- `-r` with inotify; inotifywait has to monitor, too. -/
def FollowsTrees : Tool → Prop
  | .wait o => o.monitor = true ∧ o.recursive ≠ 0 ∧ o.fanotify = false ∧ o.filesystem = false
  | .watch o => o.recursive ≠ 0 ∧ o.fanotify = false ∧ o.filesystem = false

/-- The creation of files is among what the program asks for: inotifywait sees to that itself, and
    inotifywatch goes by what was selected with `-e`. -/
def SelectsCreate : Tool → Prop
  | .wait _ => True
  | .watch o => o.events = 0 ∨ o.events &&& inCreate ≠ 0

theorem FollowsTrees.inotify {tool : Tool} (h : tool.FollowsTrees) : tool.fanotify = false := by
  cases tool with
  | wait o => exact h.2.2.1
  | watch o => exact h.2.1

/-- A mask has one of two flags. -/
theorem or_and_ne_zero {a b flag : Int32} :
    (a ||| b) &&& flag ≠ 0 ↔ a &&& flag ≠ 0 ∨ b &&& flag ≠ 0 := by
  rw [Int32.and_comm, Ne, and_or_eq_zero, Int32.and_comm flag, Int32.and_comm flag]
  exact Decidable.not_and_iff_not_or_not

/-- The mask says of new files what the selection does. -/
theorem selectsCreate_iff {tool : Tool} (h : tool.FollowsTrees) :
    tool.SelectsCreate ↔ tool.watchedEvents &&& inCreate ≠ 0 := by
  have hfollow : inDontFollow &&& inCreate = 0 := by decide
  cases tool with
  | wait o =>
      obtain ⟨hm, hr, hf, -⟩ := h
      have hcreate : inCreate &&& inCreate ≠ 0 := by decide
      have hwidened : (if o.monitor ∧ o.recursive ≠ 0
          then Inotifywait.origEvents o ||| inCreate ||| inMovedTo ||| inMovedFrom
          else Inotifywait.origEvents o) &&& inCreate ≠ 0 := by
        rw [if_pos (⟨hm, hr⟩ : _ ∧ _)]
        simp only [or_and_ne_zero]
        exact .inl (.inl (.inr hcreate))
      refine iff_of_true trivial ?_
      unfold watchedEvents Inotifywait.watchedEvents
      dsimp only
      rw [hf, if_neg Bool.false_ne_true]
      split
      · exact or_and_ne_zero.2 (.inl hwidened)
      · exact hwidened
  | watch o =>
      obtain ⟨-, hf, -⟩ := h
      have hselected : (if o.events = 0 then inAllEvents else o.events) &&& inCreate ≠ 0 ↔
          (Tool.watch o).SelectsCreate := by
        by_cases hzero : o.events = 0
        · rw [if_pos hzero]
          exact iff_of_true (by decide) (.inl hzero)
        · rw [if_neg hzero]
          exact (or_iff_right hzero).symm
      unfold watchedEvents Inotifywatch.watchedEvents
      dsimp only
      rw [hf, if_neg Bool.false_ne_true]
      split
      · rw [or_and_ne_zero, hselected]
        exact (or_iff_left fun hne => hne hfollow).symm
      · exact hselected.symm

section Turns

variable {σ : Type} [Sys σ] {w v w' : World σ}

/-- `tool.Encounters fuel w v`: in a turn from `w`, `next_event` takes an event in `v`. -/
def Encounters (fuel : Nat) (w v : World σ) : Tool → Prop
  | .wait o => InotifyTools.Encounters (.one o.timeout) fuel w v
  | .watch o => ∃ w₁, Inotifywatch.checkPrintNow o w = .ok ((), w₁) ∧
      InotifyTools.Encounters (.one blockingTimeout) fuel w₁ v

theorem listed_exempting {tool : Tool} (h : tool.FollowsTrees) (args : List Bytes) :
    Exempting (tool.listed args : M σ (Option FileList)) := by
  cases tool with
  | wait o =>
      refine .bind (init_exempting _ _ _) fun _ => .ite
        (.bind (quiet_exempting (warnInotifyInitError_sound _)) fun _ => .pure _) ?_
      refine .bind ?_ fun _ => .bind (Filters.install_exempting _ h.2.1) fun _ => .ite (.pure _) ?_
      · cases o.timefmt with
        | none => exact .pure _
        | some t => exact .update fun _ hw => hw
      · refine .bind (quiet_exempting ?_) fun _ => .ite (.pure _)
          (quiet_exempting (constructPathList_sound _ _))
        cases o.format with
        | none => exact .pure _
        | some f =>
            exact .bind (fprintfTo_sound _ _ _) fun _ => .ite
              (.bind (ceprint_sound _) fun _ => .pure _) (.pure _)
  | watch o =>
      refine .bind (Filters.install_exempting _ h.1) fun _ => .ite (.pure _) ?_
      refine .bind (init_exempting _ _ _) fun _ => .ite
        (.bind (quiet_exempting (warnInotifyInitError_sound _)) fun _ => .pure _) ?_
      exact quiet_exempting (constructPathList_sound _ _)

/-- In every run the creation of directories is exempt from the filter. -/
theorem Run.exempts {tool : Tool} (ht : tool.FollowsTrees) {args : List Bytes} {env : σ → σ → Prop}
    {ok : FileList → World σ → World σ → Prop} {os : σ} {list : FileList}
    {moves : Option MoveTracker} (h : tool.Run args env ok os list w moves) :
    w.lib.store.WellIndexed ∧ w.lib.Exempts := by
  induction h with
  | @start w₁ w fuel _ hlist hrun =>
      have hl : Kind.lifecycle ∉ ({.watch, .stats} : Set Kind) := by rintro (h | h) <;> cases h
      have h₁ := listed_exempting ht args _ _ _ hlist ⟨Store.wellIndexed_empty, .inl rfl⟩
      exact sound_exempting (tool.establish_sound (.inl rfl) (.inr rfl) hl fuel list)
        (by rintro (h | h) <;> cases h) _ _ _ hrun h₁
  | env _ _ ih => exact ih
  | turn _ hrun _ ih =>
      exact sound_exempting (tool.turn_sound _ _) (by rintro (h | h | h | h | h) <;> cases h) _ _ _
        hrun ih

/-- An event that a turn takes as the creation of a directory is handled in it, with the mask of the
    program; before that, only events are read. -/
theorem turn_creation (hz : ¬ AnsweredZero σ) {tool : Tool} (ht : tool.FollowsTrees) (h : Inotify w)
    (hexempt : w.lib.Exempts) {fuel : Nat} (hmeets : tool.Encounters fuel w v) {wd : Int32}
    {name : Bytes} (hev : v.lib.stream.currentEvent.Creates wd name) {moves : MoveTracker}
    {moves' : Option MoveTracker} (hrun : tool.turn fuel moves w = .ok (moves', w')) :
    ∃ w₁ w₂ moves₂ announce out, Prints out ∧ w.lib.store.Alike w₁.lib.store ∧
      Effects Reading w w₁ ∧ moves.handle fuel v.lib.stream.currentEvent true tool.watchedEvents
        announce out w₁ = .ok (moves₂, w₂) ∧ Effects ∅ w₂ w' := by
  have hquiet : ∀ {α : Type} {m : M σ α} {u u' : World σ} {a : α}, Sound ∅ m → Inotify u →
      m u = .ok (a, u') → Effects ∅ u u' ∧ u.lib.store.Alike u'.lib.store ∧ Inotify u' := by
    intro α m u u' a hm hu hrun
    have he := ((hm u hu.wellIndexed).ok hrun).1
    exact ⟨he, he.sameBooks.store ▸ .refl _, hu.effects hz he (Set.notMem_empty _)⟩
  -- the event is returned, and counted
  have hnext : ∀ {u u' : World σ} {c : Call} {event : Option Event}, Inotify u → u.lib.Exempts →
      InotifyTools.Encounters c fuel u v →
      nextEvents fuel c.timeout c.numEvents u = .ok (event, u') →
      event = some v.lib.stream.currentEvent ∧ Effects Reading u u' ∧
        u.lib.store.Alike u'.lib.store ∧ Inotify u' := by
    intro u u' c event hu hexempt hmeets hrun
    have hreads := ((nextEvents_reads hz hu _ _ _).ok hrun).1
    have hv := hu.effects hz (hmeets.effects hz hu) nofun
    rw [(hmeets.receives hz hu hexempt hev).run hu.initialized, v.delivered_stream] at hrun
    cases hrun
    have halike := (World.alike_delivered hv.wellIndexed).store
    rw [(hmeets.effects hz hu).store_eq] at halike
    exact ⟨rfl, hreads, halike, hv.delivered⟩
  -- nothing but printing comes after
  have hhandled : ∀ {u u' : World σ} {event : Event} {events : Int32} {announce : Bool}
      {out : List Piece → M σ Unit} {moves moves₂ : MoveTracker} {α : Type} {m : M σ α} {a : α}
      {x : World σ}, Prints out → Inotify u →
      moves.handle fuel event true events announce out u = .ok (moves₂, u') → Sound ∅ m →
      m u' = .ok (a, x) → Effects ∅ u' x := by
    intro u u' event events announce out moves moves₂ α m a x hout hu hrun hm hrest
    have hl : Kind.lifecycle ∉ ({.watch, .rename, .remove} : Set Kind) := by
      rintro (h | h | h) <;> cases h
    have he := ((moves.handle_sound (.inl rfl) (.inr (.inl rfl)) (.inr (.inr rfl)) hl hout fuel event
      true events announce u hu.wellIndexed).ok hrun).1
    exact ((hm u' (he.wellIndexed hu.wellIndexed)).ok hrest).1
  cases tool with
  | wait o =>
      obtain ⟨hm, hr, -, hfs⟩ := ht
      obtain ⟨round, x, hround, hv⟩ := Prog.bind_ok hrun
      cases hv
      obtain ⟨event, w₁, hevent, hrest⟩ := Prog.bind_ok hround
      obtain ⟨rfl, he₁, ha₁, h₁⟩ := hnext (c := .one o.timeout) h hexempt hmeets hevent
      obtain ⟨_, w₂, hshow, hrest⟩ := Prog.bind_ok hrest
      obtain ⟨he₂, ha₂, h₂⟩ := hquiet
        (.ite (Inotifywait.outputEvent_sound o _) (.pure _)) h₁ hshow
      rw [if_neg (by rw [hfs]; exact Bool.false_ne_true)] at hrest
      obtain ⟨moves₂, w₃, hhandle, hrest⟩ := Prog.bind_ok hrest
      rw [decide_eq_true (⟨hm, hr⟩ : _ ∧ _)] at hhandle
      have hout := Inotifywait.outputError_prints (σ := σ) o.syslog
      exact ⟨w₂, w₃, moves₂, _, _, hout, ha₁.trans ha₂, he₁.trans (he₂.mono (Set.empty_subset _)),
        hhandle, hhandled hout h₂ hhandle (.bind (.exec fun os => .flushAll os) fun _ => .pure _)
          hrest⟩
  | watch o =>
      obtain ⟨hr, -, hfs⟩ := ht
      obtain ⟨round, x, hround, hv⟩ := Prog.bind_ok hrun
      cases hv
      obtain ⟨_, w₁, hprint, hrest⟩ := Prog.bind_ok hround
      obtain ⟨he₁, ha₁, h₁⟩ := hquiet (Inotifywatch.checkPrintNow_sound o) h hprint
      obtain ⟨_, hprint', hmeets⟩ := hmeets
      cases hprint.symm.trans hprint'
      obtain ⟨event, w₂, hevent, hrest⟩ := Prog.bind_ok hrest
      obtain ⟨rfl, he₂, ha₂, h₂⟩ := hnext (c := .one blockingTimeout) h₁
        (he₁.exempts (Set.notMem_empty _) hexempt) hmeets hevent
      obtain ⟨_, w₃, hprint, hrest⟩ := Prog.bind_ok hrest
      obtain ⟨he₃, ha₃, h₃⟩ := hquiet (Inotifywatch.checkPrintNow_sound o) h₂ hprint
      obtain ⟨moves₂, w₄, hhandle, hrest⟩ := Prog.bind_ok hrest
      unfold Inotifywatch.watchEvent at hhandle
      rw [if_neg (by rw [hfs]; exact Bool.false_ne_true), decide_eq_true hr] at hhandle
      have hout : Prints fun msg => (exec (Sys.fwrite .stderr (cat msg)) : M σ Unit) :=
        fun _ => .exec fun os => .fwrite _ _ os
      have hbefore : Effects Reading w w₃ := (he₁.mono (Set.empty_subset _)).trans
        (he₂.trans (he₃.mono (Set.empty_subset _)))
      exact ⟨w₃, w₄, moves₂, _, _, hout, ha₁.trans (ha₂.trans ha₃), hbefore, hhandle,
        hhandled hout h₃ hhandle (Inotifywatch.watchAgain_sound _) hrest⟩

end Turns

/-- The kernel delivers for a watch the events in the mask it was added with, and no others: of the
    directory `name` created in the one watched as `wd`, a turn from `w` hears just when that mask
    has the creation of files. -/
def Hears {σ : Type} [Sys σ] (tool : Tool) (fuel : Nat) (w : World (Logged (Masked σ))) (wd : Int32)
    (name : Bytes) : Prop :=
  (∃ v, tool.Encounters fuel w v ∧ v.lib.stream.currentEvent.Creates wd name) ↔
    ∃ m, w.maskOf wd = some m ∧ m &&& inCreate.toUInt32 ≠ 0

end Tool

/-- What is delivered has a name without NUL bytes. -/
theorem EventStream.currentEvent_name (s : EventStream) : 0 ∉ s.currentEvent.name := by
  unfold currentEvent
  dsimp only
  split
  · intro h
    simpa using List.mem_takeWhile_imp h
  · exact List.not_mem_nil

/-- **New directories are watched by a program that asks for the creation of files.** In every run
    with `-r`, a directory that is created in a watched one is watched by the turn that hears of it,
    if the walk of it is not given up; inotifywatch hears of it if the creation of files is
    selected. -/
theorem created_directory_covered {σ : Type} [Sys σ] (hz : ¬ AnsweredZero σ) (hn : ProperNames σ)
    {tool : Tool} (ht : tool.FollowsTrees) (hselects : tool.SelectsCreate) {args : List Bytes}
    {env : Logged (Masked σ) → Logged (Masked σ) → Prop}
    (henv : ∀ l l', env l l' → l'.os.masks = l.os.masks)
    {ok : FileList → World (Logged (Masked σ)) → World (Logged (Masked σ)) → Prop} {os : σ}
    {list : FileList} {w w' : World (Logged (Masked σ))} {moves : MoveTracker}
    (h : tool.Run args env ok { os := { os } } list w (some moves)) {wd : Int32} {d name : Bytes}
    (hname : w.lib.store.nameOf wd = some d) (hd : d ≠ [])
    (hpending : ∀ mf ∈ moves.movedFrom, w.lib.store.wdOf mf ≠ some wd) {fuel : Nat}
    (hhears : tool.Hears fuel w wd name) {moves' : Option MoveTracker}
    (hturn : tool.turn fuel moves w = .ok (moves', w'))
    (hstands : Standing (d ++ name ++ [slash]) w w')
    (hpassed : AllPassed (d ++ name ++ [slash]) w w') : Covered (d ++ name ++ [slash]) w w' := by
  have hz' := Logged.not_answeredZero (Masked.not_answeredZero hz)
  have hn' : ProperNames (Masked σ) := fun d os name h => hn d os.os name h
  obtain ⟨⟨hw, hmasks⟩, hrecorded, hpositive⟩ := h.attends hz ht.inotify henv
  -- the directory that it is created in was added with the mask of the program
  obtain ⟨id, hid, -⟩ := Option.bind_eq_some_iff.1 hname
  obtain ⟨m, hm⟩ := hrecorded wd id hid
  have hcreate : m &&& inCreate.toUInt32 ≠ 0 := by
    have hmask := (Tool.selectsCreate_iff ht).1 hselects
    rw [hmasks wd m hm, Tool.mask, ← Int32.toUInt32_and]
    exact fun he => hmask (by simpa using congrArg UInt32.toInt32 he)
  obtain ⟨v, hmeets, hev⟩ := hhears.2 ⟨m, hm, hcreate⟩
  obtain ⟨w₁, w₂, moves₂, announce, out, hout, halike, he₁, hhandle, he₂⟩ :=
    Tool.turn_creation hz' ht hw (h.exempts ht).2 hmeets hev hturn
  have h₁ := hw.effects hz' he₁ (by rintro (h | h) <;> cases h)
  have hwd : wd ≠ 0 := by
    rintro rfl
    exact absurd (hpositive.nameOf hw.wellIndexed hname) (by decide)
  have hl : Kind.lifecycle ∉ ({.watch, .rename, .remove} : Set Kind) := by
    rintro (h | h | h) <;> cases h
  have hpre := ((moves.handle_sound (.inl rfl) (.inr (.inl rfl)) (.inr (.inr rfl)) hl hout _ _ _ _ _
    w₁ h₁.wellIndexed).ok hhandle).1.log_extends
  obtain ⟨e, hmem, a, hcall, hpos, i, hi⟩ := MoveTracker.handle_creation hz' hn' h₁ hev hwd
    ((halike.nameOf wd).trans hname) hd (hev.name ▸ EventStream.currentEvent_name _)
    (fun mf hmf => (halike.wdOf mf).symm ▸ hpending mf hmf) hout hhandle
    (hstands.part he₁.log_extends hpre he₂.log_extends)
    (hpassed.part he₁.log_extends hpre he₂.log_extends)
  refine ⟨e, callsBetween_subset he₁.log_extends hpre he₂.log_extends hmem, a, hcall, hpos, i, ?_⟩
  rw [he₂.sameBooks.store]
  exact hi

/-! ## On the desk -/

namespace Desk

/-- The directory "d", of which the kernel is about to report an event with this mask. -/
def telling (mask : UInt32) (name : Bytes) : Masked Desk :=
  let r : Record := { wd := 1, mask, cookie := 0, name := name ++ [0] }
  { os := { dirs := [ascii "d"], chunks := [r.encode] } }

/-- The directory "d/b" is created. -/
def makeB (l : Logged (Masked Desk)) : Logged (Masked Desk) :=
  { l with os := { l.os with os := { l.os.os with dirs := l.os.os.dirs ++ [ascii "d/b"] } } }

/-- A program that watches "d", in which "b" has been created. -/
def told (tool : Tool) (os : Masked Desk) : World (Logged (Masked Desk)) :=
  let w := tool.launch 9 [ascii "d"] { watchFiles := [ascii "d"] } { os := os }
  { w with os := makeB w.os }

theorem told_run (tool : Tool) (os : Masked Desk) {w : World (Logged (Masked Desk))}
    (hw : w = { lib := Inotifytools.new, os := { os := os } })
    (hlist : (tool.listed [ascii "d"]).result w = some (some { watchFiles := [ascii "d"] }))
    (hestablish : (tool.establish 9 { watchFiles := [ascii "d"] }).result
      ((tool.listed [ascii "d"]).after w) = some true) :
    tool.Run [ascii "d"] (fun l l' => l' = makeB l) (fun _ _ _ => True) { os := os }
      { watchFiles := [ascii "d"] } (told tool os) (some {}) := by
  subst hw
  exact .env (tool.launch_run _ _ hlist hestablish) rfl

/-- `inotifywait -m -r -e modify d`. -/
def waitModify : Tool := .wait { monitor := true, recursive := 1, events := inModify }

/-- `inotifywatch -r -e modify d`. -/
def watchModify : Tool := .watch { recursive := 1, events := inModify }

/-- The kernel reports the new directory to inotifywait. -/
def toldWait : World (Logged (Masked Desk)) := told waitModify (telling 0x40000100 (ascii "b"))

/-- The kernel reports to inotifywatch only that the file "f" was modified. -/
def toldWatch : World (Logged (Masked Desk)) := told watchModify (telling 0x00000002 (ascii "f"))

end Desk

/-- inotifywait is told of a new directory though only modifications are selected. -/
theorem created_directory_covered_desk :
    Covered (ascii "d/" ++ ascii "b" ++ [slash]) Desk.toldWait
      ((Desk.waitModify.turn 9 {}).after Desk.toldWait) := by
  have ht : Desk.waitModify.FollowsTrees := ⟨rfl, by decide, rfl, rfl⟩
  have henv : ∀ l l', l' = Desk.makeB l → l'.os.masks = l.os.masks := fun _ _ he => he ▸ rfl
  have hrun := Desk.told_run Desk.waitModify (Desk.telling 0x40000100 (ascii "b")) rfl
    (by decide +kernel) (by decide +kernel)
  have hhears : Desk.waitModify.Hears 9 Desk.toldWait 1 (ascii "b") := by
    refine ⟨fun _ => ⟨0x000001c2, by decide +kernel, by decide⟩, fun _ =>
      ⟨(takeRecord 8 (-1) 1).after Desk.toldWait, .here (Prog.run_of_result (by decide +kernel)), ?_⟩⟩
    exact ⟨by decide +kernel, by decide +kernel, by decide +kernel⟩
  exact created_directory_covered Desk.kernelWatches.not_answeredZero (fun _ _ _ h => nomatch h) ht
    trivial henv hrun (by decide +kernel) (by decide) nofun hhears
    (Prog.run_of_result (a := some {}) (by decide +kernel)) (by decide +kernel) (by decide +kernel)

/-- inotifywatch is not told of it, and does not watch it. -/
theorem created_directory_missed :
    let tool := Desk.watchModify
    let w := Desk.toldWatch
    let w' := (tool.turn 9 {}).after w
    let path := ascii "d/" ++ ascii "b" ++ [slash]
    tool.FollowsTrees ∧
      tool.Run [ascii "d"] (fun l l' => l' = Desk.makeB l) (fun _ _ _ => True)
        { os := Desk.telling 0x00000002 (ascii "f") } { watchFiles := [ascii "d"] } w (some {}) ∧
      w.lib.store.nameOf 1 = some (ascii "d/") ∧ w.os.os.os.isDir path = true ∧
      tool.Hears 9 w 1 (ascii "b") ∧ tool.turn 9 {} w = .ok (some {}, w') ∧ Standing path w w' ∧
      AllPassed path w w' ∧ w'.lib.store.wdOf path = none ∧ ¬ Covered path w w' := by
  intro tool w w' path
  have hmask : w.maskOf 1 = some 0x00000002 := by decide +kernel
  refine ⟨⟨by decide, rfl, rfl⟩, Desk.told_run _ _ rfl (by decide +kernel) (by decide +kernel),
    by decide +kernel, by decide +kernel, ⟨?_, ?_⟩, Prog.run_of_result (by decide +kernel),
    by decide +kernel, by decide +kernel, by decide +kernel, ?_⟩
  · -- what it takes is the event of the file
    rintro ⟨v, ⟨w₁, hprint, hmeets⟩, hev⟩
    rw [← Prog.after_of_ok hprint] at hmeets
    rw [hmeets.first (by decide +kernel)] at hev
    exact absurd hev.name (by decide +kernel)
  · rintro ⟨m, hm, hcreate⟩
    cases hmask.symm.trans hm
    exact absurd hcreate (by decide)
  · rintro ⟨e, he, wd, hcall, -⟩
    have hnone : ∀ e ∈ callsBetween w w', e.call.added = none := by decide +kernel
    exact absurd (hnone e he) (by rw [hcall]; exact Option.some_ne_none _)

end InotifyTools
