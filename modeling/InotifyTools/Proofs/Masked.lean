import InotifyTools.Proofs.Log
import InotifyTools.Proofs.Programs

set_option autoImplicit false

/-! # The masks watches are added with

An operating system that also keeps the mask that each watch was added with last. The programs see
the answers alone; what they ask for is the same mask throughout. -/

namespace InotifyTools

/-! ## Masks -/

/-- An operating system with the masks of its watches. -/
structure Masked (σ : Type) where
  os : σ
  masks : Int32 → Option UInt32 := fun _ => none

namespace Masked

variable {σ α : Type} [Sys σ]

/-- Make a call that sets no mask. -/
def pass (f : σ → α × σ) (s : Masked σ) : α × Masked σ := ((f s.os).1, { s with os := (f s.os).2 })

/-- Add a watch, and keep its mask if there is one. -/
def addWatch (fd : Int32) (p : CString) (mask : UInt32) (s : Masked σ) : Int32 × Masked σ :=
  let r := Sys.inotifyAddWatch fd p mask s.os
  (r.1, { os := r.2, masks := fun wd => if 0 < r.1 ∧ wd = r.1 then some mask else s.masks wd })

instance : Sys (Masked σ) where
  errno s := Sys.errno s.os
  strerror e := Sys.strerror σ e
  fwrite st b s := { s with os := Sys.fwrite st b s.os }
  getpid := pass Sys.getpid
  close fd s := { s with os := Sys.close fd s.os }
  inotifyInit := pass Sys.inotifyInit
  inotifyAddWatch := addWatch
  inotifyRmWatch fd wd := pass (Sys.inotifyRmWatch fd wd)
  fanotifyInit flags := pass (Sys.fanotifyInit flags)
  fanotifyMark fd flags mask p := pass (Sys.fanotifyMark fd flags mask p)
  lstat p := pass (Sys.lstat p)
  statfs p := pass (Sys.statfs p)
  openPath p flags := pass (Sys.openPath p flags)
  dup fd := pass (Sys.dup fd)
  nameToHandleAt p := pass (Sys.nameToHandleAt p)
  openByHandleAt fd h := pass (Sys.openByHandleAt fd h)
  readlinkFd fd n := pass (Sys.readlinkFd fd n)
  faccessat fd p := pass (Sys.faccessat fd p)
  opendir p := pass (Sys.opendir p)
  readdir d := pass (Sys.readdir d)
  closedir d s := { s with os := Sys.closedir d s.os }
  ppoll fd t := pass (Sys.ppoll fd t)
  fionread fd := pass (Sys.fionread fd)
  read fd n := pass (Sys.read fd n)
  regcomp p flags := pass (Sys.regcomp p flags)
  strftimeNow f := pass (Sys.strftimeNow f)
  flushAll s := { s with os := Sys.flushAll s.os }
  syslog b s := { s with os := Sys.syslog b s.os }
  slurp p := pass (Sys.slurp p)
  printNow := pass Sys.printNow
  done := pass Sys.done

/-- The kernel answers the same with masks kept. -/
theorem not_answeredZero (h : ¬ AnsweredZero σ) : ¬ AnsweredZero (Masked σ) :=
  fun ⟨fd, p, mask, s, hs⟩ => h ⟨fd, p, mask, s.os, hs⟩

end Masked

variable {σ α : Type} [Sys σ] {S : Set Kind} {w w' : World (Logged (Masked σ))}

/-- The mask that a watch was added with. -/
def World.maskOf (w : World (Logged (Masked σ))) (wd : Int32) : Option UInt32 := w.os.os.masks wd

theorem QuietCall.masks {l l' : Logged (Masked σ)} (h : QuietCall l l') :
    l'.os.masks = l.os.masks := by
  cases h <;> rfl

theorem QuietCall.all_masks {l l' : Logged (Masked σ)} (h : Relation.ReflTransGen QuietCall l l') :
    l'.os.masks = l.os.masks := by
  induction h with
  | refl => rfl
  | tail _ hc ih => exact hc.masks.trans ih

/-- Only watching sets masks. -/
theorem Effects.maskOf_eq (h : Effects S w w') (hS : Kind.watch ∉ S) : w'.maskOf = w.maskOf := by
  refine h.same World.maskOf fun k w₁ w₂ hk he => ?_
  cases he with
  | call _ hc => exact hc.masks
  | counter | created | marked | watched | refused => exact absurd (hk.resolve_left nofun) hS
  | notOpened _ hopen | opened _ hopen => cases hopen <;> rfl
  | _ => rfl

/-! ## What is asked for -/

/-- With inotify, every watch was added with a mask that satisfies `Q`. -/
structure Asking (Q : UInt32 → Prop) (w : World (Logged (Masked σ))) : Prop where
  inotify : Inotify w
  masks : ∀ (wd : Int32) (m : UInt32), w.maskOf wd = some m → Q m

variable {Q : UInt32 → Prop}

/-- The runs of `m` add watches with masks that satisfy `Q` alone. -/
abbrev Asks (Q : UInt32 → Prop) (m : M (Logged (Masked σ)) α) : Prop :=
  Prog.Keeps (Prog.Inherits (Asking Q)) m

/-- What watches nothing asks for nothing. -/
theorem sound_asks (hz : ¬ AnsweredZero σ) {m : M (Logged (Masked σ)) α} (hm : Sound S m)
    (hw : Kind.watch ∉ S) (hl : Kind.lifecycle ∉ S) : Asks Q m := by
  intro w a w' hrun h
  have he := ((hm w h.inotify.wellIndexed).ok hrun).1
  refine ⟨h.inotify.effects (Logged.not_answeredZero (Masked.not_answeredZero hz)) he hl, ?_⟩
  rw [he.maskOf_eq hw]
  exact h.masks

/-- Most of a program only looks and prints. -/
theorem quiet_asks (hz : ¬ AnsweredZero σ) {m : M (Logged (Masked σ)) α} (hm : Sound ∅ m) :
    Asks Q m :=
  sound_asks hz hm (Set.notMem_empty _) (Set.notMem_empty _)

section Watching

variable (hz : ¬ AnsweredZero σ) {events : Int32} (hQ : Q events.toUInt32)
include hz hQ

/-- Watching one file. -/
theorem watchOne_asks (fuel : Nat) (fname : Bytes) {ok : Bool} {events' : Int32}
    (hrun : watchOne fuel fname events w = .ok ((ok, events'), w')) (h : Asking Q w) :
    Asking Q w' ∧ events' = events := by
  have hz' := Logged.not_answeredZero (Masked.not_answeredZero hz)
  have hl : Kind.lifecycle ∉ ({.watch} : Set Kind) := nofun
  have hw' := ((watchOne_sound (S := {.watch}) rfl hl fuel fname events w
    h.inotify.wellIndexed).ok hrun).1
  -- the mask is kept when the kernel answers, and nothing after that changes it
  have hadd : ∀ {os : Logged (Masked σ)},
      Relation.ReflTransGen QuietCall (addAnswer w (cstring fname) events).2 os →
      ∀ wd m, os.os.masks wd = some m → Q m := by
    intro os hos wd m hm
    rw [QuietCall.all_masks hos] at hm
    change (if _ ∧ _ then some events.toUInt32 else w.os.os.masks wd) = some m at hm
    split at hm
    · exact Option.some.inj hm ▸ hQ
    · exact h.masks wd m hm
  by_cases hneg : (addAnswer w (cstring fname) events).1 < 0
  · obtain ⟨e, os, hos, hrun'⟩ := watchOne_run_refused h.inotify.mode hneg fuel
    cases hrun.symm.trans hrun'
    exact ⟨⟨h.inotify.effects hz' hw' hl, hadd hos⟩, rfl⟩
  · have hpos : 0 < (addAnswer w (cstring fname) events).1 := by
      have hne : (addAnswer w (cstring fname) events).1 ≠ 0 := fun he => hz' ⟨_, _, _, _, he⟩
      grind
    obtain ⟨os, hos, hrun'⟩ := watchOne_run_watched h.inotify.mode hpos fuel
    cases hrun.symm.trans hrun'
    exact ⟨⟨h.inotify.effects hz' hw' hl, hadd hos⟩, rfl⟩

theorem watchFiles_asks (fuel : Nat) (files : List Bytes) :
    Asks Q (watchFiles fuel files events : M (Logged (Masked σ)) Bool) := by
  have heach : ∀ files, Asks Q (watchEach fuel files events : M (Logged (Masked σ)) Bool) := by
    intro files
    induction files with
    | nil => exact .pure _
    | cons f files ih =>
        intro w ok w' hrun h
        obtain ⟨⟨watched, events'⟩, w₁, hone, hrest⟩ := Prog.bind_ok hrun
        obtain ⟨h₁, rfl⟩ := watchOne_asks hz hQ fuel f hone h
        cases watched with
        | false =>
            cases hrest
            exact h₁
        | true => exact ih w₁ ok w' hrest h₁
  exact .bind (quiet_asks hz assertInit_sound) fun _ =>
    .bind (quiet_asks hz (setError_sound 0)) fun _ => heach files

omit hQ in
theorem walkEntry_asks {descend : Bytes → M (Logged (Masked σ)) Bool} (hd : ∀ p, Asks Q (descend p))
    (myPath : Bytes) (ex : List Bytes) (name : Bytes) :
    Asks Q (walkEntry descend myPath ex name) := by
  refine .bind (quiet_asks hz (.call fun os => .lstat _ os)) fun mode => ?_
  cases mode with
  | none =>
      exact .bind (quiet_asks hz errno_sound) fun _ =>
        .bind (quiet_asks hz (setError_sound _)) fun _ => .pure _
  | some mode =>
      refine .ite (.pure _) (.ite (.pure _) (.bind (hd _) fun _ => ?_))
      exact .bind (quiet_asks hz .getLib) fun _ => .pure _

omit hQ in
theorem walkEntries_asks {descend : Bytes → M (Logged (Masked σ)) Bool}
    (hd : ∀ p, Asks Q (descend p)) (dir : Nat) (myPath : Bytes) (ex : List Bytes) (fuel : Nat) :
    Asks Q (walkEntries descend dir myPath ex fuel) := by
  induction fuel with
  | zero => exact .fault _
  | succ fuel ih =>
      refine .bind (quiet_asks hz (.call fun os => .readdir _ os)) fun name => ?_
      cases name with
      | none => exact .pure _
      | some name =>
          refine .bind (.ite (walkEntry_asks hz hd _ _ _) (.pure _)) fun _ => .ite (.pure _) ?_
          exact .bind (quiet_asks hz (setError_sound 0)) fun _ => ih

theorem watchRecursivelyWithExclude_asks (fuel : Nat) (path : Bytes) (ex : List Bytes) :
    Asks Q (watchRecursivelyWithExclude fuel path events ex : M (Logged (Masked σ)) Bool) := by
  induction fuel generalizing path with
  | zero => exact .fault _
  | succ fuel ih =>
      refine .bind (quiet_asks hz assertInit_sound) fun _ =>
        .bind (quiet_asks hz (setError_sound 0)) fun _ => ?_
      refine .bind (quiet_asks hz (.call fun os => .opendir _ os)) fun dir => ?_
      cases dir with
      | none =>
          refine .bind (quiet_asks hz errno_sound) fun _ => .ite (watchFiles_asks hz hQ _ _) ?_
          exact .bind (quiet_asks hz (setError_sound _)) fun _ => .pure _
      | some dir =>
          refine .bind (walkEntries_asks hz ih dir _ ex fuel) fun _ => ?_
          refine .bind (quiet_asks hz (.exec fun os => .closedir _ os)) fun _ => .ite (.pure _) ?_
          exact watchFiles_asks hz hQ _ _

/-- Setting up the watches. -/
theorem watchList_asks {out : List Piece → M (Logged (Masked σ)) Unit} (hout : Prints out)
    {before after : Bytes → M (Logged (Masked σ)) Unit} (hbefore : ∀ f, Sound ∅ (before f))
    (hafter : ∀ f, Sound ∅ (after f)) (fuel : Nat) (list : FileList)
    (recursive filesystem fanotify : Bool) (failVerb : String) :
    Asks Q (watchList fuel list events recursive filesystem fanotify failVerb out before after) := by
  unfold watchList
  generalize list.watchFiles = files
  induction files with
  | nil => exact .pure true
  | cons f files ih =>
      refine .bind (quiet_asks hz (hbefore f)) fun _ =>
        .ite (.bind (watchFiles_asks hz hQ _ _) fun ok => ?_) ?_
      · refine .ite (.bind (quiet_asks hz .getLib) fun _ =>
          .bind (quiet_asks hz (strerror_sound _)) fun _ => ?_) (.pure _)
        exact .bind (quiet_asks hz (hout _)) fun _ => .pure _
      · refine .bind (.ite (watchRecursivelyWithExclude_asks hz hQ _ _ _)
          (watchFiles_asks hz hQ _ _)) fun ok => .ite ?_ ?_
        · exact .bind (quiet_asks hz (reportUnwatched_sound hout _ _ _)) fun _ => .pure _
        · exact .bind (quiet_asks hz (hafter f)) fun _ => ih

namespace MoveTracker

variable {out : List Piece → M (Logged (Masked σ)) Unit}

theorem watchNew_asks (hout : Prints out) (fuel : Nat) (event : Event) (announce : Bool) :
    Asks Q (watchNew fuel event events announce out) := by
  refine .bind (quiet_asks hz (dirpathFromEvent_sound event)) fun path => ?_
  cases path with
  | none => exact .pure _
  | some newFile =>
      refine .ite (.pure _) (.bind (quiet_asks hz (isdir_sound _)) fun _ => .ite (.pure _) ?_)
      refine .bind (quiet_asks hz (.ite (hout _) (.pure _))) fun _ => ?_
      refine .bind (watchRecursivelyWithExclude_asks hz hQ fuel newFile []) fun _ => ?_
      exact quiet_asks hz (.ite (.bind .getLib fun _ => .bind (strerror_sound _) fun _ => hout _)
        (.pure _))

/-- Handling an event. -/
theorem handle_asks (hout : Prints out) (t : MoveTracker) (fuel : Nat) (event : Event)
    (recursive announce : Bool) : Asks Q (t.handle fuel event recursive events announce out) := by
  have hsettle : Asks Q (t.settle event out) :=
    sound_asks hz (settle_sound (S := {.remove}) rfl hout t event) nofun nofun
  refine .bind hsettle fun t => .ite (.pure _) (.ite ?_ ?_)
  · exact .bind (watchNew_asks hz hQ hout fuel event announce) fun _ => .pure _
  refine .ite ?_ (.ite ?_ (.pure _))
  · refine .bind (quiet_asks hz (dirpathFromEvent_sound event)) fun _ => ?_
    exact .bind (quiet_asks hz (wdFromFilename_sound _)) fun _ => .ite (.pure _) (.pure _)
  · cases t.movedFrom with
    | none => exact .pure _
    | some mf =>
        refine .bind (quiet_asks hz (dirpathFromEvent_sound event)) fun _ => .bind ?_ fun _ => .pure _
        exact sound_asks hz (replaceFilename_sound (S := {.rename}) rfl mf _) nofun nofun

end MoveTracker

end Watching

/-! ## The programs -/

theorem nextEvent_asks (hz : ¬ AnsweredZero σ) (fuel : Nat) (timeout : Int) :
    Asks Q (nextEvent fuel timeout : M (Logged (Masked σ)) (Option Event)) := by
  have hz' := Logged.not_answeredZero (Masked.not_answeredZero hz)
  intro w event w' hrun h
  have he := ((nextEvents_reads hz' h.inotify fuel _ _).ok hrun).1
  refine ⟨h.inotify.effects hz' he (by rintro (h | h) <;> cases h), ?_⟩
  rw [he.maskOf_eq (by rintro (h | h) <;> cases h)]
  exact h.masks

namespace Tool

/-- The events that a program asks the kernel for. -/
def watchedEvents : Tool → Int32
  | .wait o => Inotifywait.watchedEvents o
  | .watch o => Inotifywatch.watchedEvents o

/-- The mask that a program adds its watches with. -/
def mask (tool : Tool) : UInt32 := tool.watchedEvents.toUInt32

/-- Establishing the watches of a program. -/
theorem establish_asks (hz : ¬ AnsweredZero σ) (tool : Tool) (fuel : Nat) (list : FileList) :
    Asks (· = tool.mask) (tool.establish fuel list : M (Logged (Masked σ)) Bool) := by
  cases tool with
  | wait o =>
      have hprint : ∀ ps, Asks (· = (Tool.wait o).mask)
          (Inotifywait.outputError o.syslog ps : M (Logged (Masked σ)) Unit) := fun ps =>
        quiet_asks hz (Inotifywait.outputError_prints o.syslog ps)
      refine .ite (.bind (quiet_asks hz (ceprint_sound _)) fun _ => .pure _) ?_
      refine .bind (.ite (hprint _) (.pure _)) fun _ => ?_
      refine .bind (watchList_asks (Q := (· = (Tool.wait o).mask)) hz rfl
        (Inotifywait.outputError_prints _) (fun _ => .pure _) (fun _ => .pure _) _ _ _ _ _ _)
        fun _ => .ite (.pure _) ?_
      refine .bind (.ite (hprint _) (.pure _)) fun _ => .ite ?_ (.pure _)
      exact .bind (quiet_asks hz (ceprint_sound _)) fun _ => .pure _
  | watch o =>
      refine .ite (.bind (quiet_asks hz (ceprint_sound _)) fun _ => .pure _) ?_
      refine .bind (quiet_asks hz (ceprint_sound _)) fun _ => ?_
      refine .bind (watchList_asks (Q := (· = (Tool.watch o).mask)) hz rfl
        (fun _ => .exec fun os => .fwrite _ _ os) (fun f => ?_) (fun f => ?_) _ _ _ _ _ _)
        fun _ => .ite (.pure _) ?_
      · exact .ite (ceprint_sound _) (.ite (ceprint_sound _) (.pure _))
      · exact .ite (ceprint_sound _) (.pure _)
      · refine sound_asks (S := {.stats}) hz ?_ nofun nofun
        refine .bind getNumWatches_sound fun _ => ?_
        refine .bind (.ite (ceprint_sound _) (.pure _)) fun _ => ?_
        refine .bind (ceprint_sound _) fun _ => .ite (.bind (ceprint_sound _) fun _ => .pure _) ?_
        refine .bind (.ite (ceprint_sound _) (.pure _)) fun _ => ?_
        exact .bind (initializeStats_sound rfl) fun _ => .pure _

/-- A turn of the event loop. -/
theorem turn_asks (hz : ¬ AnsweredZero σ) (tool : Tool) (fuel : Nat) (moves : MoveTracker) :
    Asks (· = tool.mask) (tool.turn fuel moves : M (Logged (Masked σ)) (Option MoveTracker)) := by
  cases tool with
  | wait o =>
      have hprint : ∀ ps, Asks (· = (Tool.wait o).mask)
          (Inotifywait.outputError o.syslog ps : M (Logged (Masked σ)) Unit) := fun ps =>
        quiet_asks hz (Inotifywait.outputError_prints o.syslog ps)
      refine .bind (.bind (nextEvent_asks hz fuel _) fun event => ?_) fun _ => .pure _
      cases event with
      | none =>
          refine .bind (quiet_asks hz .getLib) fun _ => .ite (.pure _) ?_
          exact .bind (quiet_asks hz (strerror_sound _)) fun _ => .bind (hprint _) fun _ => .pure _
      | some event =>
          have hshow : Sound ∅ (if Inotifywait.shown o event = true then
              Inotifywait.outputEvent o event else pure () : M (Logged (Masked σ)) Unit) :=
            .ite (Inotifywait.outputEvent_sound o event) (.pure _)
          have hhandle := MoveTracker.handle_asks (Q := (· = (Tool.wait o).mask)) hz rfl
            (Inotifywait.outputError_prints o.syslog) moves fuel event
          refine .bind (quiet_asks hz hshow) fun _ => .ite (.pure _) (.bind (hhandle _ _) fun _ => ?_)
          exact .bind (quiet_asks hz (.exec fun os => .flushAll os)) fun _ => .pure _
  | watch o =>
      have hprint : Asks (· = (Tool.watch o).mask)
          (Inotifywatch.checkPrintNow o : M (Logged (Masked σ)) Unit) :=
        quiet_asks hz (Inotifywatch.checkPrintNow_sound o)
      refine .bind (.bind hprint fun _ => .bind (nextEvent_asks hz fuel _) fun event =>
        .bind hprint fun _ => ?_) fun _ => .pure _
      cases event with
      | none =>
          refine .bind (quiet_asks hz .getLib) fun _ => .ite (.pure _) (.ite ?_
            (quiet_asks hz (Inotifywatch.watchAgain_sound _)))
          exact .bind (quiet_asks hz (strerror_sound _)) fun _ =>
            .bind (quiet_asks hz (ceprint_sound _)) fun _ => .pure _
      | some event =>
          refine .bind (.ite (.pure _) (MoveTracker.handle_asks
            (Q := (· = (Tool.watch o).mask)) hz rfl (fun _ => .exec fun os => .fwrite _ _ os)
            _ _ _ _ _)) fun _ => ?_
          exact quiet_asks hz (Inotifywatch.watchAgain_sound _)

end Tool

/-! ## Runs -/

/-- Every watch of the store was added with a mask. -/
def Recorded (w : World (Logged (Masked σ))) : Prop :=
  ∀ (wd : Int32) (id : Nat), w.lib.store.byWd[wd]? = some id → ∃ m, w.maskOf wd = some m

/-- With inotify, what is entered has been asked for. -/
theorem Effect.recorded (hz : ¬ AnsweredZero σ) {k : Kind} (he : Effect k w w') (hk : k ≠ .lifecycle)
    (hm : w.lib.fanotifyMode = false) (h : Recorded w) : Recorded w' := by
  have hz' := Logged.not_answeredZero (Masked.not_answeredZero hz)
  cases he with
  | call _ hc =>
      intro wd id hid
      rw [World.maskOf, hc.masks]
      exact h wd id hid
  | created _ _ _ _ hmode =>
      rcases hmode with hmode | hzero
      · cases hm.symm.trans hmode
      · exact absurd hzero hz'
  | marked _ _ _ _ hmode => cases hm.symm.trans hmode
  | @watched _ v p mask os hwd hadd _ hos _ =>
      intro wd id hid
      change ∃ m, os.os.masks wd = some m
      rw [QuietCall.all_masks hos]
      change ∃ m, (if _ ∧ wd = _ then some mask else w.os.os.masks wd) = some m
      split
      · exact ⟨mask, rfl⟩
      · next hne =>
          refine h wd id ?_
          have hother : v.wd ≠ wd := by
            rintro rfl
            change (Sys.inotifyAddWatch w.lib.fd p mask w.os.os.os).1 = v.wd at hadd
            exact hne ⟨hadd ▸ hwd, hadd.symm⟩
          simp only [Store.insert, KeyedMap.lookup_insertIfNew, hother, if_false] at hid
          exact hid
  | @refused _ p mask hadd =>
      intro wd id hid
      change ∃ m, (if _ ∧ wd = _ then some mask else w.os.os.masks wd) = some m
      split
      · exact ⟨mask, rfl⟩
      · exact h wd id hid
  | @removed _ id v =>
      intro wd i hid
      simp only [Store.remove, KeyedMap.lookup_erase] at hid
      split at hid
      · cases hid
      · exact h wd i hid
  | notOpened | opened | closed => exact absurd rfl hk
  | _ => exact h

theorem Effects.recorded (hz : ¬ AnsweredZero σ) (he : Effects S w w') (hl : Kind.lifecycle ∉ S)
    (hm : w.lib.fanotifyMode = false) (h : Recorded w) : Recorded w' := by
  refine (he.preserves (P := fun w => w.lib.fanotifyMode = false ∧ Recorded w)
    (fun k w₁ w₂ hk he h => ?_) ⟨hm, h⟩).2
  have hk' : k ≠ .lifecycle := by
    rintro rfl
    exact hk.elim nofun hl
  refine ⟨?_, he.recorded hz hk' h.1 h.2⟩
  rw [(Effects.single (S := {k}) rfl he).fanotifyMode_eq (Ne.symm hk')]
  exact h.1

/-- Nothing but watching enters a descriptor. -/
theorem Effects.unwatched {σ : Type} [Sys σ] {S : Set Kind} {w w' : World σ} (he : Effects S w w')
    (hw : Kind.watch ∉ S) (h : ∀ wd : Int32, w.lib.store.byWd[wd]? = none) (wd : Int32) :
    w'.lib.store.byWd[wd]? = none := by
  refine he.preserves (P := fun w => ∀ wd : Int32, w.lib.store.byWd[wd]? = none)
    (fun k w₁ w₂ hk he h wd => ?_) h wd
  cases he with
  | counter | created | marked | watched | refused => exact absurd (hk.resolve_left nofun) hw
  | removed =>
      simp only [Store.remove, KeyedMap.lookup_erase, h wd, ite_self]
  | opened | closed => rfl
  | _ => exact h wd

/-- What holds between the turns of a program with inotify. -/
structure Attends (tool : Tool) (w : World (Logged (Masked σ))) : Prop where
  asking : Asking (· = tool.mask) w
  recorded : Recorded w
  positive : w.lib.store.Positive

/-- **Every watch has the mask of the program.** In every run with inotify a watch of the store was
    added with the mask that the program built from its options. -/
theorem Tool.Run.attends (hz : ¬ AnsweredZero σ) {tool : Tool} (ht : tool.fanotify = false)
    {args : List Bytes} {env : Logged (Masked σ) → Logged (Masked σ) → Prop}
    (henv : ∀ l l', env l l' → l'.os.masks = l.os.masks)
    {ok : FileList → World (Logged (Masked σ)) → World (Logged (Masked σ)) → Prop} {os : σ}
    {list : FileList} {moves : Option MoveTracker}
    (h : tool.Run args env ok { os := { os } } list w moves) : Attends tool w := by
  have hz' := Logged.not_answeredZero (Masked.not_answeredZero hz)
  induction h with
  | @start w₁ w fuel established hlist hrun =>
      have h₁ := Tool.listed_inotify hz' ht hlist
      have hsetup := ((tool.listed_sound (S := {.config, .lifecycle, .stats}) (.inl rfl)
        (.inr (.inl rfl)) (.inr (.inr rfl)) args _ Store.wellIndexed_empty).ok hlist).1
      have hl : Kind.lifecycle ∉ ({.watch, .stats} : Set Kind) := by rintro (h | h) <;> cases h
      have he := ((tool.establish_sound (.inl rfl) (.inr rfl) hl fuel list w₁
        h₁.wellIndexed).ok hrun).1
      have hnone := hsetup.unwatched (by rintro (h | h | h) <;> cases h) fun _ => rfl
      have hmasks := hsetup.maskOf_eq (by rintro (h | h | h) <;> cases h)
      have hpos := (hsetup.preserves (P := fun w => w.lib.store.Positive)
        (fun _ _ _ _ he h => he.positive h) (by
          intro id v hv
          simp [Inotifytools.new, Store.empty] at hv))
      refine ⟨tool.establish_asks hz fuel list w₁ _ w hrun ⟨h₁, fun wd m hm => ?_⟩, ?_, ?_⟩
      · rw [hmasks] at hm
        cases hm
      · exact he.recorded hz hl h₁.mode fun wd id hid => by rw [hnone] at hid; cases hid
      · exact he.preserves (P := fun w => w.lib.store.Positive)
          (fun _ _ _ _ he h => he.positive h) hpos
  | @env w _ os' _ he ih =>
      have hw := ih.asking.inotify
      have hinotify : Inotify { w with os := os' } :=
        ⟨hw.initialized, hw.mode, hw.wellIndexed, hw.plain⟩
      refine ⟨⟨hinotify, fun wd m hm => ?_⟩, ?_, ih.positive⟩
      · rw [World.maskOf, henv _ _ he] at hm
        exact ih.asking.masks wd m hm
      · intro wd id hid
        rw [World.maskOf, henv _ _ he]
        exact ih.recorded wd id hid
  | @turn w w' _ _ fuel _ hrun _ ih =>
      have hl : Kind.lifecycle ∉ Turning := by rintro (h | h | h | h | h) <;> cases h
      have he := ((tool.turn_sound _ _ w ih.asking.inotify.wellIndexed).ok hrun).1
      exact ⟨tool.turn_asks hz _ _ w _ w' hrun ih.asking,
        he.recorded hz hl ih.asking.inotify.mode ih.recorded,
        he.preserves (P := fun w => w.lib.store.Positive) (fun _ _ _ _ he h => he.positive h)
          ih.positive⟩

end InotifyTools
