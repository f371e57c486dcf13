import InotifyTools.Proofs.Filters
import InotifyTools.Tools.Inotifywait
import InotifyTools.Tools.Inotifywatch

set_option autoImplicit false

/-! # Runs of the programs

The two programs have one shape: the files are listed, watches are established for them, and then the
program turns around its event loop with a move tracker in hand. `Tool.Run` is a run of either, turn
by turn; what the parts may do to the handle is said here once. -/

namespace InotifyTools

variable {σ : Type} [Sys σ] {S : Set Kind} {w w' : World σ}

/-! ## The parts of a program -/

namespace Inotifywait

/-- The program from the initialisation to the list of the files. -/
def configure (o : Opts) (args : List Bytes) : M σ (Option FileList) := do
  (match o.timefmt with
    | some t => setPrintfTimefmt t
    | none => pure ())
  if !(← o.filters.install o.recursive) then
    return none
  let valid ← (match o.format with
    | some f => validateFormat f
    | none => pure true)
  if !valid then
    return none
  constructPathList args o.fromfile

/-- The program up to the list of the files. -/
def listed (o : Opts) (args : List Bytes) : M σ (Option FileList) := do
  if !(← init o.fanotify o.filesystem (if o.quiet = 0 then 1 else 0)) then
    warnInotifyInitError o.fanotify
    return none
  configure o args

/-- Set up the watches; false if the program exits with failure. -/
def establish (fuel : Nat) (o : Opts) (list : FileList) : M σ Bool := do
  if list.watchFiles.isEmpty then
    ceprint [.text "No files specified to watch!\n"]
    return false
  (if o.quiet = 0 then outputError o.syslog (setupMessage o) else pure ())
  let ok ← watchList fuel list (watchedEvents o) (o.recursive ≠ 0) o.filesystem o.fanotify
    "Couldn't watch " (outputError o.syslog) (fun _ => pure ()) (fun _ => pure ())
  if !ok then
    return false
  (if o.quiet = 0 then outputError o.syslog [.text "Watches established.\n"] else pure ())
  if o.timeout < 0 then
    ceprint [.text "Negative timeout specified - abort!\n"]
    return false
  return true

theorem prepare_eq (fuel : Nat) (o : Opts) (args : List Bytes) :
    (prepare fuel o args : M σ Bool) = listed o args >>= fun list => match list with
      | none => pure false
      | some list => establish fuel o list := by
  unfold prepare listed
  rw [Prog.bind_assoc]
  refine congrArg _ (funext fun ok => ?_)
  cases ok with
  | false =>
      show (warnInotifyInitError o.fanotify >>= fun _ => pure false) =
        (warnInotifyInitError o.fanotify >>= fun _ => pure none) >>= _
      rw [Prog.bind_assoc]
      rfl
  | true =>
      show (_ >>= fun _ => _) = configure o args >>= _
      unfold configure
      rw [Prog.bind_assoc]
      refine congrArg _ (funext fun _ => ?_)
      rw [Prog.bind_assoc]
      refine congrArg _ (funext fun ok => ?_)
      cases ok with
      | false => rfl
      | true =>
          show (_ >>= fun _ => _) = (_ >>= fun _ => _) >>= _
          rw [Prog.bind_assoc]
          refine congrArg _ (funext fun valid => ?_)
          cases valid with
          | false => rfl
          | true => rfl

/-- The tracker to go on with after a turn, if the program does. -/
def WaitRound.moves : WaitRound → Option MoveTracker
  | .again moves => some moves
  | .exit _ | .last _ => none

end Inotifywait

namespace Inotifywatch

/-- The program up to the list of the files. -/
def listed (o : Opts) (args : List Bytes) : M σ (Option FileList) := do
  if !(← o.filters.install o.recursive) then
    return none
  if !(← init o.fanotify o.filesystem o.verbose) then
    warnInotifyInitError o.fanotify
    return none
  constructPathList args o.fromfile

/-- Set up the watches; false if the program exits with failure. -/
def establish (fuel : Nat) (o : Opts) (list : FileList) : M σ Bool := do
  if list.watchFiles.isEmpty then
    ceprint [.text "No files specified to watch!\n"]
    return false
  ceprint [.text "Establishing watches...\n"]
  let recursive := o.recursive ≠ 0
  let verbose := o.verbose ≠ 0
  let ok ← watchList fuel list (watchedEvents o) recursive o.filesystem o.fanotify
    "Failed to watch " (fun msg => exec (Sys.fwrite .stderr (cat msg)))
    (fun f =>
      if o.filesystem then
        ceprint [.text "Setting up filesystem watch on ", .bytes f, .text "\n"]
      else if recursive ∧ verbose then
        ceprint [.text "Setting up watch(es) on ", .bytes f, .text "\n"]
      else pure ())
    (fun f =>
      if recursive ∧ verbose then
        ceprint [.text "OK, ", .bytes f, .text " is now being watched.\n"]
      else pure ())
  if !ok then
    return false
  let numWatches ← getNumWatches
  (if verbose then ceprint [.text "Total of ", .int numWatches.toUInt32.toNat, .text " watches.\n"]
  else pure ())
  ceprint [.text "Finished establishing watches, now collecting statistics.\n"]
  if o.timeout < 0 then
    ceprint [.text "Negative timeout specified - abort!\n"]
    return false
  (if o.timeout ≠ 0 ∧ verbose then
    ceprint [.text "Will listen for events for ", .int o.timeout, .text " seconds.\n"]
  else pure ())
  initializeStats
  return true

theorem prepare_eq (fuel : Nat) (o : Opts) (args : List Bytes) :
    (prepare fuel o args : M σ Bool) = listed o args >>= fun list => match list with
      | none => pure false
      | some list => establish fuel o list := by
  unfold prepare listed
  rw [Prog.bind_assoc]
  refine congrArg _ (funext fun ok => ?_)
  cases ok with
  | false => rfl
  | true =>
      show (_ >>= fun _ => _) = (_ >>= fun _ => _) >>= _
      rw [Prog.bind_assoc]
      refine congrArg _ (funext fun ok => ?_)
      cases ok with
      | false =>
          show (warnInotifyInitError o.fanotify >>= fun _ => pure false) =
            (warnInotifyInitError o.fanotify >>= fun _ => pure none) >>= _
          rw [Prog.bind_assoc]
          rfl
      | true => rfl

/-- The tracker to go on with after a turn, if the program does. -/
def WatchRound.moves : WatchRound → Option MoveTracker
  | .again moves => some moves
  | .exit _ | .finish => none

end Inotifywatch

/-! ## Runs -/

/-- One of the programs with its options. -/
inductive Tool
  | wait (o : Inotifywait.Opts)
  | watch (o : Inotifywatch.Opts)

namespace Tool

def listed (args : List Bytes) : Tool → M σ (Option FileList)
  | .wait o => Inotifywait.listed o args
  | .watch o => Inotifywatch.listed o args

def establish (fuel : Nat) (list : FileList) : Tool → M σ Bool
  | .wait o => Inotifywait.establish fuel o list
  | .watch o => Inotifywatch.establish fuel o list

/-- A turn of the event loop, and the tracker to go on with. -/
def turn (fuel : Nat) (moves : MoveTracker) : Tool → M σ (Option MoveTracker)
  | .wait o => do return (← Inotifywait.waitRound fuel o moves).moves
  | .watch o => do return (← Inotifywatch.watchRound fuel o moves).moves

/-- Whether the program uses fanotify. -/
def fanotify : Tool → Bool
  | .wait o => o.fanotify
  | .watch o => o.fanotify

/-- `tool.Run args env ok os list w moves`: started with the arguments `args` on the system `os`, the
    program has listed the files `list`, has set up its watches and made turn after turn, each as
    `ok` allows, and has come to `w` with the tracker `moves`; `none` if it has left its loop or not
    entered it. Between turns the system changes as `env` allows. -/
inductive Run (tool : Tool) (args : List Bytes) (env : σ → σ → Prop)
    (ok : FileList → World σ → World σ → Prop) (os : σ) :
    FileList → World σ → Option MoveTracker → Prop
  | start {list : FileList} {w₁ w : World σ} {fuel : Nat} {established : Bool}
      (hlist : tool.listed args { lib := Inotifytools.new, os } = .ok (some list, w₁))
      (hrun : tool.establish fuel list w₁ = .ok (established, w)) :
      Run tool args env ok os list w (if established then some {} else none)
  | env {list : FileList} {w : World σ} {moves : Option MoveTracker} {os' : σ}
      (h : Run tool args env ok os list w moves) (he : env w.os os') :
      Run tool args env ok os list { w with os := os' } moves
  | turn {list : FileList} {w w' : World σ} {moves : MoveTracker} {moves' : Option MoveTracker}
      {fuel : Nat} (h : Run tool args env ok os list w (some moves))
      (hrun : tool.turn fuel moves w = .ok (moves', w')) (hok : ok list w w') :
      Run tool args env ok os list w' moves'

/-- The world when the watches are established. -/
def launch (tool : Tool) (fuel : Nat) (args : List Bytes) (list : FileList) (os : σ) : World σ :=
  (tool.establish fuel list).after ((tool.listed args).after { lib := Inotifytools.new, os })

theorem launch_run {tool : Tool} {fuel : Nat} {args : List Bytes} {list : FileList} {os : σ}
    (env : σ → σ → Prop) (ok : FileList → World σ → World σ → Prop)
    (hlist : (tool.listed args).result { lib := Inotifytools.new, os } = some (some list))
    (hestablish : (tool.establish fuel list).result
      ((tool.listed args).after { lib := Inotifytools.new, os }) = some true) :
    tool.Run args env ok os list (tool.launch fuel args list os) (some {}) := by
  have hstart : tool.Run args env ok os list (tool.launch fuel args list os)
      (if true then some {} else none) :=
    .start (Prog.run_of_result hlist) (Prog.run_of_result hestablish)
  rwa [if_pos rfl] at hstart

end Tool

deriving instance DecidableEq for FileList

/-! ## What the parts do to the handle -/

theorem constructPathList_sound (args : List Bytes) (fromfile : Option Bytes) :
    Sound S (constructPathList args fromfile : M σ (Option FileList)) := by
  cases fromfile with
  | none => exact .pure _
  | some filename =>
      refine .bind (.call fun os => .slurp _ os) fun content => ?_
      cases content with
      | none =>
          exact .bind errno_sound fun _ => .bind (strerror_sound _) fun _ =>
            .bind (ceprint_sound _) fun _ => .pure _
      | some content => exact .pure _

theorem warnInotifyInitError_sound (fanotify : Bool) :
    Sound S (warnInotifyInitError fanotify : M σ Unit) := by
  unfold warnInotifyInitError
  refine .bind .getLib fun _ => .bind (strerror_sound _) fun _ => .bind (ceprint_sound _) fun _ => ?_
  refine .bind (.ite (ceprint_sound _) (.pure _)) fun _ => ?_
  exact .bind (.ite (ceprint_sound _) (.pure _)) fun _ => .ite (ceprint_sound _) (.pure _)

theorem Filters.install_sound (hc : Kind.config ∈ S) (f : Filters) (recursive : Int32) :
    Sound S (f.install recursive : M σ Bool) := by
  have heach : ∀ (ignore : Option Bytes → Int32 → M σ Bool) (msg : String)
      (res : List (Option Bytes × Int32)), (∀ re flags, Sound S (ignore re flags)) →
      Sound S (Filters.installEach ignore msg res) := by
    intro ignore msg res hignore
    induction res with
    | nil => exact .pure true
    | cons re res ih =>
        obtain ⟨re, flags⟩ := re
        cases re with
        | none => exact ih
        | some re =>
            exact .bind (hignore _ _) fun _ => .ite (.bind (ceprint_sound _) fun _ => .pure _) ih
  refine .bind (heach _ _ _ fun re flags => ?_) fun _ => .ite (.pure _) (heach _ _ _ fun re flags => ?_)
  · exact doIgnoreEventsByRegex_sound hc _ _ _ _
  · exact doIgnoreEventsByRegex_sound hc _ _ _ _

theorem reportUnwatched_sound {out : List Piece → M σ Unit} (hout : Prints out) (fanotify : Bool)
    (failVerb : String) (thisFile : Bytes) :
    Sound S (reportUnwatched out fanotify failVerb thisFile) := by
  have hprint : ∀ ps, Sound S (out ps) := fun ps => (hout ps).mono (Set.empty_subset S)
  refine .bind .getLib fun _ => .ite (.bind (hprint _) fun _ => hprint _) ?_
  exact .bind .getLib fun _ => .bind (strerror_sound _) fun _ => hprint _

/-- Setting up the watches watches, and prints. -/
theorem watchList_sound (hw : Kind.watch ∈ S) (hl : Kind.lifecycle ∉ S) {out : List Piece → M σ Unit}
    (hout : Prints out) {before after : Bytes → M σ Unit} (hbefore : ∀ f, Sound S (before f))
    (hafter : ∀ f, Sound S (after f)) (fuel : Nat) (list : FileList) (events : Int32)
    (recursive filesystem fanotify : Bool) (failVerb : String) :
    Sound S (watchList fuel list events recursive filesystem fanotify failVerb out before after) := by
  have hprint : ∀ ps, Sound S (out ps) := fun ps => (hout ps).mono (Set.empty_subset S)
  unfold watchList
  generalize list.watchFiles = files
  induction files with
  | nil => exact .pure true
  | cons f files ih =>
      refine .bind (hbefore f) fun _ => .ite (.bind (watchFiles_sound hw hl _ _ _) fun ok => ?_) ?_
      · refine .ite (.bind .getLib fun _ => .bind (strerror_sound _) fun _ => ?_) (.pure _)
        exact .bind (hprint _) fun _ => .pure _
      · refine .bind (.ite (watchRecursivelyWithExclude_sound hw hl _ _ _ _)
          (watchFiles_sound hw hl _ _ _)) fun ok => ?_
        refine .ite (.bind (reportUnwatched_sound hout _ _ _) fun _ => .pure _) ?_
        exact .bind (hafter f) fun _ => ih

namespace Inotifywait

theorem outputError_prints (syslog : Bool) : Prints (outputError syslog : List Piece → M σ Unit) :=
  fun _ => .ite (.exec fun os => .syslog _ os) (.exec fun os => .fwrite _ _ os)

theorem outputEvent_sound (o : Opts) (event : Event) : Sound S (outputEvent o event : M σ Unit) := by
  have hcsv : Sound S (outputEventCsv event : M σ Unit) := by
    refine .bind (filenameFromEvent_sound event) fun _ => ?_
    refine .bind (.ite (cprint_sound _) (.pure _)) fun _ => .bind (eventToStr_sound _) fun _ => ?_
    exact .bind (cprint_sound _) fun _ => .bind (cprint_sound _) fun _ => cprint_sound _
  exact .ite hcsv (.bind (fprintfTo_sound _ _ _) fun _ => .pure _)

theorem configure_sound (hc : Kind.config ∈ S) (o : Opts) (args : List Bytes) :
    Sound S (configure o args : M σ (Option FileList)) := by
  refine .bind ?_ fun _ => .bind (Filters.install_sound hc _ _) fun _ => .ite (.pure _) ?_
  · cases o.timefmt with
    | none => exact .pure _
    | some t => exact setPrintfTimefmt_sound hc t
  · refine .bind ?_ fun _ => .ite (.pure _) (constructPathList_sound _ _)
    cases o.format with
    | none => exact .pure _
    | some f =>
        exact .bind (fprintfTo_sound _ _ _) fun _ => .ite (.bind (ceprint_sound _) fun _ => .pure _)
          (.pure _)

theorem listed_sound (hc : Kind.config ∈ S) (hl : Kind.lifecycle ∈ S) (hs : Kind.stats ∈ S) (o : Opts)
    (args : List Bytes) : Sound S (listed o args : M σ (Option FileList)) :=
  .bind (init_sound hc hl hs _ _ _) fun _ =>
    .ite (.bind (warnInotifyInitError_sound _) fun _ => .pure _) (configure_sound hc o args)

theorem establish_sound (hw : Kind.watch ∈ S) (hl : Kind.lifecycle ∉ S) (fuel : Nat) (o : Opts)
    (list : FileList) : Sound S (establish fuel o list : M σ Bool) := by
  have hprint : ∀ ps, Sound S (outputError o.syslog ps : M σ Unit) := fun ps =>
    (outputError_prints o.syslog ps).mono (Set.empty_subset S)
  refine .ite (.bind (ceprint_sound _) fun _ => .pure _) ?_
  refine .bind (.ite (hprint _) (.pure _)) fun _ => ?_
  refine .bind (watchList_sound hw hl (outputError_prints _) (fun _ => .pure _) (fun _ => .pure _)
    _ _ _ _ _ _ _) fun _ => .ite (.pure _) ?_
  refine .bind (.ite (hprint _) (.pure _)) fun _ => ?_
  exact .ite (.bind (ceprint_sound _) fun _ => .pure _) (.pure _)

theorem waitEvent_sound (hw : Kind.watch ∈ S) (hr : Kind.rename ∈ S) (hrm : Kind.remove ∈ S)
    (hl : Kind.lifecycle ∉ S) (fuel : Nat) (o : Opts) (moves : MoveTracker) (event : Event) :
    Sound S (waitEvent fuel o moves event : M σ WaitRound) := by
  refine .bind (.ite (outputEvent_sound o event) (.pure _)) fun _ => .ite (.pure _) ?_
  refine .bind (MoveTracker.handle_sound hw hr hrm hl (outputError_prints _) _ _ _ _ _ _) fun _ => ?_
  exact .bind (.exec fun os => .flushAll os) fun _ => .pure _

end Inotifywait

namespace Inotifywatch

theorem listed_sound (hc : Kind.config ∈ S) (hl : Kind.lifecycle ∈ S) (hs : Kind.stats ∈ S) (o : Opts)
    (args : List Bytes) : Sound S (listed o args : M σ (Option FileList)) := by
  refine .bind (Filters.install_sound hc _ _) fun _ => .ite (.pure _) ?_
  refine .bind (init_sound hc hl hs _ _ _) fun _ => ?_
  exact .ite (.bind (warnInotifyInitError_sound _) fun _ => .pure _) (constructPathList_sound _ _)

theorem establish_sound (hw : Kind.watch ∈ S) (hs : Kind.stats ∈ S) (hl : Kind.lifecycle ∉ S)
    (fuel : Nat) (o : Opts) (list : FileList) : Sound S (establish fuel o list : M σ Bool) := by
  refine .ite (.bind (ceprint_sound _) fun _ => .pure _) (.bind (ceprint_sound _) fun _ => ?_)
  refine .bind (watchList_sound hw hl (fun _ => .exec fun os => .fwrite _ _ os) (fun f => ?_)
    (fun f => ?_) _ _ _ _ _ _ _) fun _ => .ite (.pure _) ?_
  · exact .ite (ceprint_sound _) (.ite (ceprint_sound _) (.pure _))
  · exact .ite (ceprint_sound _) (.pure _)
  · refine .bind getNumWatches_sound fun _ => .bind (.ite (ceprint_sound _) (.pure _)) fun _ => ?_
    refine .bind (ceprint_sound _) fun _ => .ite (.bind (ceprint_sound _) fun _ => .pure _) ?_
    refine .bind (.ite (ceprint_sound _) (.pure _)) fun _ => ?_
    exact .bind (initializeStats_sound hs) fun _ => .pure _

/-- Printing the table only looks. -/
theorem printInfo_sound (o : Opts) : Sound S (printInfo o : M σ Int32) := by
  have hcolumns : ∀ cs, Sound S (shownColumns o cs : M σ (List (Int32 × String × Nat))) := by
    intro cs
    induction cs with
    | nil => exact .pure _
    | cons c cs ih => exact .bind (getStatTotal_sound _) fun _ => .bind ih fun _ => .pure _
  have hrows : ∀ shown rows, Sound S (printRows o shown rows : M σ Unit) := by
    intro shown rows
    induction rows with
    | nil => exact .pure _
    | cons row rows ih =>
        refine .bind (.ite (.pure _) ?_) fun _ => ih
        exact .bind (cprint_sound _) fun _ => .bind (filenameFromWatch_sound _) fun _ => cprint_sound _
  refine .bind (getStatTotal_sound _) fun _ => .ite (.bind (ceprint_sound _) fun _ => .pure _) ?_
  refine .bind (hcolumns _) fun _ => .bind (cprint_sound _) fun _ => .bind (cprint_sound _) fun _ => ?_
  exact .bind (watchesSortedByEvent_sound _) fun _ => .bind (hrows _ _) fun _ => .pure _

theorem checkPrintNow_sound (o : Opts) : Sound S (checkPrintNow o : M σ Unit) :=
  .bind (.call fun os => .printNow os) fun _ =>
    .ite (.bind (printInfo_sound o) fun _ => cprint_sound _) (.pure _)

theorem watchEvent_sound (hw : Kind.watch ∈ S) (hr : Kind.rename ∈ S) (hrm : Kind.remove ∈ S)
    (hl : Kind.lifecycle ∉ S) (fuel : Nat) (o : Opts) (moves : MoveTracker) (event : Event) :
    Sound S (watchEvent fuel o moves event : M σ MoveTracker) :=
  .ite (.pure _) (MoveTracker.handle_sound hw hr hrm hl (fun _ => .exec fun os => .fwrite _ _ os)
    _ _ _ _ _ _)

theorem watchAgain_sound (moves : MoveTracker) : Sound S (watchAgain moves : M σ WatchRound) :=
  .bind (.call fun os => .done os) fun _ => .ite (.pure _) (.pure _)

end Inotifywatch

namespace Tool

theorem listed_sound (hc : Kind.config ∈ S) (hl : Kind.lifecycle ∈ S) (hs : Kind.stats ∈ S)
    (tool : Tool) (args : List Bytes) : Sound S (tool.listed args : M σ (Option FileList)) := by
  cases tool with
  | wait o => exact Inotifywait.listed_sound hc hl hs o args
  | watch o => exact Inotifywatch.listed_sound hc hl hs o args

theorem establish_sound (hw : Kind.watch ∈ S) (hs : Kind.stats ∈ S) (hl : Kind.lifecycle ∉ S)
    (tool : Tool) (fuel : Nat) (list : FileList) :
    Sound S (tool.establish fuel list : M σ Bool) := by
  cases tool with
  | wait o => exact Inotifywait.establish_sound hw hl fuel o list
  | watch o => exact Inotifywatch.establish_sound hw hs hl fuel o list

/-- The kinds of effects of a turn. -/
abbrev Turning : Set Kind := {.stream, .watch, .stats, .rename, .remove}

theorem turn_sound (tool : Tool) (fuel : Nat) (moves : MoveTracker) :
    Sound Turning (tool.turn fuel moves : M σ (Option MoveTracker)) := by
  have hs : Kind.stream ∈ Turning := .inl rfl
  have hw : Kind.watch ∈ Turning := .inr (.inl rfl)
  have ht : Kind.stats ∈ Turning := .inr (.inr (.inl rfl))
  have hr : Kind.rename ∈ Turning := .inr (.inr (.inr (.inl rfl)))
  have hrm : Kind.remove ∈ Turning := .inr (.inr (.inr (.inr rfl)))
  have hl : Kind.lifecycle ∉ Turning := by rintro (h | h | h | h | h) <;> cases h
  cases tool with
  | wait o =>
      refine .bind (.bind (nextEvent_sound hs hw hl ht fuel _) fun event => ?_) fun _ => .pure _
      cases event with
      | none =>
          refine .bind .getLib fun _ => .ite (.pure _) (.bind (strerror_sound _) fun _ => ?_)
          exact .bind ((Inotifywait.outputError_prints _ _).mono (Set.empty_subset _)) fun _ => .pure _
      | some event => exact Inotifywait.waitEvent_sound hw hr hrm hl fuel o moves event
  | watch o =>
      refine .bind (.bind (Inotifywatch.checkPrintNow_sound o) fun _ =>
        .bind (nextEvent_sound hs hw hl ht fuel _) fun event =>
        .bind (Inotifywatch.checkPrintNow_sound o) fun _ => ?_) fun _ => .pure _
      cases event with
      | none =>
          refine .bind .getLib fun _ => .ite (.pure _) (.ite (.bind (strerror_sound _) fun _ => ?_)
            (Inotifywatch.watchAgain_sound _))
          exact .bind (ceprint_sound _) fun _ => .pure _
      | some event =>
          exact .bind (Inotifywatch.watchEvent_sound hw hr hrm hl fuel o moves event) fun _ =>
            Inotifywatch.watchAgain_sound _

end Tool

/-- A handle is initialised by a program that goes on after the initialisation. -/
theorem init_then {α : Type} {m : M σ (Option α)} (hm : Sound {.config} m)
    (hw : w.lib.store.WellIndexed) (hi : w.lib.initialized = false) {fanotify watchFilesystem : Bool}
    {verbose : Int32} {a : α}
    (hrun : (init fanotify watchFilesystem verbose >>= fun ok =>
      if (!ok) = true then warnInotifyInitError fanotify >>= fun _ => pure none else m) w
        = .ok (some a, w')) : w'.lib.initialized = true ∧ w'.lib.fanotifyMode = fanotify := by
  obtain ⟨ok, w₁, hinit, hrest⟩ := Prog.bind_ok hrun
  have hw₁ := ((init_sound (S := Set.univ) trivial trivial trivial fanotify watchFilesystem verbose w
    hw).ok hinit).1.wellIndexed hw
  obtain ⟨_, _, _, fd, _, -, -, -, hinit'⟩ := init_run hi fanotify watchFilesystem verbose
  rw [hinit] at hinit'
  by_cases hfd : fd < 0
  · rw [if_pos hfd] at hinit'
    cases hinit'
    obtain ⟨_, _, -, hnone⟩ := Prog.bind_ok hrest
    cases hnone
  · rw [if_neg hfd] at hinit'
    cases hinit'
    have he := ((hm _ hw₁).ok hrest).1
    exact ⟨he.initialized_eq nofun, he.fanotifyMode_eq nofun⟩

/-- After listing its files a program has an initialised handle. -/
theorem Tool.listed_initialized {tool : Tool} {args : List Bytes} {os : σ} {list : FileList}
    (hrun : tool.listed args { lib := Inotifytools.new, os } = .ok (some list, w)) :
    w.lib.initialized = true ∧ w.lib.fanotifyMode = tool.fanotify := by
  have hw₀ : Store.WellIndexed Inotifytools.new.store := Store.wellIndexed_empty
  cases tool with
  | wait o =>
      exact init_then (Inotifywait.configure_sound (S := {.config}) rfl o args) hw₀ rfl hrun
  | watch o =>
      obtain ⟨ok, w₁, hfilter, hrest⟩ := Prog.bind_ok hrun
      have he := ((Filters.install_sound (S := {.config}) rfl o.filters o.recursive _ hw₀).ok
        hfilter).1
      cases ok with
      | false => cases hrest
      | true =>
          exact init_then (constructPathList_sound args o.fromfile) (he.wellIndexed hw₀)
            (he.initialized_eq nofun) hrest

/-- In every run the handle is initialised, and its store in order. -/
theorem Tool.Run.wellIndexed {tool : Tool} {args : List Bytes} {env : σ → σ → Prop}
    {ok : FileList → World σ → World σ → Prop} {os : σ} {list : FileList} {moves : Option MoveTracker}
    (h : tool.Run args env ok os list w moves) :
    w.lib.initialized = true ∧ w.lib.store.WellIndexed := by
  induction h with
  | @start w₁ w fuel established hlist hrun =>
      have hl : Kind.lifecycle ∉ ({.watch, .stats} : Set Kind) := by rintro (h | h) <;> cases h
      have hw₁ := ((tool.listed_sound (S := Set.univ) trivial trivial trivial args _
        Store.wellIndexed_empty).ok hlist).1.wellIndexed Store.wellIndexed_empty
      have he := ((tool.establish_sound (.inl rfl) (.inr rfl) hl fuel list w₁ hw₁).ok hrun).1
      exact ⟨(he.initialized_eq hl).trans (Tool.listed_initialized hlist).1, he.wellIndexed hw₁⟩
  | env _ _ ih => exact ih
  | turn _ hrun _ ih =>
      have hl : Kind.lifecycle ∉ Turning := by rintro (h | h | h | h | h) <;> cases h
      have he := ((tool.turn_sound _ _ _ ih.2).ok hrun).1
      exact ⟨(he.initialized_eq hl).trans ih.1, he.wellIndexed ih.2⟩

/-! ## With inotify -/

/-- The kinds of effects of reading with inotify. -/
abbrev Reading : Set Kind := {.stream, .stats}

theorem eventRound_reads (h : Inotify w) (fuel : Nat) (timeout : Int) (numEvents : Int32) :
    SoundAt Reading w (eventRound fuel timeout numEvents) fun _ _ => True := by
  rw [eventRound_eq]
  have htake : SoundAt Reading w (takeRecord fuel timeout numEvents) fun _ _ => True :=
    Prog.wp.mono (takeRecord_sound h fuel timeout numEvents) fun _ _ ⟨he, ht⟩ =>
      ⟨he.mono (Set.singleton_subset_iff.2 (.inl rfl)), ht⟩
  refine .bind h.wellIndexed htake fun pid w₁ hw₁ _ _ => ?_
  cases pid with
  | none => exact .pure trivial
  | some pid => exact deliver_sound (.inr rfl) pid w₁ hw₁

theorem nextEvents_reads (hz : ¬ AnsweredZero σ) (h : Inotify w) (fuel : Nat) (timeout : Int)
    (numEvents : Int32) : SoundAt Reading w (nextEvents fuel timeout numEvents) fun _ _ => True := by
  have hl : Kind.lifecycle ∉ Reading := by rintro (h | h) <;> cases h
  have hloop : ∀ n w, Inotify w →
      SoundAt Reading w (nextEventsLoop timeout numEvents n : M σ Bool) fun _ _ => True := by
    intro n
    induction n with
    | zero => exact fun w _ => .fault (by decide)
    | succ n ih =>
        intro w h
        refine .bind h.wellIndexed (eventRound_reads h n timeout numEvents) fun r w₁ _ he _ => ?_
        cases r with
        | fail => exact .pure trivial
        | event => exact .pure trivial
        | skip => exact ih w₁ (h.effects hz he hl)
  refine .bind (Q := fun _ _ => True) h.wellIndexed ?_ fun b w₁ hw₁ _ _ =>
    Sound.at (.ite (.bind getStream_sound fun _ => .pure _) (.pure _)) hw₁
  refine .bind h.wellIndexed (assertInit_sound w h.wellIndexed) fun _ w₁ hw₁ he₁ _ => ?_
  refine .bind hw₁ (niceassert_sound _ _ _ _ w₁ hw₁) fun _ w₂ _ he₂ _ => ?_
  exact .ite (fun _ => .pure trivial) fun _ => hloop _ w₂ ((h.effects hz he₁ hl).effects hz he₂ hl)

/-- After listing its files a program without fanotify has a handle for inotify. -/
theorem Tool.listed_inotify (hz : ¬ AnsweredZero σ) {tool : Tool} (ht : tool.fanotify = false)
    {args : List Bytes} {os : σ} {list : FileList}
    (hrun : tool.listed args { lib := Inotifytools.new, os } = .ok (some list, w)) : Inotify w := by
  have hw₀ : Store.WellIndexed Inotifytools.new.store := Store.wellIndexed_empty
  obtain ⟨hi, hm⟩ := Tool.listed_initialized hrun
  rw [ht] at hm
  have he := ((tool.listed_sound (S := Set.univ) trivial trivial trivial args _ hw₀).ok hrun).1
  have hplain := he.preserves (P := fun w => w.lib.store.WellIndexed ∧ InotifyPlain w)
    (fun k w₁ w₂ _ he h => ⟨(he.integrity h.1).1, he.inotifyPlain hz h.1 h.2⟩)
    ⟨hw₀, fun h _ => nomatch h⟩
  exact ⟨hi, hm, hplain.1, hplain.2 hi hm⟩

/-- A relation that reading and following keep, a turn keeps. -/
theorem Tool.turn_rel (hz : ¬ AnsweredZero σ) {R : World σ → World σ → Prop}
    (htrans : ∀ {u v w}, R u v → R v w → R u w)
    (hreads : ∀ {w w'}, Inotify w → Effects Reading w w' → R w w')
    (hfollows : ∀ {w w' fuel event recursive events announce out} {moves moves' : MoveTracker},
      Inotify w → Prints out →
        moves.handle fuel event recursive events announce out w = .ok (moves', w') → R w w')
    {tool : Tool} {fuel : Nat} {moves : MoveTracker} {moves' : Option MoveTracker} (h : Inotify w)
    (hrun : tool.turn fuel moves w = .ok (moves', w')) : R w w' ∧ Inotify w' := by
  have hl : Kind.lifecycle ∉ Reading := by rintro (h | h) <;> cases h
  have hl' : Kind.lifecycle ∉ ({.watch, .rename, .remove} : Set Kind) := by
    rintro (h | h | h) <;> cases h
  have hquiet : ∀ {α : Type} {m : M σ α} {w w' : World σ} {a : α}, Sound ∅ m → Inotify w →
      m w = .ok (a, w') → R w w' ∧ Inotify w' := by
    intro α m w w' a hm h hrun
    have he := ((hm w h.wellIndexed).ok hrun).1
    exact ⟨hreads h (he.mono (Set.empty_subset _)), h.effects hz he (Set.notMem_empty _)⟩
  have hnext : ∀ {w w' : World σ} {timeout : Int} {event : Option Event}, Inotify w →
      nextEvent fuel timeout w = .ok (event, w') → R w w' ∧ Inotify w' := by
    intro w w' timeout event h hrun
    have he := ((nextEvents_reads hz h _ _ _).ok hrun).1
    exact ⟨hreads h he, h.effects hz he hl⟩
  have hhandle : ∀ {w w' : World σ} {event : Event} {recursive : Bool} {events : Int32}
      {announce : Bool} {out : List Piece → M σ Unit} {moves moves' : MoveTracker}, Prints out →
      Inotify w → moves.handle fuel event recursive events announce out w = .ok (moves', w') →
        R w w' ∧ Inotify w' := by
    intro w w' event recursive events announce out moves moves' hout h hrun
    have he := ((moves.handle_sound (.inl rfl) (.inr (.inl rfl)) (.inr (.inr rfl)) hl' hout fuel event
      recursive events announce w h.wellIndexed).ok hrun).1
    exact ⟨hfollows h hout hrun, h.effects hz he hl'⟩
  -- each part of a turn only prints, reads, or follows a move
  cases tool with
  | wait o =>
      obtain ⟨round, v, hround, hv⟩ := Prog.bind_ok hrun
      cases hv
      obtain ⟨event, w₁, hevent, hrest⟩ := Prog.bind_ok hround
      obtain ⟨hr₁, h₁⟩ := hnext h hevent
      cases event with
      | none =>
          have hnone : Sound ∅ (do
              let e := (← getLib).error
              if e = 0 then
                return .exit exitTimeout
              Inotifywait.outputError o.syslog [.bytes (← strerror e), .text "\n"]
              return .exit exitFailure : M σ Inotifywait.WaitRound) :=
            .bind .getLib fun _ => .ite (.pure _) (.bind (strerror_sound _) fun _ =>
              .bind (Inotifywait.outputError_prints _ _) fun _ => .pure _)
          obtain ⟨hr₂, h₂⟩ := hquiet hnone h₁ hrest
          exact ⟨htrans hr₁ hr₂, h₂⟩
      | some event =>
          obtain ⟨_, w₂, hout, hrest⟩ := Prog.bind_ok hrest
          have hprint : Sound ∅ (if Inotifywait.shown o event = true then
              Inotifywait.outputEvent o event else pure () : M σ Unit) :=
            .ite (Inotifywait.outputEvent_sound o event) (.pure _)
          obtain ⟨hr₂, h₂⟩ := hquiet hprint h₁ hout
          by_cases hfs : o.filesystem = true
          · rw [if_pos hfs] at hrest
            cases hrest
            exact ⟨htrans hr₁ hr₂, h₂⟩
          · rw [if_neg hfs] at hrest
            obtain ⟨_, w₃, hmove, hrest⟩ := Prog.bind_ok hrest
            obtain ⟨hr₃, h₃⟩ := hhandle (Inotifywait.outputError_prints _) h₂ hmove
            have hflush : Sound ∅ (exec Sys.flushAll : M σ Unit) := .exec fun os => .flushAll os
            obtain ⟨_, w₄, hfl, hrest⟩ := Prog.bind_ok hrest
            obtain ⟨hr₄, h₄⟩ := hquiet hflush h₃ hfl
            cases hrest
            exact ⟨htrans hr₁ (htrans hr₂ (htrans hr₃ hr₄)), h₄⟩
  | watch o =>
      obtain ⟨round, v, hround, hv⟩ := Prog.bind_ok hrun
      cases hv
      obtain ⟨_, w₁, hprint, hrest⟩ := Prog.bind_ok hround
      obtain ⟨hr₁, h₁⟩ := hquiet (Inotifywatch.checkPrintNow_sound o) h hprint
      obtain ⟨event, w₂, hevent, hrest⟩ := Prog.bind_ok hrest
      obtain ⟨hr₂, h₂⟩ := hnext h₁ hevent
      obtain ⟨_, w₃, hprint, hrest⟩ := Prog.bind_ok hrest
      obtain ⟨hr₃, h₃⟩ := hquiet (Inotifywatch.checkPrintNow_sound o) h₂ hprint
      have hr := htrans hr₁ (htrans hr₂ hr₃)
      cases event with
      | none =>
          have hnone : Sound ∅ (do
              let err := (← getLib).error
              if err = 0 then
                return .exit exitTimeout
              if err ≠ Inotifywatch.eintr then
                ceprint [.bytes (← strerror err), .text "\n"]
                return .exit exitFailure
              Inotifywatch.watchAgain moves : M σ Inotifywatch.WatchRound) :=
            .bind .getLib fun _ => .ite (.pure _) (.ite (.bind (strerror_sound _) fun _ =>
              .bind (ceprint_sound _) fun _ => .pure _) (Inotifywatch.watchAgain_sound _))
          obtain ⟨hr₄, h₄⟩ := hquiet hnone h₃ hrest
          exact ⟨htrans hr hr₄, h₄⟩
      | some event =>
          obtain ⟨moves₁, w₄, hmove, hrest⟩ := Prog.bind_ok hrest
          have hstep : R w₃ w₄ ∧ Inotify w₄ := by
            unfold Inotifywatch.watchEvent at hmove
            by_cases hfs : o.filesystem = true
            · rw [if_pos hfs] at hmove
              cases hmove
              exact ⟨hreads h₃ (.refl _), h₃⟩
            · rw [if_neg hfs] at hmove
              exact hhandle (fun _ => .exec fun os => .fwrite _ _ os) h₃ hmove
          obtain ⟨hr₅, h₅⟩ := hquiet (Inotifywatch.watchAgain_sound _) hstep.2 hrest
          exact ⟨htrans hr (htrans hstep.1 hr₅), h₅⟩

end InotifyTools
