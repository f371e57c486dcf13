import InotifyTools.Tools.Common

set_option autoImplicit false

/-! # inotifywatch

The program after option parsing: setting up the watches, the loop that collects statistics and
follows moves, and the table printed at the end. -/

namespace InotifyTools.Inotifywatch

variable {σ : Type} [Sys σ]

/-- The options, as option parsing leaves them. -/
structure Opts where
  events : Int32 := 0
  timeout : Int := blockingTimeout
  verbose : Int32 := 0
  zero : Int32 := 0
  sort : Int32 := -1
  recursive : Int32 := 0
  noDereference : Int32 := 0
  fromfile : Option Bytes := none
  filters : Filters := {}
  fanotify : Bool := false
  filesystem : Bool := false

def eintr : Int32 := 4

/-- The events the kernel is asked for. -/
def watchedEvents (o : Opts) : Int32 :=
  let events := if o.events = 0 then inAllEvents else o.events
  let events := if o.noDereference ≠ 0 then events ||| inDontFollow else events
  if o.fanotify then events ||| inIsdir else events

/-! ## The table -/

/-- The table columns: event, header, width of the value column. -/
def columns : List (Int32 × String × Nat) :=
  [(inAccess, "access", 6),
   (inModify, "modify", 6),
   (inAttrib, "attrib", 6),
   (inCloseWrite, "close_write", 11),
   (inCloseNowrite, "close_nowrite", 13),
   (inOpen, "open", 4),
   (inMovedFrom, "moved_from", 10),
   (inMovedTo, "moved_to", 8),
   (inMoveSelf, "move_self", 9),
   (inCreate, "create", 6),
   (inDelete, "delete", 6),
   (inDeleteSelf, "delete_self", 11),
   (inUnmount, "unmount", 7)]

/-- `{:<width$}` of a count, followed by two blanks. -/
def cell (v : UInt32) (width : Nat) : Piece :=
  let digits := ascii (toString v.toNat)
  .bytes (digits ++ List.replicate (width - digits.length + 2) 0x20)

/-- The columns that are shown. -/
def shownColumns (o : Opts) : List (Int32 × String × Nat) → M σ (List (Int32 × String × Nat))
  | [] => return []
  | c :: cs => do
      let total ← getStatTotal c.1
      let rest ← shownColumns o cs
      return if c.1 &&& watchedEvents o ≠ 0 ∧ (o.zero ≠ 0 ∨ total ≠ 0) then c :: rest else rest

def printRows (o : Opts) (shown : List (Int32 × String × Nat)) :
    List (Nat × WatchStats) → M σ Unit
  | [] => return ()
  | (id, stats) :: rows => do
      (if o.zero = 0 ∧ stats.total = 0 then pure ()
      else do
        cprint (cell stats.total 5 :: shown.map fun c => cell ((stats.get c.1).getD 0) c.2.2)
        cprint [.bytes (← filenameFromWatch id), .text "\n"])
      printRows o shown rows

def printInfo (o : Opts) : M σ Int32 := do
  if (← getStatTotal 0) = 0 then
    ceprint [.text "No events occurred.\n"]
    return exitSuccess
  let shown ← shownColumns o columns
  -- OK, go through the watches and print stats.
  cprint (.text "total  " :: shown.flatMap fun c => [.text c.2.1, .text "  "])
  cprint [.text "filename\n"]
  printRows o shown (← watchesSortedByEvent o.sort)
  return exitSuccess

/-- Print statistics requested by SIGUSR1. -/
def checkPrintNow (o : Opts) : M σ Unit := do
  if ← call Sys.printNow then
    let _ ← printInfo o
    cprint [.text "\n"]

/-! ## The event loop -/

/-- One turn of the event loop: the tracker to go on with, or the exit code. `none` leaves the loop
    for the final table. -/
inductive WatchRound
  | exit (code : Int32)
  | finish
  | again (moves : MoveTracker)

/-- What is done with an event. -/
def watchEvent (fuel : Nat) (o : Opts) (moves : MoveTracker) (event : Event) :
    M σ MoveTracker := do
  if o.filesystem then
    return moves
  moves.handle fuel event (o.recursive ≠ 0) (watchedEvents o) false
    fun msg => exec (Sys.fwrite .stderr (cat msg))

/-- Leave the loop when a signal asked for it. -/
def watchAgain (moves : MoveTracker) : M σ WatchRound := do
  if ← call Sys.done then
    return .finish
  return .again moves

/-- One turn of the event loop. -/
def watchRound (fuel : Nat) (o : Opts) (moves : MoveTracker) : M σ WatchRound := do
  checkPrintNow o
  let event ← nextEvent fuel blockingTimeout
  checkPrintNow o
  match event with
  | none => do
      let err := (← getLib).error
      if err = 0 then
        return .exit exitTimeout
      if err ≠ eintr then
        ceprint [.bytes (← strerror err), .text "\n"]
        return .exit exitFailure
      watchAgain moves
  | some event => do
      let moves ← watchEvent fuel o moves event
      watchAgain moves

def watchLoop (o : Opts) : Nat → MoveTracker → M σ Int32
  | 0, _ => Prog.fault .outOfFuel
  | fuel + 1, moves => do
      match ← watchRound fuel o moves with
      | .exit code => return code
      | .finish => printInfo o
      | .again moves => watchLoop o fuel moves

/-! ## The program -/

/-- Everything before the event loop; false if the program exits with failure. -/
def prepare (fuel : Nat) (o : Opts) (args : List Bytes) : M σ Bool := do
  if !(← o.filters.install o.recursive) then
    return false
  if !(← init o.fanotify o.filesystem o.verbose) then
    warnInotifyInitError o.fanotify
    return false
  match ← constructPathList args o.fromfile with
  | none => return false
  | some list => do
      if list.watchFiles.isEmpty then
        ceprint [.text "No files specified to watch!\n"]
        return false
      ceprint [.text "Establishing watches...\n"]
      let recursive := o.recursive ≠ 0
      let verbose := o.verbose ≠ 0
      let ok ← watchList fuel list (watchedEvents o) recursive o.filesystem o.fanotify
        "Failed to watch " (fun msg => exec (Sys.fwrite .stderr (cat msg)))
        (fun f =>
          if o.filesystem then
            ceprint [.text "Setting up filesystem watch on ", .bytes f, .text "\n"]
          else if recursive ∧ verbose then
            ceprint [.text "Setting up watch(es) on ", .bytes f, .text "\n"]
          else pure ())
        (fun f =>
          if recursive ∧ verbose then
            ceprint [.text "OK, ", .bytes f, .text " is now being watched.\n"]
          else pure ())
      if !ok then
        return false
      let numWatches ← getNumWatches
      (if verbose then ceprint [.text "Total of ", .int numWatches.toUInt32.toNat, .text " watches.\n"]
      else pure ())
      ceprint [.text "Finished establishing watches, now collecting statistics.\n"]
      if o.timeout < 0 then
        -- Used to test filesystem support for inotify/fanotify
        ceprint [.text "Negative timeout specified - abort!\n"]
        return false
      (if o.timeout ≠ 0 ∧ verbose then
        ceprint [.text "Will listen for events for ", .int o.timeout, .text " seconds.\n"]
      else pure ())
      initializeStats
      return true

def realMain (fuel : Nat) (o : Opts) (args : List Bytes) : M σ Int32 := do
  if !(← prepare fuel o args) then
    return exitFailure
  watchLoop o fuel {}

end InotifyTools.Inotifywatch
