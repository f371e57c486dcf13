import InotifyTools.Tools.Common

set_option autoImplicit false

/-! # inotifywait

The program after option parsing: setting up the watches, and the loop that waits for events, prints
them and follows moves. Daemonising and redirecting the output only choose where bytes go and are
not modelled. -/

namespace InotifyTools.Inotifywait

variable {σ : Type} [Sys σ]

/-- The options, as option parsing leaves them. -/
structure Opts where
  events : Int32 := 0
  monitor : Bool := false
  quiet : Int32 := 0
  timeout : Int := blockingTimeout
  recursive : Int32 := 0
  csv : Bool := false
  syslog : Bool := false
  noDereference : Bool := false
  format : Option Bytes := none
  timefmt : Option Bytes := none
  fromfile : Option Bytes := none
  filters : Filters := {}
  fanotify : Bool := false
  filesystem : Bool := false

/-! ## Output -/

/-- CSV-escape the first `len` bytes of `string`. Whether escaping is needed is decided on the whole
    string. -/
def csvEscapeLen (string : Bytes) (len : Nat) : Bytes :=
  if len = 0 ∨ len > maxStrlen ∨ len > string.length then []
  -- May not need escaping
  else if !string.contains 0x22 ∧ !string.contains 0x2c ∧ !string.contains 0x0a ∧
      string.getD 0 0 ≠ 0x20 ∧ string.getD (len - 1) 0 ≠ 0x20 then string.take len
  else [0x22] ++ ((string.take len).flatMap fun c => if c = 0x22 then [0x22, c] else [c]) ++ [0x22]

def csvEscape (string : Bytes) : Bytes := csvEscapeLen string string.length

def outputEventCsv (event : Event) : M σ Unit := do
  let path ← filenameFromEvent event
  let filename := csvEscapeLen path.filename path.dirnamelen
  (if !filename.isEmpty then cprint [.bytes filename, .text ","] else pure ())
  let events ← eventToStr event.mask.toInt32
  cprint [.bytes (csvEscape events), .text ","]
  cprint [.bytes (csvEscape path.eventname)]
  cprint [.text "\n"]

def outputError (syslog : Bool) (msg : List Piece) : M σ Unit :=
  if syslog then exec (Sys.syslog (cstring (cat msg)).bytes) else exec (Sys.fwrite .stderr (cat msg))

def outputEvent (o : Opts) (event : Event) : M σ Unit := do
  if o.csv then
    outputEventCsv event
  else
    let _ ← printf event (some (o.format.getD (ascii "%w %,e %f\n")))

/-- Try the format on a fake event; false (the program exits) if it is rejected. -/
def validateFormat (fmt : Bytes) : M σ Bool := do
  let event : Event := { wd := 0, mask := inAllEvents.toUInt32, cookie := 0, len := 3, name := [] }
  if (← fprintfTo .devnull event (some fmt)) = -1 then
    ceprint [.text "Something is wrong with your format string.\n"]
    return false
  return true

/-! ## The event loop -/

/-- The events asked for with `-e`, all events if there are none. -/
def origEvents (o : Opts) : Int32 := if o.events = 0 then inAllEvents else o.events

/-- The events the kernel is asked for. -/
def watchedEvents (o : Opts) : Int32 :=
  let events := origEvents o
  let events :=
    if o.monitor ∧ o.recursive ≠ 0 then events ||| inCreate ||| inMovedTo ||| inMovedFrom else events
  let events := if o.noDereference then events ||| inDontFollow else events
  if o.fanotify then events ||| inIsdir else events

/-- Whether an event is printed. With an include filter, directory events are not shown. -/
def shown (o : Opts) (event : Event) : Bool :=
  o.quiet < 2 ∧ event.mask.toInt32 &&& origEvents o ≠ 0 ∧
    (!o.filters.hasInclude ∨ event.mask.toInt32 &&& inIsdir = 0)

/-- How one turn of the event loop ends. -/
inductive WaitRound
  | exit (code : Int32)
  | last (event : Event)
  | again (moves : MoveTracker)

/-- What is done with an event: print it, then follow it as a move. -/
def waitEvent (fuel : Nat) (o : Opts) (moves : MoveTracker) (event : Event) : M σ WaitRound := do
  (if shown o event then outputEvent o event else pure ())
  if o.filesystem then
    return if !o.monitor then .last event else .again moves
  let recursive := o.monitor ∧ o.recursive ≠ 0
  let moves ← moves.handle fuel event recursive (watchedEvents o) (o.quiet = 0)
    (outputError o.syslog)
  exec Sys.flushAll
  return if !o.monitor then .last event else .again moves

/-- One turn of the event loop. -/
def waitRound (fuel : Nat) (o : Opts) (moves : MoveTracker) : M σ WaitRound := do
  match ← nextEvent fuel o.timeout with
  | none => do
      let e := (← getLib).error
      if e = 0 then
        return .exit exitTimeout
      outputError o.syslog [.bytes (← strerror e), .text "\n"]
      return .exit exitFailure
  | some event => waitEvent fuel o moves event

def waitLoop (o : Opts) : Nat → MoveTracker → M σ Int32
  | 0, _ => Prog.fault .outOfFuel
  | fuel + 1, moves => do
      match ← waitRound fuel o moves with
      | .exit code => return code
      | .again moves => waitLoop o fuel moves
      | .last event =>
          -- If we weren't trying to listen for this event, most likely something bad happened.
          return if watchedEvents o &&& event.mask.toInt32 = 0 then exitFailure else exitSuccess

/-! ## The program -/

def setupMessage (o : Opts) : List Piece :=
  if o.filesystem then [.text "Setting up filesystem watches.\n"]
  else if o.recursive ≠ 0 then
    [.text "Setting up watches.  Beware: since -r was given, this may take a while!\n"]
  else [.text "Setting up watches.\n"]

/-- Everything before the event loop; false if the program exits with failure. -/
def prepare (fuel : Nat) (o : Opts) (args : List Bytes) : M σ Bool := do
  if !(← init o.fanotify o.filesystem (if o.quiet = 0 then 1 else 0)) then
    warnInotifyInitError o.fanotify
    return false
  (match o.timefmt with
    | some t => setPrintfTimefmt t
    | none => pure ())
  if !(← o.filters.install o.recursive) then
    return false
  let valid ← (match o.format with
    | some f => validateFormat f
    | none => pure true)
  if !valid then
    return false
  match ← constructPathList args o.fromfile with
  | none => return false
  | some list => do
      if list.watchFiles.isEmpty then
        ceprint [.text "No files specified to watch!\n"]
        return false
      (if o.quiet = 0 then outputError o.syslog (setupMessage o) else pure ())
      let ok ← watchList fuel list (watchedEvents o) (o.recursive ≠ 0) o.filesystem o.fanotify
        "Couldn't watch " (outputError o.syslog) (fun _ => pure ()) (fun _ => pure ())
      if !ok then
        return false
      (if o.quiet = 0 then outputError o.syslog [.text "Watches established.\n"] else pure ())
      if o.timeout < 0 then
        -- Used to test filesystem support for inotify/fanotify
        ceprint [.text "Negative timeout specified - abort!\n"]
        return false
      return true

def realMain (fuel : Nat) (o : Opts) (args : List Bytes) : M σ Int32 := do
  if !(← prepare fuel o args) then
    return exitFailure
  waitLoop o fuel {}

end InotifyTools.Inotifywait
