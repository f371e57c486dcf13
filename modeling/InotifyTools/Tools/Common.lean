import InotifyTools.Implementation.Reading

set_option autoImplicit false

/-! # Code shared by inotifywait and inotifywatch (`common.rs`) -/

namespace InotifyTools

variable {σ : Type} [Sys σ]

def exitSuccess : Int32 := 0
def exitFailure : Int32 := 1
def exitTimeout : Int32 := 2
/-- The timeout of `next_event` that blocks. -/
def blockingTimeout : Int := 0
/-- Size of the line buffer of `--fromfile`. -/
def maxlen : Nat := 4096

/-! ## File lists -/

/-- Files to watch and files to exclude (given as `@file`). -/
structure FileList where
  watchFiles : List Bytes := []
  excludeFiles : List Bytes := []

/-- `'@'`. -/
def atSign : UInt8 := 0x40

def FileList.add (list : FileList) (name : Bytes) : FileList :=
  if name.isEmpty ∨ name = [atSign] then list
  else if name.head? = some atSign then
    { list with excludeFiles := list.excludeFiles ++ [name.drop 1] }
  else { list with watchFiles := list.watchFiles ++ [name] }

/-- Read one line like `fgets(buf, MAXLEN, f)`: at most `MAXLEN - 1` bytes, stopping after a newline.
    Returns the line, cut at the first NUL, and what is left to read. -/
def fgets (content : Bytes) : Option (Bytes × Bytes) :=
  if content.isEmpty then none
  else
    let line := (content.takeWhile (· ≠ 0x0a)).length + 1
    let n := min line (maxlen - 1)
    some ((content.take n).takeWhile (· ≠ 0), content.drop n)

/-- Enter a line of `--fromfile` into the list. An empty line is kept as an (empty) file name. -/
def FileList.addLine (list : FileList) (name : Bytes) : FileList :=
  if name.isEmpty then list
  else
    let strLen := name.length
    let name := if name.getLast? = some 0x0a then name.dropLast else name
    if strLen = 1 ∧ name.head? = some atSign then list
    else if name.head? = some atSign then
      { list with excludeFiles := list.excludeFiles ++ [name.drop 1] }
    else { list with watchFiles := list.watchFiles ++ [name] }

/-- The `fgets` loop of `--fromfile`; every line takes at least one byte, so the length of the
    content is fuel enough. -/
def FileList.addLines : Nat → FileList → Bytes → FileList
  | 0, list, _ => list
  | fuel + 1, list, content =>
      match fgets content with
      | none => list
      | some (name, rest) => FileList.addLines fuel (list.addLine name) rest

/-- Build the list of files to watch from `--fromfile` (if given) followed by the command line
    arguments. `none` if the file could not be opened. -/
def constructPathList (args : List Bytes) (fromfile : Option Bytes) : M σ (Option FileList) := do
  match fromfile with
  | none => return some (args.foldl FileList.add {})
  | some filename => do
      match ← call (Sys.slurp (if filename = ascii "-" then none else some (cstring filename))) with
      | none => do
          ceprint [.text "Couldn't open ", .bytes filename, .text ": ",
            .bytes (← strerror (← errno)), .text "\n"]
          return none
      | some content =>
          return some (args.foldl FileList.add (FileList.addLines content.length {} content))

/-- Explain why the backend could not be initialised. -/
def warnInotifyInitError (fanotify : Bool) : M σ Unit := do
  let backend := if fanotify then "fanotify" else "inotify"
  let resource := if fanotify then "groups" else "instances"
  let error := (← getLib).error
  ceprint [.text "Couldn't initialize ", .text backend, .text ": ", .bytes (← strerror error),
    .text "\n"]
  (if error = emfile then
    ceprint [.text "Try increasing the value of /proc/sys/fs/", .text backend, .text "/max_user_",
      .text resource, .text "\n"]
  else pure ())
  (if fanotify ∧ error = einval then
    ceprint [.text ("fanotify support for reporting the events with file names was added in " ++
      "kernel v5.9.\n")]
  else pure ())
  (if fanotify ∧ error = eperm then
    ceprint [.text "fanotify watch requires admin privileges\n"]
  else pure ())

/-! ## Filters -/

/-- The `--exclude`, `--excludei`, `--include` and `--includei` options. -/
structure Filters where
  exc : Option Bytes := none
  exci : Option Bytes := none
  inc : Option Bytes := none
  inci : Option Bytes := none

namespace Filters

def hasInclude (f : Filters) : Bool := f.inc.isSome || f.inci.isSome

/-- Reject conflicting options (with a message). -/
def validate (f : Filters) : M σ Bool := do
  if f.exc.isSome ∧ f.exci.isSome then
    ceprint [.text "--exclude and --excludei cannot both be specified.\n"]
    return false
  if f.inc.isSome ∧ f.inci.isSome then
    ceprint [.text "--include and --includei cannot both be specified.\n"]
    return false
  if f.hasInclude ∧ (f.exc.isSome ∨ f.exci.isSome) then
    ceprint [.text "include and exclude regexp cannot both be specified.\n"]
    return false
  return true

/-- Install the filters `res` with `ignore`; false (with the message `msg`) on an invalid one. -/
def installEach (ignore : Option Bytes → Int32 → M σ Bool) (msg : String) :
    List (Option Bytes × Int32) → M σ Bool
  | [] => return true
  | (none, _) :: res => installEach ignore msg res
  | (some re, flags) :: res => do
      if !(← ignore (some re) flags) then
        ceprint [.text msg]
        return false
      installEach ignore msg res

/-- Install the filters; false (with a message) on an invalid regex. -/
def install (f : Filters) (recursive : Int32) : M σ Bool := do
  let icase := regExtended ||| regIcase
  if !(← installEach (fun re flags => ignoreEventsByRegex re flags recursive)
      "Error in `exclude' regular expression.\n" [(f.exc, regExtended), (f.exci, icase)]) then
    return false
  installEach (fun re flags => ignoreEventsByInvertedRegex re flags recursive)
    "Error in `include' regular expression.\n" [(f.inc, regExtended), (f.inci, icase)]

end Filters

/-! ## Setting up the watches -/

/-- What `watch_list` reports about a file it could not watch. -/
def reportUnwatched (out : List Piece → M σ Unit) (fanotify : Bool) (failVerb : String)
    (thisFile : Bytes) : M σ Unit := do
  let backend := if fanotify then "fanotify" else "inotify"
  let resource := if fanotify then "marks" else "watches"
  if (← getLib).error = enospc then
    out [.text "Failed to watch ", .bytes thisFile, .text "; upper limit on ", .text backend,
      .text " ", .text resource, .text " reached!\n"]
    out [.text "Please increase the amount of ", .text backend, .text " ", .text resource,
      .text " allowed per user via `/proc/sys/fs/", .text backend, .text "/max_user_",
      .text resource, .text "'.\n"]
  else
    out [.text failVerb, .bytes thisFile, .text ": ", .bytes (← strerror (← getLib).error),
      .text "\n"]

def watchListEach (fuel : Nat) (list : FileList) (events : Int32) (recursive filesystem : Bool)
    (fanotify : Bool) (failVerb : String) (out : List Piece → M σ Unit)
    (before after : Bytes → M σ Unit) : List Bytes → M σ Bool
  | [] => return true
  | thisFile :: files => do
      before thisFile
      if filesystem then
        if !(← watchFiles fuel list.watchFiles events) then
          out [.text "Couldn't add filesystem watch ", .bytes thisFile, .text ": ",
            .bytes (← strerror (← getLib).error), .text "\n"]
          return false
        return true
      let ok ← (if recursive then
          watchRecursivelyWithExclude fuel thisFile events list.excludeFiles
        else watchFile fuel thisFile events)
      if !ok then
        reportUnwatched out fanotify failVerb thisFile
        return false
      after thisFile
      watchListEach fuel list events recursive filesystem fanotify failVerb out before after files

/-- Set up the watches for `list`. `out` receives error messages, `before` and `after` are called
    around each (non-filesystem) watch. -/
def watchList (fuel : Nat) (list : FileList) (events : Int32) (recursive filesystem fanotify : Bool)
    (failVerb : String) (out : List Piece → M σ Unit) (before after : Bytes → M σ Unit) :
    M σ Bool :=
  watchListEach fuel list events recursive filesystem fanotify failVerb out before after
    list.watchFiles

/-! ## Following moves -/

/-- Follows directory creation and moves to keep recursive watches current. -/
structure MoveTracker where
  movedFrom : Option Bytes := none
deriving DecidableEq

namespace MoveTracker

/-- A pending MOVED_FROM not followed by MOVED_TO: the directory left the tree, unwatch it. -/
def settle (t : MoveTracker) (event : Event) (out : List Piece → M σ Unit) : M σ MoveTracker := do
  match t.movedFrom with
  | none => return t
  | some mf =>
      if event.mask.toInt32 &&& inMovedTo = 0 then do
        let ok ← removeWatchByFilename mf
        (if !ok then do
          out [.text "Error removing watch on ", .bytes mf, .text ": ",
            .bytes (← strerror (← getLib).error), .text "\n"]
        else pure ())
        return { movedFrom := none }
      else return t

/-- Watch the file an event reports as new if it is a directory. -/
def watchNew (fuel : Nat) (event : Event) (events : Int32) (announce : Bool)
    (out : List Piece → M σ Unit) : M σ Unit := do
  match ← dirpathFromEvent event with
  | none => return ()
  | some newFile => do
      if newFile.isEmpty then
        return ()
      if !(← isdir newFile) then
        return ()
      (if announce then out [.text "Watching new directory ", .bytes newFile, .text "\n"]
      else pure ())
      let ok ← watchRecursively fuel newFile events
      (if !ok then do
        let e ← strerror (← getLib).error
        out [.text "Couldn't watch new directory ", .bytes newFile, .text ": ", .bytes e,
          .text "\n"]
      else pure ())

/-- Handle an event in recursive mode, nothing being left to settle. -/
def follow (t : MoveTracker) (fuel : Nat) (event : Event) (events : Int32) (announce : Bool)
    (out : List Piece → M σ Unit) : M σ MoveTracker := do
  let mask := event.mask.toInt32
  if mask &&& inCreate ≠ 0 ∨ t.movedFrom.isNone ∧ mask &&& inMovedTo ≠ 0 then
    -- New file - if it is a directory, watch it
    watchNew fuel event events announce out
    return t
  else if mask &&& inMovedFrom ≠ 0 then
    let movedFrom ← dirpathFromEvent event
    -- if not watched...
    if (← wdFromFilename (movedFrom.getD [])) = -1 then
      return { movedFrom := none }
    return { movedFrom }
  else if mask &&& inMovedTo ≠ 0 then
    match t.movedFrom with
    | none => return t
    | some mf => do
        let newName := (← dirpathFromEvent event).getD []
        replaceFilename mf newName
        return { movedFrom := none }
  else
    return t

/-- Handle an event. With `announce`, new directories are reported through `out`, which also
    receives errors. -/
def handle (t : MoveTracker) (fuel : Nat) (event : Event) (recursive : Bool) (events : Int32)
    (announce : Bool) (out : List Piece → M σ Unit) : M σ MoveTracker := do
  let t ← t.settle event out
  if !recursive then
    return t
  t.follow fuel event events announce out

end MoveTracker

end InotifyTools
