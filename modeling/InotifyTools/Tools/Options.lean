import InotifyTools.Implementation.EventList
import InotifyTools.Tools.Inotifywait
import InotifyTools.Tools.Inotifywatch

set_option autoImplicit false

/-! # Command lines

What both tools make of their options. Splitting a command line into options is left to the C
library: a command line is what `getopt_long` returns for it. -/

namespace InotifyTools

variable {σ : Type} [Sys σ]

/-! ## Shared code (`common.rs`) -/

/-- The answers of `getopt_long` to a command line. -/
structure GetOpt where
  /-- The options with their arguments, before the end or the first error. -/
  opts : List (Char × Option CString)
  /-- Whether an error came before the end. -/
  err : Bool := false
  /-- The arguments that are no options. -/
  remaining : List Bytes := []
  /-- What `--help` prints. -/
  help : Bytes := []

/-- The argument of an option as bytes. -/
def optBytes (optarg : Option CString) : Option Bytes := optarg.map CString.bytes

def erange : Int32 := 34

/-- `strtol(s, &end, 10)`: the number, how many bytes it takes, and `errno`. -/
def strtol (s : Bytes) : Int × Nat × Int32 :=
  let s' := s.dropWhile fun c => c = 0x20 ∨ (0x09 ≤ c ∧ c ≤ 0x0d)
  let neg := s'.head? = some 0x2d
  let s' := if neg ∨ s'.head? = some 0x2b then s'.drop 1 else s'
  let digits := s'.takeWhile fun c => 0x30 ≤ c ∧ c ≤ 0x39
  if digits.isEmpty then (0, 0, 0)
  else
    let consumed := s.length - s'.length + digits.length
    let abs : Int := digits.foldl (fun n c => 10 * n + (c - 0x30).toNat) 0
    let n := if neg then -abs else abs
    if n < -2 ^ 63 then (-2 ^ 63, consumed, erange)
    else if 2 ^ 63 ≤ n then (2 ^ 63 - 1, consumed, erange)
    else (n, consumed, 0)

/-- Read a `--timeout` argument; `none` (with a message) if it is no number. -/
def isTimeoutOptionValid (o : Option CString) : M σ (Option Int) := do
  match o with
  | none => invalid
  | some o =>
      if o.bytes.isEmpty then invalid
      else
        let (timeout, consumed, e) := strtol o.bytes
        if e ≠ 0 then
          ceprint [.text "Something went wrong with the timeout value you provided.\n"]
          ceprint [.bytes (← strerror e), .text "\n"]
          return none
        if consumed ≠ o.bytes.length then
          ceprint [.text "'", .bytes o.bytes, .text "' is not a valid timeout value.\n",
            .text "Please specify a long int value.\n"]
          return none
        return some timeout
where
  invalid : M σ (Option Int) := do
    ceprint [.text "The provided value is not a valid timeout value.\n",
      .text "Please specify a long int value.\n"]
    return none

/-- Parse an `--event` argument (printing an error if invalid). -/
def parseEvent (optarg : Option CString) : M σ (Option Int32) := do
  let optarg := (optBytes optarg).getD []
  let event ← strToEvent (some optarg)
  if event = -1 then
    ceprint [.text "'", .bytes optarg, .text ("' is not a valid event!  Run with the '--help' " ++
      "option to see a list of events.\n")]
    return none
  return some event

/-- The loop over the options, each entered by `parseOpt`. -/
def parseEach {κ : Type} (parseOpt : Char → Option CString → κ → M σ (Option κ)) :
    List (Char × Option CString) → κ → M σ (Option κ)
  | [], o => return some o
  | (opt, optarg) :: opts, o => do
      match ← parseOpt opt optarg o with
      | none => return none
      | some o => parseEach parseOpt opts o

/-- Parse a command line: enter its options one by one, check them together, and return them and the
    remaining (file) arguments, or `none` if the program should exit with failure. -/
def parseCommandLine {κ : Type} (parseOpt : Char → Option CString → κ → M σ (Option κ))
    (checkOpts : κ → M σ (Option κ)) (g : GetOpt) (o : κ) : M σ (Option (κ × List Bytes)) := do
  match ← parseEach parseOpt g.opts o with
  | none => return none
  | some o =>
      match ← checkOpts o with
      | none => return none
      | some o =>
          -- If ? returned, invalid option
          if g.err then
            return none
          return some (o, g.remaining)

/-! ## inotifywait -/

namespace Inotifywait

/-- The options, with those that only choose where output goes. -/
structure CommandLine extends Opts where
  daemon : Bool := false
  outfile : Option Bytes := none
  noNewline : Bool := false
  /-- How many times `--exclude` and `--excludei` have been specified. -/
  excludeCount : Nat := 0
  excludeiCount : Nat := 0

/-- Enter one option; `none` if the program should exit with failure. -/
def parseOpt (help : Bytes) (opt : Char) (optarg : Option CString) (o : CommandLine) :
    M σ (Option CommandLine) := do
  let arg := optBytes optarg
  match opt with
  | 'h' =>
      cprint [.bytes help]
      return none
  | 'm' => return some { o with monitor := true }
  | 'q' => return some { o with quiet := o.quiet + 1 }
  | 'r' => return some { o with recursive := o.recursive + 1 }
  | 'I' => return some { o with fanotify := false }
  | 'F' => return some { o with fanotify := true }
  | 'S' => return some { o with filesystem := true, fanotify := true }
  | 'c' => return some { o with csv := true }
  | 'd' => return some { o with daemon := true, monitor := true, syslog := true }
  | 's' => return some { o with syslog := true }
  | 'P' => return some { o with noDereference := true }
  | 'f' =>
      ceprint [
        .text "The '--filename' option no longer exists.  The option it enabled in earlier\n",
        .text "versions of inotifywait is now turned on by default.\n"]
      return none
  | 'n' => return some { o with format := arg }
  | '0' => return some { o with noNewline := true }
  | 'i' => return some { o with timefmt := arg }
  | 'a' =>
      return some
        { o with filters := { o.filters with exc := arg }, excludeCount := o.excludeCount + 1 }
  | 'b' =>
      return some
        { o with filters := { o.filters with exci := arg }, excludeiCount := o.excludeiCount + 1 }
  | 'j' => return some { o with filters := { o.filters with inc := arg } }
  | 'k' => return some { o with filters := { o.filters with inci := arg } }
  | 'z' =>
      if o.fromfile.isSome then
        ceprint [.text "Multiple --fromfile options given.\n"]
        return none
      return some { o with fromfile := arg }
  | 'o' =>
      if o.outfile.isSome then
        ceprint [.text "Multiple --outfile options given.\n"]
        return none
      return some { o with outfile := arg }
  | 't' =>
      match ← isTimeoutOptionValid optarg with
      | none => return none
      | some timeout => return some { o with timeout }
  | 'e' =>
      match ← parseEvent optarg with
      | none => return none
      | some event => return some { o with events := o.events ||| event }
  | _ => return some o

/-- `haystack.windows(2).any(|w| w == [a, b])` -/
def hasPair (a b : UInt8) : Bytes → Bool
  | c :: c' :: s => (c = a ∧ c' = b) ∨ hasPair a b (c' :: s)
  | _ => false

/-- The checks on all the options together: a message, if one fails. -/
def conflict (o : CommandLine) : Option String :=
  if o.format.isSome ∧ o.csv then some "-c and --format cannot both be specified.\n"
  else if o.format.isNone ∧ o.noNewline then
    some "--no-newline cannot be specified without --format.\n"
  else if o.format.isNone ∧ o.timefmt.isSome then
    some "--timefmt cannot be specified without --format.\n"
  else if (o.format.any (hasPair 0x25 0x54)) ∧ o.timefmt.isNone then
    some "%T is in --format string, but --timefmt was not specified.\n"
  else if o.daemon ∧ o.outfile.isNone then some "-o must be specified with -d.\n"
  else none

/-- What is checked when all options are entered; `none` if the program should exit with failure. -/
def checkOpts (o : CommandLine) : M σ (Option CommandLine) := do
  let o := if o.noNewline then o else { o with format := o.format.map (· ++ [0x0a]) }
  if !(← o.filters.validate) then
    return none
  match conflict o with
  | some msg =>
      ceprint [.text msg]
      return none
  | none =>
      let regexWarning := "only the last option will be taken into consideration.\n"
      (if o.excludeCount > 1 then ceprint [.text "--exclude: ", .text regexWarning] else pure ())
      (if o.excludeiCount > 1 then ceprint [.text "--excludei: ", .text regexWarning] else pure ())
      return some o

def parseOpts (g : GetOpt) (o : CommandLine) : M σ (Option (CommandLine × List Bytes)) :=
  parseCommandLine (parseOpt g.help) checkOpts g o

end Inotifywait

/-! ## inotifywatch -/

namespace Inotifywatch

/-- The options, and whether a sort key is set. -/
structure CommandLine extends Opts where
  sortSet : Bool := false

def sortKey (optarg : Bytes) : M σ (Option Int32) := do
  let event ← strToEvent (some optarg)
  if event = -1 then
    ceprint [.text "'", .bytes optarg, .text "' is not a valid key for sorting!\n"]
    return none
  return some event

/-- `--ascending`; `none` if the program should exit with failure. -/
def parseAscending (optarg : Bytes) (o : CommandLine) : M σ (Option CommandLine) := do
  if o.sortSet then
    ceprint [.text "Please specify -a or -d once only!\n"]
    return none
  if eqIgnoreAsciiCase optarg (ascii "total") then
    return some { o with sort := 0, sortSet := true }
  else if eqIgnoreAsciiCase optarg (ascii "move") then
    ceprint [.text "Cannot sort by `move' event; please use `moved_from' or `moved_to'.\n"]
    return none
  else if eqIgnoreAsciiCase optarg (ascii "close") then
    ceprint [.text "Cannot sort by `close' event; please use `close_write' or `close_nowrite'.\n"]
    return none
  else
    match ← sortKey optarg with
    | none => return none
    | some sort => return some { o with sort, sortSet := true }

/-- `--descending`, which does not mark the sort key as set. -/
def parseDescending (optarg : Bytes) (o : CommandLine) : M σ (Option CommandLine) := do
  if o.sortSet then
    ceprint [.text "Please specify -a or -d once only!\n"]
    return none
  if eqIgnoreAsciiCase optarg (ascii "total") then
    return some { o with sort := -1 }
  else
    match ← sortKey optarg with
    | none => return none
    | some sort => return some { o with sort := -sort }

/-- Enter one option; `none` if the program should exit with failure. -/
def parseOpt (help : Bytes) (opt : Char) (optarg : Option CString) (o : CommandLine) :
    M σ (Option CommandLine) := do
  let arg := optBytes optarg
  match opt with
  | 'h' =>
      cprint [.bytes help]
      return none
  | 'v' => return some { o with verbose := o.verbose + 1 }
  | 'r' => return some { o with recursive := o.recursive + 1 }
  | 'I' => return some { o with fanotify := false }
  | 'F' => return some { o with fanotify := true }
  | 'S' => return some { o with filesystem := true, fanotify := true }
  | 'P' => return some { o with noDereference := o.noDereference + 1 }
  | 'z' => return some { o with zero := o.zero + 1 }
  | 'c' => return some { o with filters := { o.filters with exc := arg } }
  | 'b' => return some { o with filters := { o.filters with exci := arg } }
  | 'j' => return some { o with filters := { o.filters with inc := arg } }
  | 'k' => return some { o with filters := { o.filters with inci := arg } }
  | 'o' =>
      if o.fromfile.isSome then
        ceprint [.text "Multiple --fromfile options given.\n"]
        return none
      return some { o with fromfile := arg }
  | 't' =>
      match ← isTimeoutOptionValid optarg with
      | none => return none
      | some timeout => return some { o with timeout }
  | 'e' =>
      match ← parseEvent optarg with
      | none => return none
      | some event => return some { o with events := o.events ||| event }
  | 'a' => parseAscending (arg.getD []) o
  | 'd' => parseDescending (arg.getD []) o
  | _ => return some o

/-- `i32::wrapping_abs` -/
def wrappingAbs (n : Int32) : Int32 := if n < 0 then -n else n

/-- What is checked when all options are entered; `none` if the program should exit with failure. -/
def checkOpts (o : CommandLine) : M σ (Option CommandLine) := do
  let watched := if o.events ≠ 0 then o.events else inAllEvents
  if o.sort ≠ 0 ∧ o.sort ≠ -1 ∧ wrappingAbs o.sort &&& watched = 0 then
    ceprint [.text "Can't sort by an event which isn't being watched for!\n"]
    return none
  if !(← o.filters.validate) then
    return none
  return some o

def parseOpts (g : GetOpt) (o : CommandLine) : M σ (Option (CommandLine × List Bytes)) :=
  parseCommandLine (parseOpt g.help) checkOpts g o

end Inotifywatch

end InotifyTools
