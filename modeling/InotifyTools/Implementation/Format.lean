import InotifyTools.Implementation.Lookup

set_option autoImplicit false

/-! # Event strings, formats, filters and statistics -/

namespace InotifyTools

variable {σ : Type} [Sys σ]

/-! ## Event masks as strings -/

/-- The names `event_to_str_sep` knows, in the order it appends them. -/
def eventNames : List (Int32 × Bytes) :=
  [(inAccess, ascii "ACCESS"),
   (inModify, ascii "MODIFY"),
   (inAttrib, ascii "ATTRIB"),
   (inCloseWrite, ascii "CLOSE_WRITE"),
   (inCloseNowrite, ascii "CLOSE_NOWRITE"),
   (inOpen, ascii "OPEN"),
   (inMovedFrom, ascii "MOVED_FROM"),
   (inMovedTo, ascii "MOVED_TO"),
   (inCreate, ascii "CREATE"),
   (inDelete, ascii "DELETE"),
   (inDeleteSelf, ascii "DELETE_SELF"),
   (inUnmount, ascii "UNMOUNT"),
   (inQOverflow, ascii "Q_OVERFLOW"),
   (inIgnored, ascii "IGNORED"),
   (inClose, ascii "CLOSE"),
   (inMoveSelf, ascii "MOVE_SELF"),
   (inIsdir, ascii "ISDIR"),
   (inOneshot, ascii "ONESHOT")]

/-- Position of the first NUL of a buffer of `size` bytes. -/
def strlen (m : Mem) (size : Nat) : Nat := ((m.slice 0 size).findIdx? (· = 0)).getD size

def setEvstr (i : Nat) (b : UInt8) : M σ Unit := do
  Prog.guard (i < evstrSize) .outOfRange
  modifyLib fun l => { l with evstr := l.evstr.set i b }

def blitEvstr (off : Nat) (bs : Bytes) : M σ Unit := do
  Prog.guard (off + bs.length ≤ evstrSize) .outOfRange
  modifyLib fun l => { l with evstr := l.evstr.blit off bs }

/-- Append the separator and one event name to the string in `evstr`. -/
def appendEventName (sep : UInt8) (name : Bytes) : M σ Unit := do
  let l := strlen (← getLib).evstr evstrSize
  setEvstr l sep
  setEvstr (l + 1) 0
  let l := strlen (← getLib).evstr evstrSize
  blitEvstr l name
  setEvstr (l + name.length) 0

def appendEventNames (events : Int32) (sep : UInt8) : List (Int32 × Bytes) → M σ Unit
  | [] => return ()
  | (flag, name) :: names => do
      (if flag &&& events ≠ 0 then appendEventName sep name else pure ())
      appendEventNames events sep names

/-- `{:x}`: lower-case hexadecimal. -/
def hexDigits (n : Nat) : Bytes := (Nat.toDigits 16 n).map (·.toUInt8)

/-- Render a mask without any named event in hexadecimal. -/
def hexEvents (events : Int32) (sep : UInt8) : M σ Unit := do
  let digits := hexDigits events.toUInt32.toNat
  let s := ascii "0x" ++ List.replicate (8 - digits.length) 0x30 ++ digits
  setEvstr 0 sep
  blitEvstr 1 s
  setEvstr (1 + s.length) 0

/-- Convert an event mask to a string of event names separated by `sep`. Unknown masks are rendered
    in hexadecimal. -/
def eventToStrSep (events : Int32) (sep : UInt8) : M σ Bytes := do
  setEvstr 0 0
  setEvstr 1 0
  appendEventNames events sep eventNames
  (if (← getLib).evstr 0 = 0 then hexEvents events sep else pure ())
  return (cstring ((← getLib).evstr.slice 1 (evstrSize - 1))).bytes

/-- Convert an event mask to a comma-separated string of event names. -/
def eventToStr (events : Int32) : M σ Bytes := eventToStrSep events 0x2c

/-! ## Formatting events -/

def setPrintfTimefmt (fmt : Bytes) : M σ Unit :=
  modifyLib fun l => { l with timefmt := some (cstring fmt) }

def clearTimefmt : M σ Unit := modifyLib fun l => { l with timefmt := none }

/-- `strncpy(&buf[ind], src, n)`: copy `src` and zero-fill up to `n` bytes, inside the buffer. -/
def strncpy (buf : Mem) (ind : UInt32) (src : Bytes) (n : Nat) : Mem :=
  let start := ind.toNat
  if start ≥ maxStrlen then buf
  else buf.write start (min (start + n) maxStrlen - start) (src.getD · 0)

/-- The output buffer of `snprintf` and its cursor. -/
structure OutCursor where
  buf : Mem
  ind : UInt32

namespace OutCursor

/-- `out.buf[ind] = c; ind += 1`. -/
def put (o : OutCursor) (c : UInt8) : M σ OutCursor := do
  Prog.guard (o.ind.toNat < maxStrlen) .outOfRange
  return { buf := o.buf.set o.ind.toNat c, ind := o.ind + 1 }

/-- `strncpy` at the cursor, which then advances by the full length of `src`. -/
def copy (o : OutCursor) (src : Bytes) (room : Nat) : OutCursor where
  buf := strncpy o.buf o.ind src room
  ind := o.ind + UInt32.ofNat src.length

/-- `snprintf(&buf[ind], room, "%x", cookie)`. -/
def putHex (o : OutCursor) (cookie : UInt32) (room : Nat) : M σ OutCursor := do
  let s := hexDigits cookie.toNat
  let n := min s.length (room - 1)
  let start := o.ind.toNat
  Prog.guard (start + n < maxStrlen) .outOfRange
  return { buf := (o.buf.blit start (s.take n)).set (start + n) 0
           ind := o.ind + UInt32.ofNat s.length }

/-- A byte of an unknown conversion: only written where the buffer goes on. -/
def putIfRoom (o : OutCursor) (c : UInt8) : OutCursor :=
  if o.ind.toNat < maxStrlen then { buf := o.buf.set o.ind.toNat c, ind := o.ind + 1 } else o

end OutCursor

/-- The formatted current time, empty without a time format; `none` if `strftime` yields nothing. -/
def timeString : M σ (Option Bytes) := do
  match (← getLib).timefmt with
  | some tf => call (Sys.strftimeNow tf)
  | none => return some []

/-- The conversion characters that need no look at the following byte. -/
def isConversion (ch1 : UInt8) : Bool := (ascii "%0nwfceT").contains ch1

/-- One conversion `%ch1` with `room` bytes left. `none` if the time format is invalid. -/
def conversion (path : EventPath) (ev : Event) (ch1 : UInt8) (room : Nat) (o : OutCursor) :
    M σ (Option OutCursor) := do
  if ch1 = 0x25 then return some (← o.put 0x25)
  else if ch1 = 0x30 then return some (← o.put 0)
  else if ch1 = 0x6e then return some (← o.put 0x0a)
  else if ch1 = 0x77 then
    if path.dirnamelen ≤ room then
      return some
        { buf := strncpy o.buf o.ind path.filename path.dirnamelen
          ind := o.ind + UInt32.ofNat path.dirnamelen }
    else return some o
  else if ch1 = 0x66 then return some (o.copy path.eventname room)
  else if ch1 = 0x63 then return some (← o.putHex ev.cookie room)
  else if ch1 = 0x65 then return some (o.copy (← eventToStr ev.mask.toInt32) room)
  else
    match ← timeString with
    | some t => return some (o.copy t room)
    | none => return none

/-- How the scan of a format ends: after the last byte or for lack of room, or with the value
    `snprintf` returns at once. -/
inductive ScanEnd
  | done
  | stop (ret : Int32)

/-- The scan of a format, from its remaining bytes. -/
def snprintfScan (path : EventPath) (ev : Event) (size : Int) :
    Bytes → OutCursor → M σ (ScanEnd × OutCursor)
  | [], o => return (.done, o)
  | [c], o => do
      if ¬ (o.ind.toNat : Int) < size - 1 then return (.done, o)
      else if c = 0x25 then
        -- last character is %, invalid
        setError einval
        return (.stop o.ind.toInt32, o)
      else return (.done, ← o.put c)
  | c :: ch1 :: fmt, o => do
      if ¬ (o.ind.toNat : Int) < size - 1 then return (.done, o)
      else if c ≠ 0x25 then
        snprintfScan path ev size (ch1 :: fmt) (← o.put c)
      else
        let room := (size - o.ind.toNat).toNat
        if isConversion ch1 then
          match ← conversion path ev ch1 room o with
          | some o => snprintfScan path ev size fmt o
          | none => do
              setError einval
              return (.stop o.ind.toInt32, o)
        else
          match fmt with
          | [] => return (.done, (o.putIfRoom 0x25).putIfRoom ch1)
          | ch2 :: fmt' =>
              if ch2 = 0x65 then
                snprintfScan path ev size fmt' (o.copy (← eventToStrSep ev.mask.toInt32 ch1) room)
              else
                -- not a special format character, output it as normal
                snprintfScan path ev size (ch2 :: fmt') ((o.putIfRoom 0x25).putIfRoom ch1)

/-- Construct a string from an event using a printf-like format, writing at most `size` characters.
    Returns the number of characters written minus one, or -1 on error. -/
def snprintf (out : NString) (size : Int32) (ev : Event) (fmt : Option Bytes) :
    M σ (Int32 × NString) := do
  let path ← filenameFromEvent ev
  let fmt := fmt.getD []
  if fmt.isEmpty then
    setError einval
    return (-1, out)
  if fmt.length > maxStrlen ∨ size.toInt > maxStrlen then
    setError emsgsize
    return (-1, out)
  match ← snprintfScan path ev size.toInt fmt { buf := out.buf, ind := 0 } with
  | (.done, o) => return ((o.ind - 1).toInt32, { buf := o.buf, len := o.ind })
  | (.stop ret, o) => return (ret, { out with buf := o.buf })

/-- `snprintf` with `size` = `MAX_STRLEN`. -/
def sprintf (out : NString) (ev : Event) (fmt : Option Bytes) : M σ (Int32 × NString) :=
  snprintf out (Int32.ofNat maxStrlen) ev fmt

/-- Format an event and write it to a C stream. -/
def fprintfTo (file : Stream) (ev : Event) (fmt : Option Bytes) : M σ Int32 := do
  let out := (← getLib).printOut.getD NString.new
  modifyLib fun l => { l with printOut := none }
  let (ret, out) ← sprintf out ev fmt
  (if ret ≠ -1 then exec (Sys.fwrite file out.asBytes) else pure ())
  modifyLib fun l => { l with printOut := some out }
  return ret

/-- Format an event and write it to (C) standard output. -/
def printf (ev : Event) (fmt : Option Bytes) : M σ Int32 := fprintfTo .stdout ev fmt

/-! ## Regular expression filtering -/

def doIgnoreEventsByRegex (pattern : Option Bytes) (flags : Int32) (invert : Bool)
    (recursive : Int32) : M σ Bool := do
  match pattern with
  | none => do
      modifyLib fun l => { l with regex := none }
      return true
  | some pattern => do
      modifyLib fun l =>
        { l with regex := none, invertRegexp := invert, recursiveWatch := recursive }
      match ← call (Sys.regcomp (cstring pattern) (flags ||| regNosub)) with
      | some re => do
          modifyLib fun l => { l with regex := some re }
          return true
      | none => do
          setError einval
          return false

/-- Ignore events on files whose path matches the POSIX regular expression `pattern`. With
    `recursive`, directory creation/move-in events are never filtered. -/
def ignoreEventsByRegex (pattern : Option Bytes) (flags recursive : Int32) : M σ Bool :=
  doIgnoreEventsByRegex pattern flags false recursive

/-- Ignore events on files whose path does NOT match `pattern`. -/
def ignoreEventsByInvertedRegex (pattern : Option Bytes) (flags recursive : Int32) : M σ Bool :=
  doIgnoreEventsByRegex pattern flags true recursive

/-! ## Statistics -/

def recordStats (wd : Int32) (mask : UInt32) : M σ Unit := do
  match ← watchFromWd wd with
  | none => return ()
  | some id => do
      modifyLib fun l =>
        { l with
          store := match l.store.watches[id]? with
            | some w => l.store.setStats id w (w.stats.record mask)
            | none => l.store
          totals := l.totals.record mask }

/-- Reset the counters of the watches `ids` that are there. -/
def Store.resetStats (s : Store) (ids : List Nat) : Store :=
  ids.foldl (fun s id => match s.watches[id]? with
    | some w => s.setStats id w {}
    | none => s) s

/-- Initialise or reset statistics collection. -/
def initializeStats : M σ Unit := do
  assertInit
  modifyLib fun l =>
    { l with
      store := if l.collectStats then l.store.resetStats l.store.byWd.values else l.store
      totals := {}
      collectStats := true }

/-- Number of occurrences of `event` (0 for total) on watch `wd`, or -1. -/
def getStatByWd (wd event : Int32) : M σ Int32 := do
  if !(← getLib).collectStats then
    return -1
  match ← watchFromWd wd with
  | none => return -1
  | some id => do
      match (← watch id).stats.get event with
      | some v => return v.toInt32
      | none => return -1

/-- Number of occurrences of `event` (0 for total) over all watches, or -1. -/
def getStatTotal (event : Int32) : M σ Int32 := do
  let l ← getLib
  if !l.collectStats then
    return -1
  match l.totals.get event with
  | some v => return v.toInt32
  | none => return -1

/-- Number of occurrences of `event` on the watch for `filename`, or -1. -/
def getStatByFilename (filename : Bytes) (event : Int32) : M σ Int32 := do
  getStatByWd (← wdFromFilename filename) event

/-- The watches `ids` with their ids. -/
def watchesOf : List Nat → M σ (List (Nat × Watch))
  | [] => return []
  | id :: ids => do
      let w ← watch id
      return (id, w) :: (← watchesOf ids)

/-- Whether `a` may stand before `b` in the order by the count of `event`, ties by descriptor. -/
def sortsBefore (event : Int32) (asc : Bool) (a b : Nat × Watch) : Bool :=
  let i1 := (a.2.stats.get event).getD 0
  let i2 := (b.2.stats.get event).getD 0
  if i1 = i2 then a.2.wd ≤ b.2.wd
  else if asc then i1 ≤ i2
  else i2 ≤ i1

/-- All watches (by watch descriptor) with their statistics, sorted by an event's count:
    `sort_event` > 0 ascending by that event, 0 ascending by total, -1 descending by total, other
    negative values descending by `-sort_event`. -/
def watchesSortedByEvent (sortEvent : Int32) : M σ (List (Nat × WatchStats)) := do
  let (event, asc) :=
    if sortEvent = -1 then ((0 : Int32), false)
    else if sortEvent < 0 then (-sortEvent, false)
    else (sortEvent, true)
  let ws ← watchesOf (← getLib).store.byWd.values
  return (ws.mergeSort (sortsBefore event asc)).map fun (id, w) => (id, w.stats)

end InotifyTools
