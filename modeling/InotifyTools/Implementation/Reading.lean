import InotifyTools.Implementation.Format
import InotifyTools.Implementation.Watching

set_option autoImplicit false

/-! # Reading events

The loop behind `next_events`: take a buffered event or read from the kernel, decode at the cursor,
filter, count. One turn of the loop is `eventRound`; `fuel` bounds the loops of a call. -/

namespace InotifyTools

variable {σ : Type} [Sys σ]

/-! ## The event buffer -/

/-- `x as usize` for an `i32`. -/
def usizeOfI32 (x : Int32) : Nat := (x.toInt % 2 ^ 64).toNat

/-- `x as usize` for an `isize`. -/
def usizeOfIsize (x : Int) : Nat := (x % 2 ^ 64).toNat

namespace EventStream

/-- A byte of the event buffer, 0 past its end. -/
def get (s : EventStream) (off : Nat) : UInt8 := s.evbuf.get evbufSize off

def rdU32 (s : EventStream) (off : Nat) : UInt32 :=
  UInt32.ofNat (leNat [s.get off, s.get (off + 1), s.get (off + 2), s.get (off + 3)])

/-- The event most recently returned by `next_events`. -/
def currentEvent (s : EventStream) : Event :=
  let o := s.retOff
  let len := s.rdU32 (o + 12)
  let start := min (o + eventSize) evbufSize
  let stop := min (start + len.toNat) evbufSize
  { wd := (s.rdU32 o).toInt32
    mask := s.rdU32 (o + 4)
    cookie := s.rdU32 (o + 8)
    len
    name := if len > 0 then (s.evbuf.slice start (stop - start)).takeWhile (· ≠ 0) else [] }

end EventStream

def getStream : M σ EventStream := do return (← getLib).stream

def modifyStream (f : EventStream → EventStream) : M σ Unit :=
  modifyLib fun l => { l with stream := f l.stream }

/-- `self.buf_mut()[off..off + bs.len()] = bs`. -/
def blitEvbuf (off : Nat) (bs : Bytes) : M σ Unit := do
  Prog.guard (off + bs.length ≤ evbufSize) .outOfRange
  modifyStream fun s => { s with evbuf := s.evbuf.blit off bs }

def wrU32 (off : Nat) (v : UInt32) : M σ Unit := blitEvbuf off (leBytes 4 v.toNat)

/-! ## Filling the buffer -/

/-- Whether an event is still buffered at `first_byte`. If only part of one is there, it is moved to
    the front so that the remainder can be read behind it. -/
def bufferedEvent : M σ Bool := do
  let s ← getStream
  if s.firstByte ≠ 0 ∧ s.firstByte ≤ Int32.ofInt (s.bytes - eventSize) then
    let first := usizeOfI32 s.firstByte
    modifyStream fun s => { s with retOff := first }
    let len := (s.rdU32 (first + 12)).toNat
    if !(← getLib).fanotifyMode ∧ first + eventSize + len > usizeOfIsize s.bytes then
      -- An incomplete event (the kernel never does this).
      let kept := usizeOfIsize s.bytes - first
      Prog.guard (first + kept ≤ evbufSize) .outOfRange
      modifyStream fun s =>
        { s with evbuf := s.evbuf.blit 0 (s.evbuf.slice first kept), bytes := kept, firstByte := 0 }
      return false
    else
      modifyStream fun s => { s with thisBytes := 0 }
      return true
  else if s.firstByte = 0 then
    modifyStream fun s => { s with bytes := 0 }
    return false
  else
    return false

/-- Wait until enough bytes for `numEvents` events can be read. Returns the result of the last
    `ioctl`. -/
def waitForBytes (numEvents : Int32) : Nat → M σ Int32
  | 0 => Prog.fault .outOfFuel
  | fuel + 1 => do
      let (rc, bytesToRead) ← call (Sys.fionread (← getLib).fd)
      if rc ≠ 0 ∨ bytesToRead.toNat ≥ eventSize * numEvents.toInt.toNat then return rc
      else waitForBytes numEvents fuel

/-- Poll and read behind the bytes already there. False on timeout, error and end of file. -/
def readEvents (fuel : Nat) (timeout : Int) (numEvents : Int32) : M σ Bool := do
  let rc ← call (Sys.ppoll (← getLib).fd (if timeout < 0 then none else some timeout))
  if rc < 0 then
    setError (← errno)
    return false
  if rc = 0 then
    -- timeout
    return false
  let rc ← waitForBytes numEvents fuel
  if rc = -1 then
    setError (← errno)
    return false
  let l ← getLib
  let cap := eventSize * maxEvents
  let off := min l.stream.bytes.toNat cap
  match ← call (Sys.read l.fd (cap - off)) with
  | none => do
      setError (← errno)
      return false
  | some data => do
      let data := data.take (cap - off)
      if data.isEmpty then
        ceprint [.text
          "Inotify reported end-of-file.  Possibly too many events occurred at once.\n"]
        return false
      modifyStream fun s =>
        { s with evbuf := s.evbuf.blit off data, thisBytes := data.length }
      return true

/-! ## Converting fanotify events -/

/-- What a fanotify event says about the file: where its fid and the name after it lie in the event
    buffer, and the record length to write back when the name is not to count. -/
structure FidInfo where
  fidOff : Nat
  fidLen : Int32
  nameOff : Option Nat
  nameLen : Int32
  newLen : Option UInt16

/-- Locate the fid of the event whose metadata is at `metaOff`, `none` without one. -/
def locateFid (s : EventStream) (metaOff : Nat) : Option FidInfo :=
  let info := metaOff + metaLen
  let hdr := (List.range fidHdr).map fun i => s.get (info + i)
  let t := Fid.infoType hdr
  if (s.rdU32 metaOff).toNat > metaLen ∧
      (t = fanEventInfoTypeFid ∨ t = fanEventInfoTypeDfid ∨ t = fanEventInfoTypeDfidName) then
    let hb := (Fid.handleBytes hdr).toNat
    let fidLen := Int32.ofNat (fidHdr + hb)
    let hdrLen := Int32.ofNat (Fid.hdrLen hdr).toNat
    let nameLen := if t = fanEventInfoTypeDfidName then hdrLen - fidLen else 0
    let nameOff := if nameLen > 0 then some (info + fidHdr + hb) else none
    -- For some events on directories, the fid is that of the dir and name is ".".
    let n0 := (nameOff.map s.get).getD 0
    let n1 := (nameOff.map fun o => s.get (o + 1)).getD 0
    if nameLen ≠ 0 ∧ (n0 = 0 ∨ n0 = 0x2e ∧ n1 = 0) then
      some { fidOff := info, fidLen, nameOff, nameLen := 0
             newLen := some (hdrLen - nameLen).toUInt32.toUInt16 }
    else some { fidOff := info, fidLen, nameOff, nameLen, newLen := none }
  else none

/-- The watch descriptor of a fid, creating a watch when the fid is new and its path can be
    resolved, and the path if it was. -/
def wdOfFid (fuel : Nat) (fid : Bytes) : M σ (Option Int32 × Option CString) := do
  match ← watchFromFid fid with
  | some id => return (some (← watch id).wd, none)
  | none => do
      match ← filenameFromFid fid with
      | none => return (none, none)
      | some f => return (← createWatch fuel 0 (some fid) f.bytes 0, some f)

/-- The fanotify event printed with more than one `--verbose`. -/
def printFanotifyEvent (s : EventStream) (eventLen : UInt32) (info : FidInfo) (name : Bytes) :
    M σ Unit :=
  cprint [.text "fanotify_event: bytes=", .int s.bytes, .text ", first_byte=",
    .int s.firstByte.toInt, .text ", this_bytes=", .int s.thisBytes, .text ", event_len=",
    .int eventLen.toNat, .text ", fid_len=", .int info.fidLen.toInt, .text ", name_len=",
    .int info.nameLen.toInt, .text ", name=", .bytes name, .text "\n"]

/-- The newly seen fid printed with `--verbose`. -/
def printNewFid (s : EventStream) (fidOff : Nat) (name filename : Bytes) : M σ Unit :=
  let hdr := (List.range fidHdr).map fun i => s.get (fidOff + i)
  let id := leNat ((List.range 8).map fun i => s.get (fidOff + fidHdr + i))
  cprint [.text "[fid=", .hex (Fid.fsidVal hdr 0).toNat, .text ".", .hex (Fid.fsidVal hdr 1).toNat,
    .text ".", .hex id, .text ";name='", .bytes name, .text "'] ", .bytes filename, .text "\n"]

/-- Write the converted event with descriptor `wd` to the second half of the event buffer. -/
def writeEvent (metaOff : Nat) (wd : Option Int32) (info : FidInfo) : M σ Unit := do
  let ret := maxEvents * eventSize
  Prog.guard (metaOff + 16 ≤ evbufSize) .outOfRange
  let mask := (← getStream).rdU32 (metaOff + 8)
  wrU32 ret (wd.getD 0).toUInt32
  wrU32 (ret + 4) mask
  wrU32 (ret + 12) info.nameLen.toUInt32
  match info.nameOff with
  | some src =>
      if info.nameLen > 0 then
        let n := min info.nameLen.toInt.toNat (maxEvents * eventSize - eventSize)
        modifyStream fun s =>
          { s with
            evbuf := s.evbuf.write (ret + eventSize) n fun i =>
              if src + i < maxEvents * eventSize then s.evbuf (src + i) else 0 }
  | none => return ()

/-- Convert the fanotify event at `ret_off` into an inotify event in the second half of the event
    buffer. Returns the pid of the process that caused it, or `none` on failure. -/
def convertFanotifyEvent (fuel : Nat) : M σ (Option Int32) := do
  let metaOff := (← getStream).retOff
  let eventLen := (← getStream).rdU32 metaOff
  modifyStream fun s => { s with firstByte := s.firstByte + eventLen.toInt32 }
  match locateFid (← getStream) metaOff with
  | none => do
      ceprint [.text "No fid in fanotify event.\n"]
      return none
  | some info => do
      (match info.newLen with
        | some newLen => blitEvbuf (info.fidOff + 2) (leBytes 2 newLen.toNat)
        | none => pure ())
      let s ← getStream
      let name := match info.nameOff with
        | some o => (s.evbuf.slice o (evbufSize - o)).takeWhile (· ≠ 0)
        | none => []
      (if (← getLib).verbosity > 1 then printFanotifyEvent s eventLen info name else pure ())
      modifyStream fun s => { s with retOff := maxEvents * eventSize }
      let hl := leNat [s.get (info.fidOff + 2), s.get (info.fidOff + 3)]
      let stop := min (info.fidOff + hl) (maxEvents * eventSize)
      Prog.guard (info.fidOff ≤ stop) .outOfRange
      let fid := s.evbuf.slice info.fidOff (stop - info.fidOff)
      let known := (← watchFromFid fid).isSome
      let (wd, filename) ← wdOfFid fuel fid
      (if !known ∧ (← getLib).verbosity ≠ 0 then
        printNewFid s info.fidOff name ((filename.map CString.bytes).getD [])
      else pure ())
      writeEvent metaOff wd info
      return some ((← getStream).rdU32 (metaOff + 20)).toInt32

/-! ## One turn of the loop -/

/-- Decode the event at `first_byte` and move the cursor behind it. Returns the pid of the process
    that caused it (0 with inotify), or `none` on failure. -/
def decodeEvent (fuel : Nat) : M σ (Option Int32) := do
  modifyStream fun s => { s with retOff := usizeOfI32 s.firstByte }
  if (← getLib).fanotifyMode then
    convertFanotifyEvent fuel
  else
    modifyStream fun s =>
      { s with firstByte := s.firstByte + (Int32.ofNat eventSize + (s.rdU32 (s.retOff + 12)).toInt32) }
    return some 0

/-- Account for the bytes read, and start over at the front when the buffer is drained. -/
def advance : M σ Unit := do
  modifyStream fun s => { s with bytes := s.bytes + s.thisBytes }
  let s ← getStream
  niceassert (s.firstByte.toInt ≤ s.bytes) 1198 "first_byte <= bytes"
    "ridiculously long filename, things will almost certainly screw up."
  modifyStream fun s =>
    { s with firstByte := if s.firstByte.toInt = s.bytes then 0 else s.firstByte }

/-- Directory creations and move-ins are exempt from filtering in recursive mode. -/
def filterExempt (l : Inotifytools) (mask : UInt32) : Bool :=
  l.recursiveWatch ≠ 0 ∧ mask.toInt32 &&& inIsdir ≠ 0 ∧
    mask.toInt32 &&& (inCreate ||| inMovedTo) ≠ 0

/-- Whether the installed filter drops the current event. -/
def filterEvent : M σ Bool := do
  let l ← getLib
  match l.regex with
  | none => return false
  | some re => do
      let ev := l.stream.currentEvent
      if filterExempt l ev.mask then
        return false
      let (_, matchName) ← snprintf NString.new (Int32.ofNat maxStrlen) ev (some (ascii "%w%f"))
      let matched := re (cstring matchName.asBytes)
      return matched ≠ l.invertRegexp

/-- How one turn of the loop ends. -/
inductive Round
  /-- `next_events` returns without an event. -/
  | fail
  /-- The event is dropped and the loop goes on. -/
  | skip
  /-- The event is returned. -/
  | event
deriving DecidableEq

/-- What becomes of the event just decoded, caused by `eventPid`. -/
def deliver (eventPid : Int32) : M σ Round := do
  let l ← getLib
  -- Skip events from self due to open_by_handle_at()
  if l.selfPid ≠ 0 ∧ l.selfPid = eventPid then
    return .skip
  if ← filterEvent then
    return .skip
  let l ← getLib
  (if l.collectStats then recordStats l.stream.currentEvent.wd l.stream.currentEvent.mask
  else pure ())
  return .event

/-- One turn of the loop of `next_events`. -/
def eventRound (fuel : Nat) (timeout : Int) (numEvents : Int32) : M σ Round := do
  setError 0
  let buffered ← bufferedEvent
  let ready ← (if buffered then pure true else readEvents fuel timeout numEvents)
  if !ready then
    return .fail
  match ← decodeEvent fuel with
  | none => return .fail
  | some eventPid => do
      advance
      deliver eventPid

def nextEventsLoop (timeout : Int) (numEvents : Int32) : Nat → M σ Bool
  | 0 => Prog.fault .outOfFuel
  | fuel + 1 => do
      match ← eventRound fuel timeout numEvents with
      | .fail => return false
      | .event => return true
      | .skip => nextEventsLoop timeout numEvents fuel

/-- Advance to the next event; on success it is at `ret_off`. -/
def nextEventsRaw (fuel : Nat) (timeout : Int) (numEvents : Int32) : M σ Bool := do
  assertInit
  niceassert (numEvents ≤ Int32.ofNat maxEvents) 1096 "num_events <= MAX_EVENTS"
    "too many events requested"
  if numEvents < 1 then
    return false
  nextEventsLoop timeout numEvents fuel

/-- Get the next event, waiting until roughly `numEvents` events are available. `timeout` in
    seconds; negative blocks. -/
def nextEvents (fuel : Nat) (timeout : Int) (numEvents : Int32) : M σ (Option Event) := do
  if ← nextEventsRaw fuel timeout numEvents then
    return some (← getStream).currentEvent
  else
    return none

/-- Get the next event, waiting up to `timeout` seconds (0 or negative: block). -/
def nextEvent (fuel : Nat) (timeout : Int) : M σ (Option Event) :=
  nextEvents fuel (if timeout = 0 then -1 else timeout) 1

end InotifyTools
