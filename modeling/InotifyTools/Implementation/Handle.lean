import InotifyTools.Base.Prog
import InotifyTools.Implementation.Store

set_option autoImplicit false

/-! # The handle

The state of an `Inotifytools` handle, the programs that run over it and an operating system, and
the operations that only keep the books: initialisation, the watch store, and the lookups. -/

namespace InotifyTools

/-- A string that may contain any byte including NUL (`struct nstring`). -/
structure NString where
  buf : Mem
  len : UInt32

namespace NString

def new : NString := ⟨Mem.zero, 0⟩

/-- The valid contents (`len` bytes, clamped to the buffer size). -/
def asBytes (s : NString) : Bytes := s.buf.slice 0 (min s.len.toNat maxStrlen)

end NString

/-- An inotify event, also used for fanotify events converted to inotify form. `name` holds the
    bytes up to the first NUL, `len` is the raw `inotify_event.len` field. -/
structure Event where
  wd : Int32 := 0
  mask : UInt32 := 0
  cookie : UInt32 := 0
  len : UInt32 := 0
  name : Bytes := []
deriving DecidableEq

/-- Where the path of an event comes from. -/
structure EventPath where
  /-- The full filename recorded for the event's watch (for fanotify this may already include the
      event's file name). -/
  filename : Bytes
  /-- Length of the directory part of `filename`. -/
  dirnamelen : Nat
  /-- Name of the file within the directory (may be empty). -/
  eventname : Bytes
deriving DecidableEq

/-- The watched directory (or file) part. -/
def EventPath.dirname (p : EventPath) : Bytes := p.filename.take p.dirnamelen

/-- The event buffer and its cursors. `evbuf` holds raw kernel data in its first half and converted
    fanotify events in its second. -/
structure EventStream where
  evbuf : Mem
  firstByte : Int32
  bytes : Int
  thisBytes : Int
  retOff : Nat

structure Inotifytools where
  fd : Int32
  recursiveWatch : Int32
  collectStats : Bool
  error : Int32
  initialized : Bool
  verbosity : Int32
  fanotifyMode : Bool
  fanotifyMarkType : UInt32
  selfPid : Int32
  store : Store
  timefmt : Option CString
  regex : Option Regex
  invertRegexp : Bool
  totals : WatchStats
  stream : EventStream
  evstr : Mem
  fidname : Mem
  printOut : Option NString

/-- An uninitialised handle. -/
def Inotifytools.new : Inotifytools where
  fd := -1
  recursiveWatch := 0
  collectStats := false
  error := 0
  initialized := false
  verbosity := 0
  fanotifyMode := false
  fanotifyMarkType := 0
  selfPid := 0
  store := Store.empty
  timefmt := none
  regex := none
  invertRegexp := false
  totals := {}
  stream := { evbuf := Mem.zero, firstByte := 0, bytes := 0, thisBytes := 0, retOff := 0 }
  evstr := Mem.zero
  fidname := Mem.zero
  printOut := some NString.new

/-! ## Programs over a handle -/

/-- Why a call does not return. -/
inductive Fault
  /-- `HashMap` index or `unwrap` on an absent watch. -/
  | missingWatch
  /-- Index or slice out of range. -/
  | outOfRange
  /-- The fuel of a loop ran out: the call is still running. -/
  | outOfFuel
deriving DecidableEq

/-- A handle together with the operating system it runs on. -/
structure World (σ : Type) where
  lib : Inotifytools
  os : σ

/-- Programs of the library. -/
abbrev M (σ : Type) := Prog Fault (World σ)

variable {σ : Type}

/-- The handle. -/
def getLib : M σ Inotifytools := do return (← Prog.read).lib

/-- Change the handle. -/
def modifyLib (f : Inotifytools → Inotifytools) : M σ Unit :=
  Prog.update fun w => { w with lib := f w.lib }

def setError (e : Int32) : M σ Unit := modifyLib fun l => { l with error := e }

def setStore (s : Store) : M σ Unit := modifyLib fun l => { l with store := s }

/-- Perform a system call. -/
def call {α : Type} (f : σ → α × σ) : M σ α :=
  Prog.lift fun w => ((f w.os).1, { w with os := (f w.os).2 })

/-- Perform a system call without a result. -/
def exec (f : σ → σ) : M σ Unit := Prog.update fun w => { w with os := f w.os }

variable [Sys σ]

/-- `errno` as the last failed call left it. -/
def errno : M σ Int32 := do return Sys.errno (← Prog.read).os

def strerror (e : Int32) : M σ Bytes := do return Sys.strerror σ e

/-- Print to the C `stderr`. -/
def ceprint (ps : List Piece) : M σ Unit := exec (Sys.fwrite .stderr (cat ps))

/-- Print to the C `stdout`. -/
def cprint (ps : List Piece) : M σ Unit := exec (Sys.fwrite .stdout (cat ps))

/-- Print a diagnostic in the format of the C library's `niceassert()` unless `cond` holds. -/
def niceassert (cond : Bool) (line : Nat) (condstr msg : String) : M σ Unit :=
  if cond then return ()
  else ceprint [.text "inotifytools.rs:", .int line, .text " assertion ( ", .text condstr,
    .text " ) failed", .text (if msg = "" then "." else ": " ++ msg), .text "\n"]

def assertInit : M σ Unit := do
  niceassert (← getLib).initialized 396 "initialized" "inotifytools_initialize not called yet"

/-! ## Watches -/

/-- `self.watches[&id]`. -/
def watch (id : Nat) : M σ Watch := do
  match (← getLib).store.watches[id]? with
  | some w => return w
  | none => Prog.fault .missingWatch

/-- Closing the directory handle of a watch that goes away. -/
def dropWatch (w : Watch) : M σ Unit :=
  if w.dirf ≠ 0 then exec (Sys.close w.dirf) else return ()

def dropWatches : List Watch → M σ Unit
  | [] => return ()
  | w :: ws => do
      dropWatch w
      dropWatches ws

/-! ## Initialisation -/

/-- Open the descriptor of a new inotify instance or fanotify group. -/
def openDescriptor (fanotify watchFilesystem : Bool) : M σ Int32 := do
  if fanotify then
    let pid ← call Sys.getpid
    modifyLib fun l =>
      { l with
        selfPid := pid
        fanotifyMode := true
        fanotifyMarkType := if watchFilesystem then fanMarkFilesystem else fanMarkInode }
    call (Sys.fanotifyInit (fanReportFid ||| fanReportDfidName))
  else
    modifyLib fun l => { l with fanotifyMode := false }
    call Sys.inotifyInit

/-- Initialise inotify, or with `fanotify`, a fanotify group. -/
def init (fanotify watchFilesystem : Bool) (verbose : Int32) : M σ Bool := do
  if (← getLib).initialized then
    return true
  modifyLib fun l => { l with error := 0, verbosity := verbose }
  let fd ← openDescriptor fanotify watchFilesystem
  modifyLib fun l => { l with fd }
  if fd < 0 then
    setError (← errno)
    return false
  modifyLib fun l =>
    { l with
      collectStats := false
      initialized := true
      store := l.store.clearIndexes
      timefmt := none }
  return true

/-- Close inotify and free all watches. -/
def cleanup : M σ Unit := do
  let l ← getLib
  if !l.initialized then
    return ()
  modifyLib fun l => { l with initialized := false }
  exec (Sys.close l.fd)
  modifyLib fun l =>
    { l with
      collectStats := false
      error := 0
      timefmt := none
      regex := none
      store := l.store.clear }
  dropWatches l.store.watches.values

/-- Drop the handle: clean up, then let go of the watches that are left. -/
def dropInotifytools : M σ Unit := do
  cleanup
  let l ← getLib
  setStore l.store.clear
  dropWatches l.store.watches.values

/-! ## Watch bookkeeping -/

/-- The descriptor a new watch gets. fanotify has no watch descriptors (`wd = 0`); hand out unique
    positive ones. -/
def assignWd (fuel : Nat) (wd : Int32) : M σ Int32 := do
  if wd ≠ 0 then
    return wd
  let s := (← getLib).store
  match Store.searchFanotifyWd s.byWd fuel s.nextFanotifyWd with
  | some wd => do
      setStore { s with nextFanotifyWd := wd }
      return wd
  | none => Prog.fault .outOfFuel

/-- Enter a new watch into the store. One that no index takes is dropped. -/
def enterWatch (w : Watch) : M σ Unit := do
  let s := (← getLib).store
  setStore (s.insert w)
  (if s.accepts w then pure () else dropWatch w)

/-- Register a new watch: an existing entry with the same key in any index is kept. Returns the
    watch descriptor assigned. -/
def createWatch (fuel : Nat) (wd : Int32) (fid : Option Bytes) (filename : Bytes) (dirf : Int32) :
    M σ (Option Int32) := do
  if wd < 0 then
    return none
  let wd ← assignWd fuel wd
  enterWatch { fid, filename := cstring filename, wd, dirf, stats := {} }
  return some wd

/-- Remove a watch from all indexes (by key) and destroy it. -/
def destroyWatch (id : Nat) : M σ Unit := do
  let w ← watch id
  setStore ((← getLib).store.remove id w)
  dropWatch w

def removeInotifyWatch (id : Nat) : M σ Bool := do
  setError 0
  let w ← watch id
  -- There is no kernel object representing the watch with fanotify.
  if w.fid.isSome then
    return false
  let status ← call (Sys.inotifyRmWatch (← getLib).fd w.wd)
  if status < 0 then
    ceprint [.text "Failed to remove watch on ", .bytes w.filename.bytes, .text ": ",
      .bytes (← strerror status), .text "\n"]
    setError status
    return false
  return true

def renameWatch (id : Nat) (newname : Bytes) : M σ Unit := do
  let w ← watch id
  setStore ((← getLib).store.rename id w (cstring newname))

end InotifyTools
