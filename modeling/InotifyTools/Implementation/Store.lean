import InotifyTools.Implementation.Fid
import InotifyTools.Implementation.Sys

set_option autoImplicit false

/-! # The watch store

The watches and the three indexes over them, with the changes the library makes to all four at once.
Insertion into an index keeps an entry that is already there and removal is by key, like the
red-black trees of the original. -/

namespace InotifyTools

open Std (TreeMap)

/-! ## Event counters -/

/-- Per-watch (or total) event counters. -/
structure WatchStats where
  access : UInt32 := 0
  modify : UInt32 := 0
  attrib : UInt32 := 0
  closeWrite : UInt32 := 0
  closeNowrite : UInt32 := 0
  open' : UInt32 := 0
  movedFrom : UInt32 := 0
  movedTo : UInt32 := 0
  create : UInt32 := 0
  delete : UInt32 := 0
  deleteSelf : UInt32 := 0
  unmount : UInt32 := 0
  moveSelf : UInt32 := 0
  total : UInt32 := 0
deriving DecidableEq

namespace WatchStats

/-- The counter for a single event, or `total` for 0. -/
def get (s : WatchStats) (event : Int32) : Option UInt32 :=
  if event = inAccess then some s.access
  else if event = inModify then some s.modify
  else if event = inAttrib then some s.attrib
  else if event = inCloseWrite then some s.closeWrite
  else if event = inCloseNowrite then some s.closeNowrite
  else if event = inOpen then some s.open'
  else if event = inMovedFrom then some s.movedFrom
  else if event = inMovedTo then some s.movedTo
  else if event = inCreate then some s.create
  else if event = inDelete then some s.delete
  else if event = inDeleteSelf then some s.deleteSelf
  else if event = inUnmount then some s.unmount
  else if event = inMoveSelf then some s.moveSelf
  else if event = 0 then some s.total
  else none

def record (s : WatchStats) (mask : UInt32) : WatchStats :=
  let m := mask.toInt32
  let inc (c : UInt32) (flag : Int32) : UInt32 := if m &&& flag ≠ 0 then c + 1 else c
  { access := inc s.access inAccess
    modify := inc s.modify inModify
    attrib := inc s.attrib inAttrib
    closeWrite := inc s.closeWrite inCloseWrite
    closeNowrite := inc s.closeNowrite inCloseNowrite
    open' := inc s.open' inOpen
    movedFrom := inc s.movedFrom inMovedFrom
    movedTo := inc s.movedTo inMovedTo
    create := inc s.create inCreate
    delete := inc s.delete inDelete
    deleteSelf := inc s.deleteSelf inDeleteSelf
    unmount := inc s.unmount inUnmount
    moveSelf := inc s.moveSelf inMoveSelf
    total := s.total + 1 }

end WatchStats

/-! ## Watches and indexes -/

structure Watch where
  fid : Option Bytes
  filename : CString
  wd : Int32
  dirf : Int32
  stats : WatchStats
deriving DecidableEq

structure Store where
  watches : TreeMap Nat Watch
  nextId : Nat
  nextFanotifyWd : Int32
  byWd : TreeMap Int32 Nat
  byFid : TreeMap FidKey Nat FidKey.cmp
  byFilename : TreeMap Bytes Nat

namespace Store

/-- The store of an uninitialised handle. -/
def empty : Store where
  watches := ∅
  nextId := 1
  nextFanotifyWd := 0
  byWd := ∅
  byFid := ∅
  byFilename := ∅

/-- Forget all index entries, as `init` does. -/
def clearIndexes (s : Store) : Store :=
  { s with byWd := ∅, byFid := ∅, byFilename := ∅ }

/-- Forget all index entries and all watches, as `cleanup` does. -/
def clear (s : Store) : Store :=
  { s.clearIndexes with watches := ∅ }

/-! ## Creating, destroying and renaming -/

/-- The next descriptor handed out for a fanotify watch: the counter advances, wrapping back to 1,
    until it is not a key of `by_wd`. `none` while the search is still running. -/
def searchFanotifyWd (byWd : TreeMap Int32 Nat) : Nat → Int32 → Option Int32
  | 0, _ => none
  | fuel + 1, wd =>
      let wd := wd + 1
      let wd := if wd ≤ 0 then 1 else wd
      if byWd.contains wd then searchFanotifyWd byWd fuel wd else some wd

/-- The `by_fid` index after registering `id` under `fid`. -/
def insertFid (byFid : TreeMap FidKey Nat FidKey.cmp) (fid : Option Bytes) (id : Nat) :
    TreeMap FidKey Nat FidKey.cmp :=
  match fid with
  | some f => byFid.insertIfNew (FidKey.new f) id
  | none => byFid

/-- Whether `w` can be entered into at least one index. -/
def accepts (s : Store) (w : Watch) : Bool :=
  !s.byWd.contains w.wd ||
    (w.fid.any fun f => !s.byFid.contains (FidKey.new f)) ||
    !s.byFilename.contains w.filename.bytes

/-- Give `w` the next id and enter it into every index that has no entry under its key. The watch
    itself is kept only when some index took it. -/
def insert (s : Store) (w : Watch) : Store where
  watches := if s.accepts w then s.watches.insert s.nextId w else s.watches
  nextId := s.nextId + 1
  nextFanotifyWd := s.nextFanotifyWd
  byWd := s.byWd.insertIfNew w.wd s.nextId
  byFid := insertFid s.byFid w.fid s.nextId
  byFilename := s.byFilename.insertIfNew w.filename.bytes s.nextId

/-- Remove the entries under the keys of `w`, whichever watch they belong to, and the watch `id`. -/
def remove (s : Store) (id : Nat) (w : Watch) : Store :=
  { s with
    watches := s.watches.erase id
    byWd := s.byWd.erase w.wd
    byFid := match w.fid with
      | some f => s.byFid.erase (FidKey.new f)
      | none => s.byFid
    byFilename := s.byFilename.erase w.filename.bytes }

/-- Rename the watch `id` (currently `w`): its own entry under the old name goes, and the new name is
    entered unless taken. -/
def rename (s : Store) (id : Nat) (w : Watch) (newname : CString) : Store :=
  let byFilename :=
    if s.byFilename[w.filename.bytes]? = some id then s.byFilename.erase w.filename.bytes
    else s.byFilename
  { s with
    byFilename := byFilename.insertIfNew newname.bytes id
    watches := s.watches.insert id { w with filename := newname } }

/-- Overwrite the counters of the watch `id`. -/
def setStats (s : Store) (id : Nat) (w : Watch) (stats : WatchStats) : Store :=
  { s with watches := s.watches.insert id { w with stats } }

end Store

end InotifyTools
