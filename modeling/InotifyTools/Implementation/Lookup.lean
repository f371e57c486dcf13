import InotifyTools.Implementation.Handle

set_option autoImplicit false

/-! # Lookups and renames

From watch descriptors, fids and events to names and back, and the operations that rename or remove
the watches found. -/

namespace InotifyTools

variable {σ : Type} [Sys σ]

/-! ## Resolving fanotify fids -/

/-- The watch indexed under a fid. -/
def watchFromFid (f : Bytes) : M σ (Option Nat) := do
  return (← getLib).store.byFid[FidKey.new f]?

def watchFromWd (wd : Int32) : M σ (Option Nat) := do
  return (← getLib).store.byWd[wd]?

def watchFromFilename (filename : Bytes) : M σ (Option Nat) := do
  return (← getLib).store.byFilename[filename]?

/-- `self.fidname[i] = b`. -/
def setFidname (i : Nat) (b : UInt8) : M σ Unit := do
  Prog.guard (i < fidnameSize) .outOfRange
  modifyLib fun l => { l with fidname := l.fidname.set i b }

/-- `self.fidname[off..off + bs.len()] = bs`. -/
def blitFidname (off : Nat) (bs : Bytes) : M σ Unit := do
  Prog.guard (off + bs.length ≤ fidnameSize) .outOfRange
  modifyLib fun l => { l with fidname := l.fidname.blit off bs }

/-- The C string in the internal filename buffer. -/
def fidnameString (l : Inotifytools) : CString := cstring (l.fidname.slice 0 fidnameSize)

/-- Descriptor of the mount a fid lies on, `AT_FDCWD` when unknown. -/
def mountFd (f : Bytes) : M σ Int32 := do
  match ← watchFromFid (Fid.fsidKey f) with
  | some id => return (← watch id).dirf
  | none => return atFdcwd

/-- Length of the name that follows the handle of a fid (0 unless it is a `DFID_NAME` one). -/
def fidNameLen (f : Bytes) : Int32 :=
  let hb := (Fid.handleBytes f).toNat
  if Fid.infoType f = fanEventInfoTypeDfidName then
    let nameLen := Int32.ofNat (Fid.hdrLen f).toNat - Int32.ofNat (fidHdr + hb)
    if nameLen ≠ 0 ∧ Fid.get f (fidHdr + hb) = 0 then 0 else nameLen
  else 0

/-- The fid of the directory a `DFID_NAME` fid with a name of `nameLen` bytes lies in. -/
def dirFid (f : Bytes) (nameLen : Int32) : Bytes :=
  let key := f ++ List.replicate (fidHdr - f.length) 0
  let key := Fid.setInfoType key fanEventInfoTypeDfid
  Fid.setHdrLen key (Int32.ofNat (Fid.hdrLen f).toNat - nameLen).toUInt32.toUInt16

/-- Open the directory (or file) a fid identifies, by handle or through the watch on the
    directory. -/
def openFid (f : Bytes) (nameLen : Int32) : M σ (Option Int32) := do
  let mount ← mountFd f
  let dirf ← call (Sys.openByHandleAt mount (Fid.alignedHandle f))
  if dirf > 0 then
    -- Got path by handle
    return some dirf
  if (← getLib).fanotifyMarkType = fanMarkFilesystem then
    ceprint [.text "Failed to decode directory fid.\n"]
    return none
  if nameLen = 0 then
    -- Fallthrough to stored filename
    return none
  -- For recursive watch look for watch by fid without the name
  match ← watchFromFid (dirFid f nameLen) with
  | none => do
      ceprint [.text "Failed to lookup path by directory fid.\n"]
      return none
  | some id => do
      let wdirf := (← watch id).dirf
      let dirf ← (if wdirf ≠ 0 then call (Sys.dup wdirf) else pure (-1))
      if dirf < 0 then
        ceprint [.text "Failed to get directory fd.\n"]
        return none
      return some dirf

/-- Append " (deleted)" to the string in the filename buffer. -/
def markDeleted : M σ Unit := do
  let buf := (← getLib).fidname.slice 0 fidnameSize
  let stop := (buf.findIdx? (· = 0)).getD 0
  let suffix := ascii " (deleted)" ++ [0]
  if stop + suffix.length ≤ fidnameSize then
    blitFidname stop suffix

/-- Append the name of a fid to the path in the filename buffer (which ends at `len`), and a mark
    when the file is gone. False if the file cannot be accessed. -/
def appendFidName (f : Bytes) (nameLen : Int32) (dirf : Int32) (len : Nat) : M σ Bool := do
  let nameOff := fidHdr + (Fid.handleBytes f).toNat
  let name := (f.drop nameOff).takeWhile (· ≠ 0)
  let deleted ← call (Sys.faccessat dirf (cstring name))
  let e ← errno
  if deleted ≠ 0 ∧ e ≠ enoent then
    ceprint [.text "Failed to access file ", .bytes name, .text " (", .bytes (← strerror e),
      .text ").\n"]
    return false
  let room := fidnameSize - 16 - len
  let n := min nameLen.toInt.toNat room
  blitFidname len ((List.range n).map fun i => Fid.get f (nameOff + i))
  setFidname (min (len + n) (fidnameSize - 12)) 0
  (if deleted ≠ 0 then markDeleted else pure ())
  return true

/-- Resolve the path of a fid (+ name) into the internal filename buffer. `none` to fall back to the
    stored filename. -/
def filenameFromFid (f : Bytes) : M σ (Option CString) := do
  let nameLen := fidNameLen f
  match ← openFid f nameLen with
  | none => return none
  | some dirf => do
      -- two bytes less than PATH_MAX because '/' and NUL are appended
      match ← call (Sys.readlinkFd dirf (pathMax - 2)) with
      | none => do
          exec (Sys.close dirf)
          ceprint [.text "Failed to resolve path from directory fd.\n"]
          return none
      | some target => do
          let target := target.take (pathMax - 2)
          blitFidname 0 target
          setFidname target.length slash
          let len := target.length + 1
          setFidname len 0
          let ok ← (if nameLen > 0 then appendFidName f nameLen dirf len else pure true)
          exec (Sys.close dirf)
          if !ok then
            return none
          return some (fidnameString (← getLib))

/-! ## From descriptors and events to names -/

/-- Filename recorded for a watch (resolving fanotify filesystem watch fids). -/
def filenameFromWatchId (id : Nat) : M σ CString := do
  let w ← watch id
  match w.fid with
  | none => return w.filename
  | some f => do
      if (← getLib).fanotifyMarkType = 0 then
        return w.filename
      match ← filenameFromFid f with
      | some p => return p
      | none => return (← watch id).filename

/-- The filename used to establish a watch, as a C string; empty if `wd` is not a watch
    descriptor. -/
def filenameFromWdPtr (wd : Int32) : M σ CString := do
  assertInit
  if wd = 0 then
    return CString.empty
  match ← watchFromWd wd with
  | some id => filenameFromWatchId id
  | none => return CString.empty

/-- Get the filename used to establish a watch (empty if `wd` is not a watch descriptor). -/
def filenameFromWd (wd : Int32) : M σ Bytes := do
  return (← filenameFromWdPtr wd).bytes

/-- Position of the last occurrence of a byte. -/
def rposition (s : Bytes) (c : UInt8) : Option Nat :=
  (s.reverse.findIdx? (· = c)).map (s.length - 1 - ·)

/-- The watch filename and length of its directory part for an event. -/
def dirnameFromEventPtr (wd : Int32) : M σ (CString × Nat) := do
  let filename ← filenameFromWdPtr wd
  let s := filename.bytes
  -- Split dirname from filename for fanotify event
  let dirsep := if (← getLib).fanotifyMode then rposition s slash else none
  match dirsep with
  | none => return (filename, s.length)
  | some i => return (filename, i + 1)

/-- Filename, length of its directory part, and offset of the event name within it if it comes from
    there rather than from the event. -/
def filenameFromEventPtr (wd : Int32) : M σ (CString × Nat × Option Nat) := do
  let (f, dl) ← dirnameFromEventPtr wd
  -- On fanotify watch, filename includes event->name
  let off := if f.bytes.length > dl then some dl else none
  return (f, dl, off)

/-- Get the watched path and file name of an event. -/
def filenameFromEvent (ev : Event) : M σ EventPath := do
  let (f, dirnamelen, off) ← filenameFromEventPtr ev.wd
  let filename := f.bytes
  let eventname := match off with
    | some o => filename.drop o
    | none => if ev.len > 0 then ev.name else []
  return { filename, dirnamelen, eventname }

/-- Get the directory path of an event on a directory ("dir/name/"), or `none` for events not on a
    directory. -/
def dirpathFromEvent (ev : Event) : M σ (Option Bytes) := do
  let filename ← filenameFromWd ev.wd
  if filename.isEmpty ∨ ev.mask.toInt32 &&& inIsdir = 0 then
    return none
  -- a fanotify watch's filename includes the name already
  let name := if (← getLib).fanotifyMode then [] else ev.name
  return some (filename ++ name ++ [slash])

/-- The filename of a watch, or empty if the watch no longer exists. -/
def filenameFromWatch (id : Nat) : M σ Bytes := do
  if !(← getLib).store.watches.contains id then
    return []
  return (← filenameFromWatchId id).bytes

/-! ## From names to descriptors -/

/-- Get the watch descriptor for a filename (the name used to establish the watch), or -1. -/
def wdFromFilename (filename : Bytes) : M σ Int32 := do
  assertInit
  if filename.isEmpty then
    return -1
  match ← watchFromFilename filename with
  | some id => return (← watch id).wd
  | none => return -1

/-- Number of watches set up. -/
def getNumWatches : M σ Int32 := do
  return Int32.ofNat (← getLib).store.byFilename.size

/-! ## Renaming -/

/-- Set the filename for a watch descriptor. -/
def setFilenameByWd (wd : Int32) (filename : Bytes) : M σ Unit := do
  assertInit
  match ← watchFromWd wd with
  | some id => renameWatch id filename
  | none => return ()

/-- Set the filename for the watch with a particular existing filename. -/
def setFilenameByFilename (oldname newname : Bytes) : M σ Unit := do
  match ← watchFromFilename oldname with
  | some id => renameWatch id newname
  | none => return ()

/-- One round of `replace_filename`: give the watch `id` its new name if it is concerned. -/
def replaceFilenameOf (oldname newname : Bytes) (id : Nat) : M σ Unit := do
  match (← getLib).store.watches[id]? with
  | none => return ()
  | some w => do
      let cur := w.filename.bytes
      if oldname.isPrefixOf cur ∧ cur ≠ newname then
        renameWatch id (newname ++ cur.drop oldname.length)

def replaceFilenames (oldname newname : Bytes) : List Nat → M σ Unit
  | [] => return ()
  | id :: ids => do
      replaceFilenameOf oldname newname id
      replaceFilenames oldname newname ids

/-- Replace a filename prefix on all watches (e.g. after a directory was moved). -/
def replaceFilename (oldname newname : Bytes) : M σ Unit := do
  if oldname.isEmpty ∨ newname.isEmpty then
    return ()
  let entries := (← getLib).store.byFilename.values
  replaceFilenames oldname newname entries

/-! ## Removing -/

def removeWatch (id : Option Nat) : M σ Bool := do
  assertInit
  match id with
  | none => return true
  | some id => do
      if !(← removeInotifyWatch id) then
        return false
      destroyWatch id
      return true

/-- Remove a watch by watch descriptor. Returns true on success or if the watch does not exist. -/
def removeWatchByWd (wd : Int32) : M σ Bool := do
  removeWatch (← watchFromWd wd)

/-- Remove a watch by the filename used to establish it. -/
def removeWatchByFilename (filename : Bytes) : M σ Bool := do
  removeWatch (← watchFromFilename filename)

end InotifyTools
