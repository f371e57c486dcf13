import InotifyTools.Implementation.Lookup

set_option autoImplicit false

/-! # Setting up watches

Watching files, encoding the fids of fanotify marks, and the walk over a directory tree. `fuel`
bounds the loops of a call; a call that exhausts it is still running. -/

namespace InotifyTools

variable {σ : Type} [Sys σ]

/-- Whether `path` is a directory (not following symlinks). -/
def isdir (path : Bytes) : M σ Bool := do
  let cpath := cstring path
  match ← call (Sys.lstat cpath) with
  | none => do
      let e ← errno
      let reason ← strerror e
      (if e ≠ enoent then
        ceprint [.text "Stat failed on ", .bytes cpath.bytes, .text ": ", .bytes reason, .text "\n"]
      else pure ())
      return false
  | some mode => return mode &&& sIfmt = sIfdir

/-! ## Fanotify fids -/

/-- Register the mount fd of the filesystem `dirname` lies on, unless the fid `f` (of which only the
    fsid is set) is indexed. False if the directory cannot be opened. -/
def registerMount (fuel : Nat) (f : Bytes) (dirname : Option Bytes) : M σ Bool := do
  match dirname with
  | none => return true
  | some d => do
      -- hdr.len is still 0 in the lookup key, as in the original
      if (← watchFromFid f).isSome then
        return true
      let mntid ← call (Sys.openPath (cstring d) oRdonly)
      if mntid < 0 then
        ceprint [.text "Failed to open ", .bytes d, .text ": ", .bytes (← strerror (← errno)),
          .text "\n"]
        return false
      -- Hash mount_fd without terminating /
      let _ ← createWatch fuel 0 (some (Fid.fsidKey f)) d.dropLast mntid
      return true

/-- The fid encoded from the fsid `f` and the first `8 + hb` bytes of a file handle. -/
def encodedFid (f : Bytes) (handle : Mem) (hb : Nat) (isDir : Bool) : Bytes :=
  let f := f.take handleOff ++ handle.slice 0 (8 + hb) ++ f.drop (handleOff + 8 + hb)
  let f := Fid.setInfoType f (if isDir then fanEventInfoTypeDfid else fanEventInfoTypeFid)
  Fid.setHdrLen f (UInt16.ofNat (fidHdr + hb))

/-- Build the fid identifying a newly marked file (and register the filesystem's mount fd). Returns
    the fid and the directory's `O_PATH` descriptor. -/
def fanotifyEncodeFid (fuel : Nat) (cpath : CString) (dirname : Option Bytes) :
    M σ (Option (Bytes × Int32)) := do
  match ← call (Sys.statfs cpath) with
  | none => do
      ceprint [.text "Statfs failed on ", .bytes cpath.bytes, .text ": ",
        .bytes (← strerror (← errno)), .text "\n"]
      return none
  | some fsid => do
      let f := (List.range (fidHdr + maxFidLen)).map fun i =>
        if h : 4 ≤ i ∧ i < 12 then fsid ⟨i - 4, by omega⟩ else 0
      if !(← registerMount fuel f dirname) then
        return none
      let (ret, handle) ← call (Sys.nameToHandleAt cpath)
      let hb := leNat (handle.slice 0 4)
      if ret ≠ 0 ∨ hb > maxFidLen then
        ceprint [.text "Encode fid failed on ", .bytes cpath.bytes, .text ": ",
          .bytes (← strerror (← errno)), .text "\n"]
        return none
      let f := encodedFid f handle hb dirname.isSome
      match dirname with
      | none => return some (f, 0)
      | some d => do
          let dirf ← call (Sys.openPath (cstring d) oPath)
          if dirf < 0 then
            ceprint [.text "Failed to open ", .bytes d, .text ": ",
              .bytes (← strerror (← errno)), .text "\n"]
            return none
          return some (f, dirf)

/-! ## Watching files -/

/-- Ask the kernel to watch `cpath`. `IN_DONT_FOLLOW` is honoured through `events` with inotify and
    turned into a flag, and dropped from `events`, with fanotify. -/
def addWatch (cpath : CString) (events : Int32) : M σ (Int32 × Int32) := do
  let l ← getLib
  if l.fanotifyMode then
    let flags := fanMarkAdd ||| l.fanotifyMarkType
    let (events, flags) :=
      if events &&& inDontFollow ≠ 0 then (events &&& ~~~inDontFollow, flags ||| fanMarkDontFollow)
      else (events, flags)
    let mask := (events ||| fanEventOnChild).toInt64.toUInt64
    let wd ← call (Sys.fanotifyMark l.fd flags mask cpath)
    return (wd, events)
  else
    let wd ← call (Sys.inotifyAddWatch l.fd cpath events.toUInt32)
    return (wd, events)

/-- Report that the kernel refused a watch with the answer `wd`. -/
def watchRefused (fname : Bytes) (wd : Int32) : M σ Unit := do
  if wd = -1 then
    setError (← errno)
  else
    ceprint [.text "Failed to watch ", .bytes fname, .text ": returned wd was ", .int wd.toInt,
      .text " (expected -1 or >0 )"]

/-- The name a watch is stored under (ending in '/' for a directory), and the same again as the name
    of the directory if it is one. -/
def storedName (fname : Bytes) (isDir : Bool) : Bytes × Option Bytes :=
  if !isDir then (fname, none)
  else if fname.getLast? = some slash then (fname, some fname)
  else (fname ++ [slash], some (fname ++ [slash]))

/-- The fid and directory descriptor a new watch is registered with: none with inotify, encoded from
    the file when the kernel handed out no descriptor. `none` on failure. -/
def watchFid (fuel : Nat) (wd : Int32) (cpath : CString) (dirname : Option Bytes) :
    M σ (Option (Option Bytes × Int32)) := do
  if wd ≠ 0 then
    return some (none, 0)
  match ← fanotifyEncodeFid fuel cpath dirname with
  | some (f, d) => return some (some f, d)
  | none => return none

/-- Enter a file the kernel accepted with the answer `wd` into the store. -/
def storeWatch (fuel : Nat) (cpath : CString) (wd : Int32) : M σ Bool := do
  let (filename, dirname) := storedName cpath.bytes (← isdir cpath.bytes)
  match ← watchFid fuel wd cpath dirname with
  | none => return false
  | some (fid, dirf) => do
      let _ ← createWatch fuel wd fid filename dirf
      return true

/-- One round of `watch_files`. Returns whether the file is watched and the events to go on with. -/
def watchOne (fuel : Nat) (fname : Bytes) (events : Int32) : M σ (Bool × Int32) := do
  let cpath := cstring fname
  let (wd, events) ← addWatch cpath events
  if wd < 0 then
    watchRefused cpath.bytes wd
    return (false, events)
  return (← storeWatch fuel cpath wd, events)

def watchEach (fuel : Nat) : List Bytes → Int32 → M σ Bool
  | [], _ => return true
  | fname :: filenames, events => do
      let (ok, events) ← watchOne fuel fname events
      if !ok then
        return false
      watchEach fuel filenames events

/-- Set up watches on a list of files. -/
def watchFiles (fuel : Nat) (filenames : List Bytes) (events : Int32) : M σ Bool := do
  assertInit
  setError 0
  watchEach fuel filenames events

/-- Set up a watch on a file. -/
def watchFile (fuel : Nat) (filename : Bytes) (events : Int32) : M σ Bool :=
  watchFiles fuel [filename] events

/-! ## Watching trees -/

/-- Whether a directory (spelled with a trailing '/') is an entry of the exclude list, up to one
    trailing '/' of the entry. -/
def isExcluded (nextFile : Bytes) (excludeList : List Bytes) : Bool :=
  excludeList.any fun ex =>
    let l := if ex.length > 0 ∧ ex.getLast? = some slash then ex.length - 1 else ex.length
    nextFile.length = l + 1 ∧ ex.take l = nextFile.take l

/-- One entry of the directory walked: descend into a subdirectory that is not excluded. False if
    the walk is to be given up. -/
def walkEntry (descend : Bytes → M σ Bool) (myPath : Bytes) (excludeList : List Bytes)
    (name : Bytes) : M σ Bool := do
  match ← call (Sys.lstat (cstring (myPath ++ name))) with
  | none => do
      let e ← errno
      setError e
      return e = eacces
  | some mode => do
      if mode &&& sIfmt ≠ sIfdir then
        return true
      let nextFile := myPath ++ name ++ [slash]
      if isExcluded nextFile excludeList then
        return true
      let status ← descend nextFile
      let e := (← getLib).error
      -- For some errors, we will continue.
      return status || (e = eacces ∨ e = enoent ∨ e = eloop)

/-- The `readdir` loop of the walk. -/
def walkEntries (descend : Bytes → M σ Bool) (dir : Nat) (myPath : Bytes)
    (excludeList : List Bytes) : Nat → M σ Bool
  | 0 => Prog.fault .outOfFuel
  | fuel + 1 => do
      match ← call (Sys.readdir dir) with
      | none => return true
      | some name => do
          let name := name.bytes
          let ok ←
            (if name ≠ ascii "." ∧ name ≠ ascii ".." then
              walkEntry descend myPath excludeList name
            else pure true)
          if !ok then
            return false
          setError 0
          walkEntries descend dir myPath excludeList fuel

/-- Set up recursive watches on a directory tree, excluding some directories (with or without
    trailing '/'). -/
def watchRecursivelyWithExclude : Nat → Bytes → Int32 → List Bytes → M σ Bool
  | 0, _, _, _ => Prog.fault .outOfFuel
  | fuel + 1, path, events, excludeList => do
      assertInit
      setError 0
      let cpath := cstring path
      let path := cpath.bytes
      match ← call (Sys.opendir cpath) with
      | none => do
          let e ← errno
          -- If not a directory, don't need to do anything special
          if e = enotdir then
            watchFile fuel path events
          else do
            setError e
            return false
      | some dir => do
          let myPath := if path.getLast? ≠ some slash then path ++ [slash] else path
          let ok ← walkEntries (fun p => watchRecursivelyWithExclude fuel p events excludeList)
            dir myPath excludeList fuel
          exec (Sys.closedir dir)
          if !ok then
            return false
          watchFile fuel myPath events

/-- Set up recursive watches on an entire directory tree. -/
def watchRecursively (fuel : Nat) (path : Bytes) (events : Int32) : M σ Bool :=
  watchRecursivelyWithExclude fuel path events []

end InotifyTools
