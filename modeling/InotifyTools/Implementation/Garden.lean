import InotifyTools.Implementation.Planted

set_option autoImplicit false

/-! # An operating system that knows what it watches

A concrete instance of `Sys` with a tree of files that may be replaced by another, and a list of what
its inotify instance watches. A directory that has moved is the directory it was: its descriptor goes
with it. -/

namespace InotifyTools

/-- The state of a kernel with one inotify instance. -/
structure Garden where
  tree : FileTree
  /-- Where that is now that the descriptors 1, 2, … were handed out for. -/
  watched : List Bytes := []
  /-- What is left of each directory stream, `none` once it is closed. -/
  streams : List (Option (List CString)) := []
  errno : Int32 := 0

namespace Garden

/-- The descriptor of the inotify instance. -/
def instanceFd : Int32 := 3

/-- How many descriptors can be handed out. -/
def capacity : Nat := 2 ^ 30

/-- What a descriptor was handed out for. -/
def charted (watched : List Bytes) (wd : Int32) : Option Bytes :=
  if 0 < wd then watched[wd.toInt.toNat - 1]? else none

/-- What an open directory stream has not yielded yet. -/
def pending (d : Garden) (dir : Nat) : Option (List CString) := d.streams[dir]?.join

/-- Replace what is left of a stream. -/
def setStream (d : Garden) (dir : Nat) (rest : Option (List CString)) : Garden :=
  { d with streams := d.streams.set dir rest }

/-- Hand out a descriptor for a directory that can be read, the one it has if it has one. -/
def addWatch (d : Garden) (p : Bytes) : Int32 × Garden :=
  let path := Desk.trim p ++ [slash]
  if (d.tree.look p).isReadable then
    match d.watched.idxOf? path with
    | some i => (Int32.ofNat (i + 1), d)
    | none =>
        if d.watched.length < capacity then
          (Int32.ofNat (d.watched.length + 1), { d with watched := d.watched ++ [path] })
        else (-1, { d with errno := enospc })
  else (-1, { d with errno := eacces })

instance : Sys Garden where
  errno d := d.errno
  strerror _ := ascii "Permission denied"
  fwrite _ _ d := d
  getpid d := (1, d)
  close _ d := d
  inotifyInit d := (instanceFd, d)
  inotifyAddWatch _ p _ d := d.addWatch p.bytes
  inotifyRmWatch _ _ d := (0, d)
  fanotifyInit _ d := (-1, { d with errno := eperm })
  fanotifyMark _ _ _ _ d := (-1, { d with errno := eperm })
  lstat p d :=
    if d.tree.hidden (Desk.trim p.bytes) then (none, { d with errno := eacces })
    else (some (if (d.tree.look p.bytes).isDirectory then sIfdir else 0x8000), d)
  statfs _ d := (some fun _ => 0, d)
  openPath _ _ d := (-1, { d with errno := eacces })
  dup _ d := (-1, { d with errno := eacces })
  nameToHandleAt _ d := ((-1, Mem.zero), d)
  openByHandleAt _ _ d := (-1, { d with errno := eperm })
  readlinkFd _ _ d := (none, d)
  faccessat _ _ d := (0, d)
  opendir p d := match d.tree.look p.bytes with
    | .other => (none, { d with errno := enotdir })
    | .sealed => (none, { d with errno := eacces })
    | .directory names => (some d.streams.length, { d with streams := d.streams ++ [some names] })
  readdir dir d := match d.pending dir with
    | some (n :: names) => (some n, d.setStream dir (some names))
    | _ => (none, d)
  closedir dir d := d.setStream dir none
  ppoll _ _ d := (0, d)
  fionread _ d := ((0, 0), d)
  read _ _ d := (none, d)
  regcomp _ _ d := (none, d)
  strftimeNow _ d := (none, d)
  flushAll d := d
  syslog _ d := d
  slurp _ d := (none, d)
  printNow d := (false, d)
  done d := (false, d)

end Garden

/-! ## A tree that grows and moves -/

/-- A directory with these names in it. -/
def nodeOf (names : List String) : Node := .directory (names.map fun n => cstring (ascii n))

/-- "/t/a/c/" and a file. -/
def tendedTree : FileTree :=
  .planted [(ascii "/t", nodeOf ["a", "f"]), (ascii "/t/a", nodeOf ["c"]), (ascii "/t/a/c", nodeOf [])]
    [] (by decide +kernel)

def tendedDirs : List Bytes := [ascii "/t/a/c/", ascii "/t/a/", ascii "/t/"]

/-- Then "/t/b/x/" appears. -/
def grownTree : FileTree :=
  .planted [(ascii "/t", nodeOf ["a", "b", "f"]), (ascii "/t/a", nodeOf ["c"]),
      (ascii "/t/a/c", nodeOf []), (ascii "/t/b", nodeOf ["x"]), (ascii "/t/b/x", nodeOf [])]
    [] (by decide +kernel)

def newDirs : List Bytes := [ascii "/t/b/x/", ascii "/t/b/"]

def grownDirs : List Bytes :=
  [ascii "/t/a/c/", ascii "/t/a/", ascii "/t/b/x/", ascii "/t/b/", ascii "/t/"]

/-- Then "/t/a/" becomes "/t/b/d/". -/
def movedTree : FileTree :=
  .planted [(ascii "/t", nodeOf ["b", "f"]), (ascii "/t/b", nodeOf ["x", "d"]),
      (ascii "/t/b/d", nodeOf ["c"]), (ascii "/t/b/d/c", nodeOf []), (ascii "/t/b/x", nodeOf [])]
    [] (by decide +kernel)

def movedDirs : List Bytes :=
  [ascii "/t/b/x/", ascii "/t/b/d/c/", ascii "/t/b/d/", ascii "/t/b/", ascii "/t/"]

end InotifyTools
