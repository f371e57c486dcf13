import InotifyTools.Implementation.Planted

set_option autoImplicit false

/-! # An operating system whose files change

A concrete instance of `Sys` with a file system that is another one at every tick of a clock, and a
clock that ticks at every call on a path. A directory stream yields what was there when it was opened. -/

namespace InotifyTools

/-- What is found under a path, without a trailing '/', and when. -/
structure Scenes where
  node : Nat → Bytes → Option Node
  proper : ∀ k p n, node k p = some n → n.Proper

/-- The nodes `before`, and from the tick `change` on the nodes `after`. -/
def Scenes.changing (before after : List (Bytes × Node)) (change : Nat)
    (h : ∀ e ∈ before ++ after, e.2.Proper) : Scenes where
  node k p := (if k < change then before else after).lookup p
  proper k p n hn := by
    have hmem := mem_of_lookup hn
    split at hmem
    · exact h _ (List.mem_append_left _ hmem)
    · exact h _ (List.mem_append_right _ hmem)

/-- A directory with two subdirectories, in one of which there is a file that goes away. -/
def shiftingScenes : Scenes :=
  .changing
    [(ascii "/r", .directory [cstring (ascii "a"), cstring (ascii "b")]),
      (ascii "/r/a", .directory []), (ascii "/r/b", .directory [cstring (ascii "x")]),
      (ascii "/r/b/x", .other)]
    [(ascii "/r", .directory [cstring (ascii "a"), cstring (ascii "b")]),
      (ascii "/r/a", .directory []), (ascii "/r/b", .directory [])]
    7 (by decide +kernel)

/-- A directory stream: the directory, spelled with a trailing '/', and the names left. -/
structure Snapshot where
  path : Bytes
  names : List CString
  proper : (Node.directory names).Proper

/-- Without the first name. -/
def Snapshot.tail (r : Snapshot) : Snapshot where
  path := r.path
  names := r.names.tail
  proper := ⟨r.proper.1.tail, fun m hm => r.proper.2 m (List.mem_of_mem_tail hm)⟩

structure Shifting (c : Scenes) where
  clock : Nat := 0
  /-- The streams in the order they were opened, `none` once closed. -/
  streams : List (Option Snapshot) := []
  watched : WatchTable := []
  errno : Int32 := 0

namespace Shifting

variable {c : Scenes}

/-- What is under `p` now. -/
def look (d : Shifting c) (p : Bytes) : Option Node := c.node d.clock (Desk.trim p)

def tick (d : Shifting c) : Shifting c := { d with clock := d.clock + 1 }

def fail (d : Shifting c) (errno : Int32) : Shifting c := { d.tick with errno }

/-- Watch what is under `p`. -/
def addWatch (d : Shifting c) (p : Bytes) : Int32 × Shifting c :=
  let r := d.watched.add (Desk.trim p)
  if (d.look p).isSome then (r.1, { d.tick with watched := r.2 }) else (-1, d.fail enoent)

/-- Open a stream of the directory `p`. -/
def stream (d : Shifting c) (p : Bytes) (names : List CString)
    (h : (Node.directory names).Proper) : Shifting c :=
  { d.tick with streams := d.streams ++ [some ⟨Desk.trim p ++ [slash], names, h⟩] }

/-- Answer to `opendir`. -/
def opendir (p : Bytes) (d : Shifting c) : Option Nat × Shifting c :=
  match h : d.look p with
  | none => (none, d.fail enoent)
  | some .other => (none, d.fail enotdir)
  | some .sealed => (none, d.fail eacces)
  | some (.directory names) =>
      (some d.streams.length, d.stream p names (c.proper _ _ _ h))

instance : Sys (Shifting c) where
  errno d := d.errno
  strerror _ := ascii "No such file or directory"
  fwrite _ _ d := d
  getpid d := (1, d)
  close _ d := d
  inotifyInit d := (3, d)
  inotifyAddWatch _ p _ d := d.addWatch p.bytes
  inotifyRmWatch _ wd d := match d.watched.remove wd with
    | some watched => (0, { d with watched })
    | none => (-1, { d with errno := einval })
  fanotifyInit _ d := (3, d)
  fanotifyMark _ _ _ _ d := (0, d)
  lstat p d := match d.look p.bytes with
    | none => (none, d.fail enoent)
    | some n => (some (if n.isDirectory then sIfdir else 0x8000), d.tick)
  statfs _ d := (some fun _ => 0, d)
  openPath _ _ d := (4, d)
  dup _ d := (5, d)
  nameToHandleAt _ d := ((0, Mem.zero), d)
  openByHandleAt _ _ d := (6, d)
  readlinkFd _ _ d := (none, d)
  faccessat _ _ d := (0, d)
  opendir p := opendir p.bytes
  readdir dir d := match d.streams[dir]?.join with
    | none => (none, d)
    | some r => (r.names.head?, { d with streams := d.streams.set dir (some r.tail) })
  closedir dir d := { d with streams := d.streams.set dir none }
  ppoll _ _ d := (0, d)
  fionread _ d := ((0, 0), d)
  read _ _ d := (none, d)
  regcomp _ _ d := (none, d)
  strftimeNow _ d := (none, d)
  flushAll d := d
  syslog _ d := d
  slurp _ d := (none, d)
  printNow d := (false, d)
  done d := (false, d)

end Shifting

end InotifyTools
