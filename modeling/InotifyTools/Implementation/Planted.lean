import InotifyTools.Implementation.Desk

set_option autoImplicit false

/-! # An operating system with a tree of files

A concrete instance of `Sys` that knows a file system: what is a directory, what can be read in it, and
what cannot be looked at. Descriptors and directory streams are numbered as they are opened. -/

namespace InotifyTools

/-! ## Trees of files -/

/-- What is found under a path. -/
inductive Node
  /-- A file or a symlink. -/
  | other
  /-- A directory that cannot be read. -/
  | sealed
  /-- A directory and the names in it. -/
  | directory (names : List CString)

namespace Node

def isDirectory : Node → Bool
  | other => false
  | sealed | directory _ => true

def isReadable : Node → Bool
  | other | sealed => false
  | directory _ => true

def names : Node → List CString
  | other | sealed => []
  | directory names => names

/-- The names in a directory are different, and none is empty or has a '/'. -/
def Proper (n : Node) : Prop := n.names.Nodup ∧ ∀ m ∈ n.names, m.bytes ≠ [] ∧ slash ∉ m.bytes

instance : DecidablePred Proper := fun n =>
  inferInstanceAs (Decidable (n.names.Nodup ∧ ∀ m ∈ n.names, m.bytes ≠ [] ∧ slash ∉ m.bytes))

end Node

/-- A file system. Paths are spelled without a trailing '/'. -/
structure FileTree where
  node : Bytes → Node
  /-- Whether `lstat` is refused. -/
  hidden : Bytes → Bool
  proper : ∀ p, (node p).Proper

/-- What is found under a path, with or without a trailing '/'. -/
def FileTree.look (t : FileTree) (p : Bytes) : Node := t.node (Desk.trim p)

theorem mem_of_lookup {β : Type} {p : Bytes} {b : β} {l : List (Bytes × β)}
    (h : l.lookup p = some b) : (p, b) ∈ l := by
  obtain ⟨l₁, l₂, rfl, -⟩ := List.lookup_eq_some_iff.1 h
  exact List.mem_append_right _ (List.mem_cons_self ..)

/-- The tree with the nodes listed; whatever is not listed is a file. -/
def FileTree.planted (nodes : List (Bytes × Node)) (hidden : List Bytes)
    (h : ∀ e ∈ nodes, e.2.Proper) : FileTree where
  node p := (nodes.lookup p).getD .other
  hidden p := hidden.contains p
  proper p := by
    cases hlookup : nodes.lookup p with
    | none => exact ⟨List.nodup_nil, nofun⟩
    | some n => exact h _ (mem_of_lookup hlookup)

/-- A directory with a subdirectory in a subdirectory, a file, and directories that are hidden, sealed
    and excluded. -/
def plantedTree : FileTree :=
  .planted
    [(ascii "/t", .directory ([".", "..", "a", "f", "h", "s", "x"].map fun n => cstring (ascii n))),
      (ascii "/t/a", .directory ([".", "..", "c"].map fun n => cstring (ascii n))),
      (ascii "/t/a/c", .directory []), (ascii "/t/h", .directory []), (ascii "/t/s", .sealed),
      (ascii "/t/x", .directory [])]
    [ascii "/t/h"] (by decide +kernel)

/-! ## Watch descriptors -/

/-- The paths that an inotify instance watches, in the order of their descriptors; `none` where a watch
    has been removed. -/
abbrev WatchTable := List (Option Bytes)

namespace WatchTable

/-- The descriptor of the `i`-th path. They are numbered from 1 on, and once the numbers are used up,
    from 1 on again. -/
def wdAt (i : Nat) : Int32 := Int32.ofNat (i % 2 ^ 30 + 1)

theorem wdAt_pos (i : Nat) : 0 < wdAt i := by
  have hmod := Nat.mod_lt i (Nat.two_pow_pos 30)
  have hint : (wdAt i).toInt = (i % 2 ^ 30 + 1 : Nat) := Int32.toInt_ofNat_of_lt (by omega)
  have hzero : (0 : Int32).toInt = 0 := rfl
  rw [Int32.lt_iff_toInt_lt, hint, hzero]
  omega

/-- Watch a path: under the descriptor that it has, or under a new one. -/
def add (t : WatchTable) (p : Bytes) : Int32 × WatchTable :=
  match t.idxOf? (some p) with
  | some i => (wdAt i, t)
  | none => (wdAt t.length, t ++ [some p])

theorem add_pos (t : WatchTable) (p : Bytes) : 0 < (t.add p).1 := by
  unfold add
  split <;> exact wdAt_pos _

/-- Remove the watch of a descriptor, if there is one. -/
def remove (t : WatchTable) (wd : Int32) : Option WatchTable :=
  match t[wd.toInt.toNat - 1]?.join with
  | some _ => some (t.set (wd.toInt.toNat - 1) none)
  | none => none

end WatchTable

/-! ## The operating system -/

variable {t : FileTree}

/-- The state of a kernel that knows the tree `t`. -/
structure Planted (t : FileTree) where
  /-- What is left of each directory stream, `none` once it is closed. -/
  streams : List (Option (List CString)) := []
  /-- How many descriptors have been handed out, beginning with 3. -/
  opened : Nat := 0
  watched : WatchTable := []
  errno : Int32 := 0

namespace Planted

/-- What an open directory stream has not yielded yet. -/
def pending (d : Planted t) (dir : Nat) : Option (List CString) := d.streams[dir]?.join

/-- Replace what is left of a stream. -/
def setStream (d : Planted t) (dir : Nat) (rest : Option (List CString)) : Planted t :=
  { d with streams := d.streams.set dir rest }

/-- A new descriptor, as long as there are any. -/
def openFd (d : Planted t) : Int32 × Planted t :=
  if d.opened < 2 ^ 30 then (Int32.ofNat (d.opened + 3), { d with opened := d.opened + 1 })
  else (-1, d)

instance : Sys (Planted t) where
  errno d := d.errno
  strerror _ := ascii "Permission denied"
  fwrite _ _ d := d
  getpid d := (1, d)
  close _ d := d
  inotifyInit := openFd
  inotifyAddWatch _ p _ d :=
    let r := d.watched.add (Desk.trim p.bytes)
    (r.1, { d with watched := r.2 })
  inotifyRmWatch _ wd d := match d.watched.remove wd with
    | some watched => (0, { d with watched })
    | none => (-1, { d with errno := einval })
  fanotifyInit _ := openFd
  fanotifyMark _ _ _ _ d := (0, d)
  lstat p d :=
    if t.hidden (Desk.trim p.bytes) then (none, { d with errno := eacces })
    else (some (if (t.look p.bytes).isDirectory then sIfdir else 0x8000), d)
  statfs _ d := (some fun _ => 0, d)
  openPath _ _ := openFd
  dup _ := openFd
  nameToHandleAt _ d := ((0, Mem.zero), d)
  openByHandleAt _ _ := openFd
  readlinkFd _ _ d := (none, d)
  faccessat _ _ d := (0, d)
  opendir p d := match t.look p.bytes with
    | .other => (none, { d with errno := enotdir })
    | .sealed => (none, { d with errno := eacces })
    | .directory names => (some d.streams.length, { d with streams := d.streams ++ [some names] })
  readdir dir d := match d.pending dir with
    | some (n :: names) => (some n, d.setStream dir (some names))
    | _ => (none, d)
  closedir dir d := d.setStream dir none
  ppoll _ _ d := (0, d)
  fionread _ d := ((0, 0), d)
  read _ _ d := (none, d)
  regcomp _ _ d := (none, d)
  strftimeNow _ d := (none, d)
  flushAll d := d
  syslog _ d := d
  slurp _ d := (none, d)
  printNow d := (false, d)
  done d := (false, d)

end Planted

end InotifyTools
