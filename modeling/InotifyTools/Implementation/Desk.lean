import InotifyTools.Implementation.Sys

set_option autoImplicit false

/-! # A small operating system

A concrete instance of `Sys` to run the programs on: a file system of which only the directories are
known, inotify instances that number the paths watched, and a queue of chunks to be read. It behaves
like the kernel as far as it goes; everything else answers with a fixed value. -/

namespace InotifyTools

structure Desk where
  /-- The descriptor and the watch number handed out next. -/
  nextFd : Int32 := 3
  nextWd : Int32 := 1
  /-- Descriptor of the instance, number and path of each kernel watch. -/
  watched : List (Int32 × Int32 × Bytes) := []
  /-- The directories, without a trailing '/'. -/
  dirs : List Bytes := []
  /-- What `read` returns, chunk by chunk. -/
  chunks : List Bytes := []
  /-- What `/proc/self/fd/N` leads to, by turns. -/
  links : List Bytes := []
  /-- Path and contents of each file that `fopen` finds. -/
  files : List (Bytes × Bytes) := []
  written : List (Stream × Bytes) := []

namespace Desk

/-- `p` without a trailing '/'. -/
def trim (p : Bytes) : Bytes := if p.getLast? = some slash then p.dropLast else p

def isDir (d : Desk) (p : Bytes) : Bool := d.dirs.contains (trim p)

/-- Drop the watches of an instance. -/
def drop (d : Desk) (fd : Int32) : Desk :=
  { d with watched := d.watched.filter fun e => e.1 ≠ fd }

/-- A new descriptor, no watch belonging to it. -/
def openFd (d : Desk) : Int32 × Desk :=
  (d.nextFd, { d.drop d.nextFd with nextFd := d.nextFd + 1 })

/-- Number the path `p` on the instance `fd`: again as before, or with the next number. -/
def addWatch (d : Desk) (fd : Int32) (p : Bytes) : Int32 × Desk :=
  if fd < 0 then (-1, d)
  else
    match d.watched.find? fun e => e.1 = fd ∧ 0 < e.2.1 ∧ e.2.2 = trim p with
    | some e => (e.2.1, d)
    | none =>
        if d.nextWd ≤ 0 then (-1, d)
        else (d.nextWd, { d with nextWd := d.nextWd + 1
                                 watched := d.watched ++ [(fd, d.nextWd, trim p)] })

/-- Drop the watch number `wd` of the instance `fd`. -/
def rmWatch (d : Desk) (fd wd : Int32) : Int32 × Desk :=
  if (d.watched.any fun e => e.1 = fd ∧ e.2.1 = wd) then
    (0, { d with watched := d.watched.filter fun e => ¬ (e.1 = fd ∧ e.2.1 = wd) })
  else (-1, d)

/-- A pattern of ordinary characters matches where it occurs. -/
def occurs (pattern : Bytes) (s : CString) : Bool :=
  s.bytes.tails.any fun t => pattern.isPrefixOf t

/-- A pattern with an unclosed bracket is refused. -/
def compile (pattern : Bytes) : Option Regex :=
  if pattern.contains 0x5b ∧ ¬ pattern.contains 0x5d then none else some (occurs pattern)

instance : Sys Desk where
  errno _ := einval
  strerror _ := ascii "Invalid argument"
  fwrite st b d := { d with written := d.written ++ [(st, b)] }
  getpid d := (1, d)
  close fd d := d.drop fd
  inotifyInit := openFd
  inotifyAddWatch fd p _ d := d.addWatch fd p.bytes
  inotifyRmWatch fd wd d := d.rmWatch fd wd
  fanotifyInit _ := openFd
  fanotifyMark _ _ _ _ d := (0, d)
  lstat p d := (some (if d.isDir p.bytes then sIfdir else 0x8000), d)
  statfs _ d := (some fun _ => 0, d)
  openPath _ _ := openFd
  dup _ := openFd
  nameToHandleAt _ d := ((0, Mem.zero), d)
  openByHandleAt _ _ := openFd
  readlinkFd _ n d := match d.links with
    | [] => (none, d)
    | l :: ls => (some (l.take n), { d with links := ls })
  faccessat _ _ d := (0, d)
  opendir p d := (if d.isDir p.bytes then some 0 else none, d)
  readdir _ d := (none, d)
  closedir _ d := d
  ppoll _ _ d := (if d.chunks.isEmpty then 0 else 1, d)
  fionread _ d := ((0, UInt32.ofNat d.chunks.flatten.length), d)
  read _ n d := match d.chunks with
    | [] => (none, d)
    | c :: cs => (some (c.take n), { d with chunks := cs })
  regcomp p _ d := (compile p.bytes, d)
  strftimeNow _ d := (some (ascii "now"), d)
  flushAll d := d
  syslog _ d := d
  slurp p d := (p.bind fun p => d.files.lookup p.bytes, d)
  printNow d := (false, d)
  done d := (false, d)

end Desk

end InotifyTools
