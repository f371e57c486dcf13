import InotifyTools.Implementation.Desk

set_option autoImplicit false

/-! # A desk with signals

A concrete instance of `Sys` on which signals arrive while a program waits: when nothing is left to be
read, the next signal interrupts the poll. -/

namespace InotifyTools

/-- `SIGUSR1` asks for a table, `SIGALRM` asks to leave. -/
inductive Signal
  | usr1
  | alrm
deriving DecidableEq

structure Alarmed where
  desk : Desk
  /-- The signals to come, each with the chunks that can be read after it. -/
  signals : List (Signal × List Bytes) := []
  errno : Int32 := einval
  printNow : Bool := false
  done : Bool := false

namespace Alarmed

variable {α : Type}

def pass (f : Desk → α × Desk) (a : Alarmed) : α × Alarmed :=
  ((f a.desk).1, { a with desk := (f a.desk).2 })

def act (f : Desk → Desk) (a : Alarmed) : Alarmed := { a with desk := f a.desk }

/-- The handlers of the signals set a flag. -/
def raise (a : Alarmed) (s : Signal) : Alarmed :=
  match s with
  | .usr1 => { a with printNow := true }
  | .alrm => { a with done := true }

/-- Wait for something to be read, or for a signal; without either the poll times out. -/
def ppoll (a : Alarmed) : Int32 × Alarmed :=
  if a.desk.chunks.isEmpty then
    match a.signals with
    | [] => (0, a)
    | (s, chunks) :: signals =>
        (-1, { a with desk := { a.desk with chunks }, signals, errno := 4 }.raise s)
  else (1, a)

instance : Sys Alarmed where
  errno a := a.errno
  strerror := Sys.strerror Desk
  fwrite st b := act (Sys.fwrite st b)
  getpid := pass Sys.getpid
  close fd := act (Sys.close fd)
  inotifyInit := pass Sys.inotifyInit
  inotifyAddWatch fd p mask := pass (Sys.inotifyAddWatch fd p mask)
  inotifyRmWatch fd wd := pass (Sys.inotifyRmWatch fd wd)
  fanotifyInit flags := pass (Sys.fanotifyInit flags)
  fanotifyMark fd flags mask p := pass (Sys.fanotifyMark fd flags mask p)
  lstat p := pass (Sys.lstat p)
  statfs p := pass (Sys.statfs p)
  openPath p flags := pass (Sys.openPath p flags)
  dup fd := pass (Sys.dup fd)
  nameToHandleAt p := pass (Sys.nameToHandleAt p)
  openByHandleAt fd h := pass (Sys.openByHandleAt fd h)
  readlinkFd fd n := pass (Sys.readlinkFd fd n)
  faccessat fd p := pass (Sys.faccessat fd p)
  opendir p := pass (Sys.opendir p)
  readdir d := pass (Sys.readdir d)
  closedir d := act (Sys.closedir d)
  ppoll _ _ := ppoll
  fionread fd := pass (Sys.fionread fd)
  read fd n := pass (Sys.read fd n)
  regcomp p flags := pass (Sys.regcomp p flags)
  strftimeNow f := pass (Sys.strftimeNow f)
  flushAll := act Sys.flushAll
  syslog b := act (Sys.syslog b)
  slurp p := pass (Sys.slurp p)
  printNow a := (a.printNow, { a with printNow := false })
  done a := (a.done, a)

end Alarmed

end InotifyTools
