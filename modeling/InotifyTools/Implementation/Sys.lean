import InotifyTools.Base.Memory
import InotifyTools.Implementation.Consts

set_option autoImplicit false

/-! # The operating system

Everything the library asks of the kernel, the file system and the C library, as operations on an
arbitrary state `σ`. Nothing is assumed about the answers here: a result that depends on what the
kernel promises states that promise as a hypothesis. -/

namespace InotifyTools

/-! ## C strings (`cio.rs`) -/

/-- A byte string without NUL, as `CString` keeps it. -/
@[ext] structure CString where
  bytes : Bytes
  noNul : 0 ∉ bytes
deriving DecidableEq

/-- Build a `CString` from bytes, truncating at the first NUL. -/
def cstring (b : Bytes) : CString where
  bytes := b.takeWhile (· ≠ 0)
  noNul h := by simpa using List.mem_takeWhile_imp h

/-- The empty C string. -/
def CString.empty : CString := ⟨[], by simp⟩

@[simp] theorem cstring_bytes (s : CString) : cstring s.bytes = s := by
  ext1
  exact List.takeWhile_eq_self_iff.2 fun x hx => by
    simpa using fun h : x = 0 => s.noNul (h ▸ hx)

theorem bytes_cstring {b : Bytes} (h : 0 ∉ b) : (cstring b).bytes = b :=
  congrArg CString.bytes (cstring_bytes ⟨b, h⟩)

/-! ## Messages -/

/-- Something that can be appended to a byte message. -/
inductive Piece
  | text (s : String)
  | bytes (b : Bytes)
  | int (n : Int)
  | hex (n : Nat)

/-- The bytes a piece contributes. -/
def Piece.put : Piece → Bytes
  | .text s => s.toUTF8.data.toList
  | .bytes b => b
  | .int n => (toString n).toUTF8.data.toList
  | .hex n => (Nat.toDigits 16 n).map fun c => c.toUInt8

/-- Concatenate pieces. -/
def cat (ps : List Piece) : Bytes := ps.flatMap Piece.put

/-- The C streams the library writes to. -/
inductive Stream
  | stdout
  | stderr
  | devnull
deriving DecidableEq

/-! ## System calls -/

/-- A compiled regular expression: `true` where `regexec` returns 0. -/
abbrev Regex := CString → Bool

/-- The operating system as operations on its state. `-1` with an `errno` is an ordinary answer;
calls whose result is a string, a handle or a mode return `none` for failure. -/
class Sys (σ : Type) where
  errno : σ → Int32
  strerror : Int32 → Bytes
  fwrite : Stream → Bytes → σ → σ
  getpid : σ → Int32 × σ
  close : Int32 → σ → σ
  inotifyInit : σ → Int32 × σ
  inotifyAddWatch : Int32 → CString → UInt32 → σ → Int32 × σ
  inotifyRmWatch : Int32 → Int32 → σ → Int32 × σ
  fanotifyInit : UInt32 → σ → Int32 × σ
  /-- descriptor, flags, mask, path (relative to the working directory) -/
  fanotifyMark : Int32 → UInt32 → UInt64 → CString → σ → Int32 × σ
  /-- `st_mode` -/
  lstat : CString → σ → Option UInt32 × σ
  /-- the eight bytes of `f_fsid` -/
  statfs : CString → σ → Option (Fin 8 → UInt8) × σ
  openPath : CString → Int32 → σ → Int32 × σ
  dup : Int32 → σ → Int32 × σ
  /-- result and contents of the `struct file_handle` buffer afterwards -/
  nameToHandleAt : CString → σ → (Int32 × Mem) × σ
  openByHandleAt : Int32 → Bytes → σ → Int32 × σ
  /-- target of `/proc/self/fd/N`, at most the given number of bytes -/
  readlinkFd : Int32 → Nat → σ → Option Bytes × σ
  faccessat : Int32 → CString → σ → Int32 × σ
  opendir : CString → σ → Option Nat × σ
  readdir : Nat → σ → Option CString × σ
  closedir : Nat → σ → σ
  /-- descriptor and timeout in seconds (`none`: block) -/
  ppoll : Int32 → Option Int → σ → Int32 × σ
  /-- result and number of bytes available -/
  fionread : Int32 → σ → (Int32 × UInt32) × σ
  /-- descriptor and count; `none` for -1, `some []` at end of file -/
  read : Int32 → Nat → σ → Option Bytes × σ
  regcomp : CString → Int32 → σ → Option Regex × σ
  /-- `strftime` of the current local time; `none` where it returns 0 -/
  strftimeNow : CString → σ → Option Bytes × σ
  flushAll : σ → σ
  syslog : Bytes → σ → σ
  /-- the whole contents of a file (`none`: of `stdin`) -/
  slurp : Option CString → σ → Option Bytes × σ
  /-- whether the given signal flag is set, clearing it (`PRINT_NOW`) or not (`DONE`) -/
  printNow : σ → Bool × σ
  done : σ → Bool × σ

end InotifyTools
