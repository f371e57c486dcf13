import Mathlib.Tactic.Common

set_option autoImplicit false

/-! # Constants

Event masks are C `int`s because that is how the library passes them around; sizes are byte
counts. -/

namespace InotifyTools

/-! ## inotify event masks (`consts.rs`) -/

def inAccess : Int32 := 0x00000001
def inModify : Int32 := 0x00000002
def inAttrib : Int32 := 0x00000004
def inCloseWrite : Int32 := 0x00000008
def inCloseNowrite : Int32 := 0x00000010
def inClose : Int32 := inCloseWrite ||| inCloseNowrite
def inOpen : Int32 := 0x00000020
def inMovedFrom : Int32 := 0x00000040
def inMovedTo : Int32 := 0x00000080
def inMove : Int32 := inMovedFrom ||| inMovedTo
def inCreate : Int32 := 0x00000100
def inDelete : Int32 := 0x00000200
def inDeleteSelf : Int32 := 0x00000400
def inMoveSelf : Int32 := 0x00000800
def inUnmount : Int32 := 0x00002000
def inQOverflow : Int32 := 0x00004000
def inIgnored : Int32 := 0x00008000
def inDontFollow : Int32 := 0x02000000
def inIsdir : Int32 := 0x40000000
def inOneshot : Int32 := -0x80000000
def inAllEvents : Int32 :=
  inAccess ||| inModify ||| inAttrib ||| inCloseWrite ||| inCloseNowrite ||| inOpen |||
    inMovedFrom ||| inMovedTo ||| inCreate ||| inDelete ||| inDeleteSelf ||| inMoveSelf

/-! ## Sizes (`inotify.rs`) -/

/-- Maximum length of strings produced by the printf-like functions. -/
def maxStrlen : Nat := 4096
def maxEvents : Nat := 4096
/-- `sizeof(struct inotify_event)`. -/
def eventSize : Nat := 16
def pathMax : Nat := 4096
/-- Size of the buffer holding filenames resolved from fanotify fids. -/
def fidnameSize : Nat := pathMax + 512
/-- Bytes of `evbuf`: first half raw kernel data, second half converted events. -/
def evbufSize : Nat := 2 * maxEvents * eventSize
/-- Bytes of the buffer `event_to_str_sep` builds its string in. -/
def evstrSize : Nat := 1024

/-! ## fanotify (`fid.rs`) -/

def fanReportFid : UInt32 := 0x00000200
def fanReportDfidName : UInt32 := 0x00000400 ||| 0x00000800
def fanMarkAdd : UInt32 := 0x00000001
def fanMarkDontFollow : UInt32 := 0x00000004
def fanMarkInode : UInt32 := 0x00000000
def fanMarkFilesystem : UInt32 := 0x00000100
def fanEventOnChild : Int32 := 0x08000000

def fanEventInfoTypeFid : UInt8 := 1
def fanEventInfoTypeDfidName : UInt8 := 2
def fanEventInfoTypeDfid : UInt8 := 3

/-- `sizeof(struct fanotify_event_fid)`. -/
def fidHdr : Nat := 20
/-- Offset of the `struct file_handle` inside a fid. -/
def handleOff : Nat := 12
/-- Maximum file handle size the library encodes itself. -/
def maxFidLen : Nat := 20
/-- `sizeof(struct fanotify_event_metadata)`. -/
def metaLen : Nat := 24

/-! ## The C library -/

/-- `'/'`. -/
def slash : UInt8 := 0x2f

def eacces : Int32 := 13
def einval : Int32 := 22
def eloop : Int32 := 40
def emfile : Int32 := 24
def eperm : Int32 := 1
def emsgsize : Int32 := 90
def enoent : Int32 := 2
def enospc : Int32 := 28
def enotdir : Int32 := 20
def sIfmt : UInt32 := 0xF000
def sIfdir : UInt32 := 0x4000
def atFdcwd : Int32 := -100
def oRdonly : Int32 := 0
def oPath : Int32 := 0x200000
def regExtended : Int32 := 1
def regIcase : Int32 := 2
def regNosub : Int32 := 8

end InotifyTools
