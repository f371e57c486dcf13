import InotifyTools.Base.Memory
import InotifyTools.Implementation.Consts
import Std.Data.TreeMap.Lemmas

set_option autoImplicit false

/-! # Byte-level helpers for fanotify file identifiers (`fid.rs`)

A fid is the raw bytes of a kernel `fanotify_event_info_fid` record: `info_type` at 0, the 16-bit
record length at 2, the fsid at 4, and from 12 on a `struct file_handle` (`handle_bytes`,
`handle_type`, then the handle), optionally followed by a NUL-terminated name. Watches are keyed by
the first `hdr.len` bytes. -/

namespace InotifyTools.Fid

/-- The byte at `off`, 0 past the end. -/
def get (f : Bytes) (off : Nat) : UInt8 := f.getD off 0

def infoType (f : Bytes) : UInt8 := get f 0

def setInfoType (f : Bytes) (t : UInt8) : Bytes := f.set 0 t

def hdrLen (f : Bytes) : UInt16 := UInt16.ofNat (leNat [get f 2, get f 3])

def setHdrLen (f : Bytes) (len : UInt16) : Bytes :=
  (f.set 2 (UInt8.ofNat len.toNat)).set 3 (UInt8.ofNat (len.toNat / 256))

def fsidVal (f : Bytes) (i : Nat) : UInt32 :=
  let o := 4 + 4 * i
  UInt32.ofNat (leNat [get f o, get f (o + 1), get f (o + 2), get f (o + 3)])

def handleBytes (f : Bytes) : UInt32 :=
  UInt32.ofNat (leNat [get f 12, get f 13, get f 14, get f 15])

/-- A 20-byte fid identifying just a filesystem (the fsid with a null file handle); used to hash
    the mount fd of a filesystem. -/
def fsidKey (f : Bytes) : Bytes :=
  let k := (List.range fidHdr).map fun i => if 4 ≤ i ∧ i < 12 then get f i else 0
  setHdrLen (setInfoType k fanEventInfoTypeFid) (UInt16.ofNat fidHdr)

/-- The `struct file_handle` part of a fid, padded to whole words for `open_by_handle_at()`. -/
def alignedHandle (f : Bytes) : Bytes :=
  let n := 8 + (handleBytes f).toNat
  (List.range (((n + 3) / 4 + 1) * 4)).map fun i => if i < n then get f (handleOff + i) else 0

end InotifyTools.Fid

namespace InotifyTools

/-- Lookup key for a fid: `(hdr.len, first hdr.len bytes)`. -/
structure FidKey where
  len : UInt16
  bytes : Bytes
deriving DecidableEq

namespace FidKey

def new (f : Bytes) : FidKey where
  len := Fid.hdrLen f
  bytes := (List.range (Fid.hdrLen f).toNat).map (Fid.get f)

/-- Fid keys are ordered by length, then by bytes. -/
def cmp : FidKey → FidKey → Ordering := compareLex (compareOn len) (compareOn bytes)

instance : Std.TransCmp cmp := inferInstanceAs (Std.TransCmp (compareLex _ _))

instance : Std.LawfulEqCmp cmp where
  compare_self := Std.ReflCmp.compare_self
  eq_of_compare {a b} h := by
    obtain ⟨hl, hb⟩ := Ordering.then_eq_eq.1 (h : (compare a.len b.len).then _ = _)
    cases a
    cases b
    cases Std.LawfulEqOrd.eq_of_compare hl
    cases Std.LawfulEqOrd.eq_of_compare hb
    rfl

end FidKey

end InotifyTools
