import InotifyTools.Implementation.Format

set_option autoImplicit false

/-! # Formatting with every check

`snprintf` once more, by the positions `i` of the source and as a build with overflow checks runs
it: besides indices and slices, every subtraction and every step of the cursor is checked. A check
that fails stops the call. -/

namespace InotifyTools.Checked

variable {σ : Type}

/-- `a - b` of unsigned numbers. -/
def sub (a b : Nat) : M σ Nat := do
  Prog.guard (b ≤ a) .outOfRange
  return a - b

/-- `a + n` in 32 bits. -/
def add (a n : UInt32) : M σ UInt32 := do
  Prog.guard (a.toNat + n.toNat < 2 ^ 32) .outOfRange
  return a + n

/-- `fmt[i]`. -/
def index (fmt : Bytes) (i : Nat) : M σ UInt8 :=
  match fmt[i]? with
  | some c => return c
  | none => Prog.fault .outOfRange

/-- `out.buf[ind] = c; ind += 1`. -/
def put (o : OutCursor) (c : UInt8) : M σ OutCursor := do
  Prog.guard (o.ind.toNat < maxStrlen) .outOfRange
  return { buf := o.buf.set o.ind.toNat c, ind := ← add o.ind 1 }

/-- `strncpy(&mut out.buf, ind, src, n); ind += len`. -/
def strncpy (o : OutCursor) (src : Bytes) (n len : Nat) : M σ OutCursor := do
  let start := o.ind.toNat
  if start ≥ maxStrlen then
    return { o with ind := ← add o.ind (UInt32.ofNat len) }
  let stop := min (start + n) maxStrlen
  Prog.guard (start ≤ stop ∧ stop ≤ maxStrlen) .outOfRange
  let buf := o.buf.write start (stop - start) (src.getD · 0)
  return { buf, ind := ← add o.ind (UInt32.ofNat len) }

def putHex (o : OutCursor) (cookie : UInt32) (room : Nat) : M σ OutCursor := do
  let s := hexDigits cookie.toNat
  let n := min s.length (← sub room 1)
  let start := o.ind.toNat
  Prog.guard (start + n ≤ maxStrlen ∧ n ≤ s.length) .outOfRange
  let buf := o.buf.blit start (s.take n)
  Prog.guard (start + n < maxStrlen) .outOfRange
  return { buf := buf.set (start + n) 0, ind := ← add o.ind (UInt32.ofNat s.length) }

def putIfRoom (o : OutCursor) (c : UInt8) : M σ OutCursor :=
  if o.ind.toNat < maxStrlen then put o c else return o

/-- `i < flen - 2 && fmt[i + 2] == b'e'`. -/
def followedByE (fmt : Bytes) (i : Nat) : M σ Bool := do
  if i < (← sub fmt.length 2) then return (← index fmt (i + 2)) = 0x65
  else return false

variable [Sys σ]

/-- One conversion `%ch1` with `room` bytes left. `none` if the time format is invalid. -/
def conversion (path : EventPath) (ev : Event) (ch1 : UInt8) (room : Nat) (o : OutCursor) :
    M σ (Option OutCursor) := do
  if ch1 = 0x25 then return some (← put o 0x25)
  else if ch1 = 0x30 then return some (← put o 0)
  else if ch1 = 0x6e then return some (← put o 0x0a)
  else if ch1 = 0x77 then
    if path.dirnamelen ≤ room then
      return some (← strncpy o path.filename path.dirnamelen path.dirnamelen)
    else return some o
  else if ch1 = 0x66 then
    return some (← strncpy o path.eventname room path.eventname.length)
  else if ch1 = 0x63 then return some (← putHex o ev.cookie room)
  else if ch1 = 0x65 then
    let s ← eventToStr ev.mask.toInt32
    return some (← strncpy o s room s.length)
  else
    match ← timeString with
    | some t => return some (← strncpy o t room t.length)
    | none => return none

/-- The loop over the positions of a format. -/
def snprintfLoop (path : EventPath) (ev : Event) (size : Int) (fmt : Bytes) :
    Nat → Nat → OutCursor → M σ (ScanEnd × OutCursor)
  | 0, _, _ => Prog.fault .outOfFuel
  | fuel + 1, i, o => do
      if ¬ (i < fmt.length ∧ (o.ind.toNat : Int) < size - 1) then return (.done, o)
      else
        let c ← index fmt i
        if c ≠ 0x25 then snprintfLoop path ev size fmt fuel (i + 1) (← put o c)
        else if i = (← sub fmt.length 1) then
          -- last character is %, invalid
          setError einval
          return (.stop o.ind.toInt32, o)
        else
          let ch1 ← index fmt (i + 1)
          let room ← sub size.toNat o.ind.toNat
          if isConversion ch1 then
            match ← conversion path ev ch1 room o with
            | some o => snprintfLoop path ev size fmt fuel (i + 2) o
            | none => do
                setError einval
                return (.stop o.ind.toInt32, o)
          else
            if ← followedByE fmt i then
              let s ← eventToStrSep ev.mask.toInt32 ch1
              snprintfLoop path ev size fmt fuel (i + 3) (← strncpy o s room s.length)
            else
              -- not a special format character, output it as normal
              snprintfLoop path ev size fmt fuel (i + 2) (← putIfRoom (← putIfRoom o 0x25) ch1)

def snprintf (out : NString) (size : Int32) (ev : Event) (fmt : Option Bytes) :
    M σ (Int32 × NString) := do
  let path ← filenameFromEvent ev
  let fmt := fmt.getD []
  if fmt.isEmpty then
    setError einval
    return (-1, out)
  if fmt.length > maxStrlen ∨ size.toInt > maxStrlen then
    setError emsgsize
    return (-1, out)
  match ← snprintfLoop path ev size.toInt fmt (fmt.length + 1) 0 { buf := out.buf, ind := 0 } with
  | (.done, o) => return ((o.ind - 1).toInt32, { buf := o.buf, len := o.ind })
  | (.stop ret, o) => return (ret, { out with buf := o.buf })

end InotifyTools.Checked
