import InotifyTools.Implementation.Handle

set_option autoImplicit false

/-! # Event lists

From event names to masks: what `--event` and the sort options are read with. -/

namespace InotifyTools

variable {σ : Type} [Sys σ]

/-! ## ASCII letters -/

def isAsciiAlphabetic (b : UInt8) : Bool := (0x41 ≤ b ∧ b ≤ 0x5a) ∨ (0x61 ≤ b ∧ b ≤ 0x7a)

def toAsciiLowercase (b : UInt8) : UInt8 := if 0x41 ≤ b ∧ b ≤ 0x5a then b + 0x20 else b

/-- Equality up to the case of ASCII letters. -/
def eqIgnoreAsciiCase (a b : Bytes) : Bool := a.map toAsciiLowercase = b.map toAsciiLowercase

/-! ## Names -/

/-- The names `onestr_to_event` knows. -/
def eventTable : List (Bytes × Int32) :=
  [(ascii "ACCESS", inAccess),
   (ascii "MODIFY", inModify),
   (ascii "ATTRIB", inAttrib),
   (ascii "CLOSE_WRITE", inCloseWrite),
   (ascii "CLOSE_NOWRITE", inCloseNowrite),
   (ascii "OPEN", inOpen),
   (ascii "MOVED_FROM", inMovedFrom),
   (ascii "MOVED_TO", inMovedTo),
   (ascii "CREATE", inCreate),
   (ascii "DELETE", inDelete),
   (ascii "DELETE_SELF", inDeleteSelf),
   (ascii "UNMOUNT", inUnmount),
   (ascii "Q_OVERFLOW", inQOverflow),
   (ascii "IGNORED", inIgnored),
   (ascii "CLOSE", inClose),
   (ascii "MOVE_SELF", inMoveSelf),
   (ascii "MOVE", inMove),
   (ascii "ISDIR", inIsdir),
   (ascii "ONESHOT", inOneshot),
   (ascii "ALL_EVENTS", inAllEvents)]

/-- Convert a single event name (case insensitive, without `IN_`) to its mask; 0 for empty, -1 for
    unknown. -/
def onestrToEvent (event : Bytes) : Int32 :=
  if event.isEmpty then 0
  else ((eventTable.find? fun e => eqIgnoreAsciiCase e.1 event).map Prod.snd).getD (-1)

/-! ## Lists -/

def eventstrSize : Nat := 4096

/-- The loop over the elements: `event1` is what is left, `ret` the mask so far. Every element takes
    at least one byte, so the length of the string is fuel enough. -/
def strToEventElements (sep : UInt8) : Nat → Bytes → Int32 → M σ Int32
  | 0, _, ret => return ret
  | fuel + 1, event1, ret => do
      if event1.isEmpty then
        return ret
      let event2 := event1.findIdx? (· = sep)
      let len ← (match event2 with
        | some p => do
            niceassert (p < eventstrSize) 1930 "len < eventstr_size"
              "malformed event string (very long)"
            return p
        | none => return event1.length)
      let len := if len > eventstrSize - 1 then eventstrSize - 1 else len
      let ret1 := onestrToEvent (event1.take len)
      if ret1 = 0 ∨ ret1 = -1 then
        return ret1
      match event2 with
      | none => return ret ||| ret1
      | some p =>
          -- jump over the separator
          let event1 := event1.drop (p + 1)
          if event1.isEmpty then
            return 0
          strToEventElements sep fuel event1 (ret ||| ret1)

/-- Convert `sep`-separated event names to a mask. Returns 0 if `event` is empty or contains an empty
    element, -1 if an element is unknown or `sep` is a letter, '_' or NUL. -/
def strToEventSep (event : Option Bytes) (sep : UInt8) : M σ Int32 := do
  if sep = 0 ∨ sep = 0x5f ∨ isAsciiAlphabetic sep then
    return -1
  match event with
  | none => return 0
  | some event =>
      -- Treat the input as a C string.
      let event := event.takeWhile (· ≠ 0)
      if event.isEmpty then
        return 0
      strToEventElements sep event.length event 0

/-- Convert comma-separated event names to a mask. -/
def strToEvent (event : Option Bytes) : M σ Int32 := strToEventSep event 0x2c

end InotifyTools
