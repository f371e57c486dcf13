import InotifyTools.Proofs.EventStrings
import InotifyTools.Proofs.Runs

set_option autoImplicit false

/-! # Formats as tokens

A format is a list of tokens, and each of them stands for some text. What a call of `snprintf` does
is to lay the texts out one behind the other for as long as there is room. -/

namespace InotifyTools

variable {σ : Type}

/-! ## Tokens -/

inductive Token
  /-- A byte of the format, or `%%`, `%0` or `%n`. -/
  | byte (c : UInt8)
  /-- `%w` -/
  | dirname
  /-- `%f` -/
  | eventname
  /-- `%c` -/
  | cookie
  /-- `%e`, or `%Xe` with a separator of its own. -/
  | events (sep : UInt8)
  /-- `%T` -/
  | time
  /-- Any other `%X`. -/
  | unknown (ch1 : UInt8)
  /-- A `%` at the end. -/
  | lone
deriving DecidableEq

/-- The token of a conversion that needs no look at the following byte. -/
def Token.ofConversion (ch1 : UInt8) : Token :=
  if ch1 = 0x25 then .byte 0x25
  else if ch1 = 0x30 then .byte 0
  else if ch1 = 0x6e then .byte 0x0a
  else if ch1 = 0x77 then .dirname
  else if ch1 = 0x66 then .eventname
  else if ch1 = 0x63 then .cookie
  else if ch1 = 0x65 then .events 0x2c
  else .time

/-- A format read from left to right. -/
def tokens : Bytes → List Token
  | [] => []
  | [c] => if c = 0x25 then [.lone] else [.byte c]
  | c :: ch1 :: fmt =>
      if c ≠ 0x25 then .byte c :: tokens (ch1 :: fmt)
      else if isConversion ch1 then .ofConversion ch1 :: tokens fmt
      else
        match fmt with
        | [] => [.unknown ch1]
        | ch2 :: fmt' =>
            if ch2 = 0x65 then .events ch1 :: tokens fmt' else .unknown ch1 :: tokens (ch2 :: fmt')

/-! ## Segments -/

/-- What a token stands for in one call. The kinds differ in how they are cut off. -/
inductive Segment
  | byte (c : UInt8)
  | unknown (ch1 : UInt8)
  | dirname (t : Bytes)
  | cookie (c : UInt32)
  | copied (t : Bytes)
  /-- A `%` at the end, or a time that `strftime` makes nothing of. -/
  | invalid

def Segment.text : Segment → Option Bytes
  | byte c => some [c]
  | unknown ch1 => some [0x25, ch1]
  | dirname t | copied t => some t
  | cookie c => some (hexDigits c.toNat)
  | invalid => none

/-- The text of a list of segments, if none is invalid. -/
def expand : List Segment → Option Bytes
  | [] => some []
  | s :: ss => do return (← s.text) ++ (← expand ss)

/-- The segment of a token. The time is asked for where the token stands. -/
def Token.segment [Sys σ] (path : EventPath) (ev : Event) (timefmt : Option CString) :
    Token → σ → Segment × σ
  | byte c, os => (.byte c, os)
  | dirname, os => (.dirname path.dirname, os)
  | eventname, os => (.copied path.eventname, os)
  | cookie, os => (.cookie ev.cookie, os)
  | events sep, os => (.copied (eventString ev.mask.toInt32 sep), os)
  | time, os =>
      match timefmt with
      | none => (.copied [], os)
      | some tf =>
          (match (Sys.strftimeNow tf os).1 with
            | some t => .copied t
            | none => .invalid, (Sys.strftimeNow tf os).2)
  | unknown ch1, os => (.unknown ch1, os)
  | lone, os => (.invalid, os)

def segments [Sys σ] (path : EventPath) (ev : Event) (timefmt : Option CString) :
    List Token → σ → List Segment
  | [], _ => []
  | t :: ts, os =>
      (t.segment path ev timefmt os).1 ::
        segments path ev timefmt ts (t.segment path ev timefmt os).2

/-! ## Laying them out -/

/-- Write a segment at the cursor, with `room` bytes left. -/
def Segment.place (room : Nat) (o : OutCursor) : Segment → Option OutCursor
  | byte c => some { buf := o.buf.set o.ind.toNat c, ind := o.ind + 1 }
  | unknown ch1 => some ((o.putIfRoom 0x25).putIfRoom ch1)
  | dirname t =>
      if t.length ≤ room then
        some { buf := strncpy o.buf o.ind t t.length, ind := o.ind + UInt32.ofNat t.length }
      else some o
  | cookie c =>
      let s := hexDigits c.toNat
      let n := min s.length (room - 1)
      some { buf := (o.buf.blit o.ind.toNat (s.take n)).set (o.ind.toNat + n) 0
             ind := o.ind + UInt32.ofNat s.length }
  | copied t => some (o.copy t room)
  | invalid => none

def layout (size : Int) : List Segment → OutCursor → ScanEnd × OutCursor
  | [], o => (.done, o)
  | s :: ss, o =>
      if ¬ (o.ind.toNat : Int) < size - 1 then (.done, o)
      else
        match s.place (size - o.ind.toNat).toNat o with
        | some o => layout size ss o
        | none => (.stop o.ind.toInt32, o)

variable {path : EventPath} {ev : Event}

/-- Copying the directory part is copying as many bytes of the whole name. -/
theorem strncpy_dirname (h : path.dirnamelen ≤ path.filename.length) (buf : Mem) (ind : UInt32) :
    strncpy buf ind path.filename path.dirnamelen
      = strncpy buf ind path.dirname path.dirname.length := by
  have hlen : path.dirname.length = path.dirnamelen := List.length_take_of_le h
  unfold strncpy
  rw [hlen]
  dsimp only
  split
  · rfl
  · funext i
    unfold Mem.write
    split
    · next hi =>
        have hlt : i - ind.toNat < path.dirnamelen := by omega
        dsimp only
        rw [EventPath.dirname, List.getD_eq_getElem?_getD, List.getD_eq_getElem?_getD,
          List.getElem?_take_of_lt hlt]
    · rfl

theorem put_run {o : OutCursor} (h : o.ind.toNat < maxStrlen) (c : UInt8) (w : World σ) :
    o.put c w = .ok ({ buf := o.buf.set o.ind.toNat c, ind := o.ind + 1 }, w) := by
  rw [OutCursor.put, Prog.guard, if_pos (decide_eq_true h)]
  rfl

theorem putHex_run {o : OutCursor} {room : Nat} (hpos : 0 < room)
    (h : o.ind.toNat + room ≤ maxStrlen) (c : UInt32) (w : World σ) :
    ∃ o', o.putHex c room w = .ok (o', w) ∧ (Segment.cookie c).place room o = some o' := by
  refine ⟨_, ?_, rfl⟩
  unfold OutCursor.putHex
  have hfits : o.ind.toNat + min (hexDigits c.toNat).length (room - 1) < maxStrlen := by omega
  rw [Prog.guard, if_pos (decide_eq_true hfits)]
  rfl

variable [Sys σ]

theorem timeString_run (path : EventPath) (ev : Event) (w : World σ) : ∃ w', timeString w = .ok
      (((Token.time.segment path ev w.lib.timefmt w.os).1.text), w') ∧
    w'.os = (Token.time.segment path ev w.lib.timefmt w.os).2 ∧ w'.lib = w.lib := by
  unfold timeString
  rw [getLib_bind]
  dsimp only [Token.segment]
  cases w.lib.timefmt with
  | none => exact ⟨w, rfl, rfl, rfl⟩
  | some tf =>
      refine ⟨{ w with os := (Sys.strftimeNow tf w.os).2 }, ?_, rfl, rfl⟩
      dsimp only
      cases hnow : (Sys.strftimeNow tf w.os).1 with
      | none => exact congrArg (fun t => Except.ok (t, _)) hnow
      | some t => exact congrArg (fun t => Except.ok (t, _)) hnow

/-- A time is copied, if there is one. -/
theorem time_place (timefmt : Option CString) (os : σ) (room : Nat) (o : OutCursor) :
    (Token.time.segment path ev timefmt os).1.place room o
      = (Token.time.segment path ev timefmt os).1.text.map fun t => o.copy t room := by
  dsimp only [Token.segment]
  cases timefmt with
  | none => rfl
  | some tf =>
      dsimp only
      cases (Sys.strftimeNow tf os).1 with
      | none => rfl
      | some t => rfl

/-- A conversion places the segment of its token. -/
theorem conversion_run (h : path.dirnamelen ≤ path.filename.length) (ev : Event) (ch1 : UInt8)
    {room : Nat} {o : OutCursor} (hpos : 0 < room) (hroom : o.ind.toNat + room ≤ maxStrlen)
    (w : World σ) :
    ∃ w', conversion path ev ch1 room o w = .ok
        (((Token.ofConversion ch1).segment path ev w.lib.timefmt w.os).1.place room o, w') ∧
      w'.os = ((Token.ofConversion ch1).segment path ev w.lib.timefmt w.os).2 ∧
      w'.lib.timefmt = w.lib.timefmt := by
  have hind : o.ind.toNat < maxStrlen := by omega
  unfold conversion Token.ofConversion
  split
  · exact ⟨w, Prog.bind_run_ok (put_run hind _ w), rfl, rfl⟩
  split
  · exact ⟨w, Prog.bind_run_ok (put_run hind _ w), rfl, rfl⟩
  split
  · exact ⟨w, Prog.bind_run_ok (put_run hind _ w), rfl, rfl⟩
  split
  · have hlen : path.dirname.length = path.dirnamelen := List.length_take_of_le h
    refine ⟨w, ?_, rfl, rfl⟩
    rw [strncpy_dirname h]
    dsimp only [Token.segment, Segment.place]
    rw [hlen]
    split
    · rfl
    · rfl
  split
  · exact ⟨w, rfl, rfl, rfl⟩
  split
  · obtain ⟨o', hrun, hplace⟩ := putHex_run hpos hroom ev.cookie w
    refine ⟨w, ?_, rfl, rfl⟩
    rw [Prog.bind_run_ok hrun]
    exact congrArg (fun p => Except.ok (p, w)) hplace.symm
  split
  · obtain ⟨m, hrun⟩ := eventToStrSep_run ev.mask.toInt32 0x2c w
    exact ⟨_, Prog.bind_run_ok hrun, rfl, rfl⟩
  · obtain ⟨w', hrun, hos, hlib⟩ := timeString_run path ev w
    refine ⟨w', ?_, hos, congrArg _ hlib⟩
    rw [Prog.bind_run_ok hrun, time_place]
    cases (Token.time.segment path ev w.lib.timefmt w.os).1.text with
    | none => rfl
    | some t => rfl

/-- Without room, the scan is over. -/
theorem snprintfScan_done {size : Int} {o : OutCursor} (hfull : ¬ (o.ind.toNat : Int) < size - 1)
    (fmt : Bytes) (w : World σ) : snprintfScan path ev size fmt o w = .ok ((.done, o), w) := by
  unfold snprintfScan
  split
  · rfl
  · rw [if_pos hfull]
    rfl
  · rw [if_pos hfull]
    rfl

/-- Without room, nothing is laid out. -/
theorem snprintfScan_full {size : Int} {o : OutCursor} (hfull : ¬ (o.ind.toNat : Int) < size - 1)
    (fmt : Bytes) (ss : List Segment) (w : World σ) :
    ∃ w', snprintfScan path ev size fmt o w = .ok (layout size ss o, w') := by
  have hlayout : layout size ss o = (.done, o) := by
    cases ss with
    | nil => rfl
    | cons s ss => exact if_pos hfull
  rw [hlayout]
  exact ⟨w, snprintfScan_done hfull fmt w⟩

/-- **The scan of a format lays out its segments.** -/
theorem snprintfScan_run (h : path.dirnamelen ≤ path.filename.length) (ev : Event) {size : Int}
    (hsize : size ≤ maxStrlen) (fmt : Bytes) (o : OutCursor) (w : World σ) :
    ∃ w', snprintfScan path ev size fmt o w =
      .ok (layout size (segments path ev w.lib.timefmt (tokens fmt) w.os) o, w') := by
  fun_induction tokens fmt generalizing o w with
  | case1 => exact ⟨w, rfl⟩
  -- a lone `%` at the end
  | case2 =>
      by_cases hroom : (o.ind.toNat : Int) < size - 1
      · unfold snprintfScan segments layout
        rw [if_neg (not_not.2 hroom), if_neg (not_not.2 hroom), if_pos rfl]
        exact ⟨_, rfl⟩
      · exact snprintfScan_full hroom _ _ w
  | case3 c hc =>
      by_cases hroom : (o.ind.toNat : Int) < size - 1
      · unfold snprintfScan segments layout
        rw [if_neg (not_not.2 hroom), if_neg (not_not.2 hroom), if_neg hc]
        exact ⟨w, Prog.bind_run_ok (put_run (by omega) c w)⟩
      · exact snprintfScan_full hroom _ _ w
  | case4 c ch1 fmt hc ih =>
      by_cases hroom : (o.ind.toNat : Int) < size - 1
      · unfold snprintfScan segments layout
        rw [if_neg (not_not.2 hroom), if_neg (not_not.2 hroom), if_pos hc]
        obtain ⟨w', hrun⟩ := ih { buf := o.buf.set o.ind.toNat c, ind := o.ind + 1 } w
        exact ⟨w', (Prog.bind_run_ok (put_run (by omega) c w)).trans hrun⟩
      · exact snprintfScan_full hroom _ _ w
  | case5 c ch1 fmt hc hconv ih =>
      by_cases hroom : (o.ind.toNat : Int) < size - 1
      · unfold snprintfScan segments layout
        rw [if_neg (not_not.2 hroom), if_neg (not_not.2 hroom), if_neg hc, if_pos hconv]
        have hpos : 0 < (size - o.ind.toNat).toNat := by omega
        have hfits : o.ind.toNat + (size - o.ind.toNat).toNat ≤ maxStrlen := by omega
        obtain ⟨w₁, hrun, hos, htime⟩ := conversion_run h ev ch1 hpos hfits w
        rw [Prog.bind_run_ok hrun]
        cases (((Token.ofConversion ch1).segment path ev w.lib.timefmt w.os).1.place
            (size - o.ind.toNat).toNat o) with
        | none => exact ⟨_, rfl⟩
        | some o' =>
            obtain ⟨w', hrest⟩ := ih o' w₁
            rw [htime, hos] at hrest
            exact ⟨w', hrest⟩
      · exact snprintfScan_full hroom _ _ w
  | case6 c ch1 hc hconv =>
      by_cases hroom : (o.ind.toNat : Int) < size - 1
      · unfold snprintfScan segments layout
        rw [if_neg (not_not.2 hroom), if_neg (not_not.2 hroom), if_neg hc, if_neg hconv]
        exact ⟨w, rfl⟩
      · exact snprintfScan_full hroom _ _ w
  -- `%.e`, with a separator of its own
  | case7 c ch1 hc hconv fmt' ih =>
      by_cases hroom : (o.ind.toNat : Int) < size - 1
      · unfold snprintfScan segments layout
        rw [if_neg (not_not.2 hroom), if_neg (not_not.2 hroom), if_neg hc, if_neg hconv]
        dsimp only
        rw [if_pos rfl]
        obtain ⟨m, hrun⟩ := eventToStrSep_run ev.mask.toInt32 ch1 w
        rw [Prog.bind_run_ok hrun]
        exact ih (o.copy (eventString ev.mask.toInt32 ch1) (size - o.ind.toNat).toNat) _
      · exact snprintfScan_full hroom _ _ w
  | case8 c ch1 hc hconv ch2 fmt' hch ih =>
      by_cases hroom : (o.ind.toNat : Int) < size - 1
      · unfold snprintfScan segments layout
        rw [if_neg (not_not.2 hroom), if_neg (not_not.2 hroom), if_neg hc, if_neg hconv]
        dsimp only
        rw [if_neg hch]
        exact ih ((o.putIfRoom 0x25).putIfRoom ch1) w
      · exact snprintfScan_full hroom _ _ w

/-! ## What a segment leaves behind -/

/-- How far a segment moves the cursor. -/
def Segment.advance (room : Nat) : Segment → Nat
  | byte _ => 1
  | unknown _ => 2
  | dirname t => if t.length ≤ room then t.length else 0
  | cookie c => (hexDigits c.toNat).length
  | copied t => t.length
  | invalid => 0

/-- The bytes of its text that a segment leaves at the cursor. -/
def Segment.shown (room : Nat) : Segment → Bytes
  | byte c => [c]
  | unknown ch1 => [0x25, ch1]
  | dirname t => if t.length ≤ room then t else []
  | cookie c => (hexDigits c.toNat).take (room - 1)
  | copied t => t.take room
  | invalid => []

/-- `o` has become `o'` by leaving `t` at the cursor and changing nothing outside the `room`. -/
structure WritesAt (room : Nat) (o : OutCursor) (t : Bytes) (o' : OutCursor) : Prop where
  frame : ∀ i, i < o.ind.toNat ∨ o.ind.toNat + room ≤ i → o'.buf i = o.buf i
  shown : o'.buf.slice o.ind.toNat t.length = t

variable {room : Nat} {o o' : OutCursor} {s : Segment}

/-- Bytes that fit are written where the cursor is. -/
theorem writesAt_blit {t : Bytes} (h : t.length ≤ room) (ind : UInt32) :
    WritesAt room o t { buf := o.buf.blit o.ind.toNat t, ind } where
  frame i hi := by
    rcases hi with hi | hi
    · exact Mem.blit_of_lt hi
    · exact Mem.blit_of_ge (by omega)
  shown := Mem.slice_blit ..

/-- Copying `n` bytes inside the buffer leaves as many bytes of the text. -/
theorem writesAt_strncpy {n : Nat} (t : Bytes) (hn : n ≤ room) (h : o.ind.toNat + room ≤ maxStrlen)
    (ind : UInt32) : WritesAt room o (t.take n) { buf := strncpy o.buf o.ind t n, ind } := by
  have hbuf : strncpy o.buf o.ind t n = o.buf.write o.ind.toNat n (t.getD · 0) := by
    unfold strncpy
    dsimp only
    split
    · next hfull =>
        have hzero : n = 0 := by omega
        funext i
        rw [hzero, Mem.write, if_neg (by omega)]
    · rw [Nat.min_eq_left (by omega), Nat.add_sub_cancel_left]
  constructor
  · intro i hi
    dsimp only
    rw [hbuf]
    rcases hi with hi | hi
    · exact Mem.write_of_lt hi
    · exact Mem.write_of_ge (by omega)
  · dsimp only
    rw [hbuf, Mem.slice_eq_iff]
    intro i hi
    rw [List.length_take] at hi
    have hlt : i < t.length := by omega
    rw [Mem.write_of_mem (by omega), List.getElem_take, List.getD_eq_getElem?_getD,
      List.getElem?_eq_getElem hlt, Option.getD_some]

theorem place_unknown (h : o.ind.toNat + 1 < maxStrlen) (ch1 : UInt8) :
    (Segment.unknown ch1).place room o
      = some { buf := o.buf.blit o.ind.toNat [0x25, ch1], ind := o.ind + 2 } := by
  have hsize : maxStrlen = 4096 := rfl
  have hnext : (o.ind + 1).toNat = o.ind.toNat + 1 := by
    rw [UInt32.toNat_add]
    exact Nat.mod_eq_of_lt (by simp; omega)
  have hind : o.ind + 1 + 1 = o.ind + 2 := by rw [UInt32.add_assoc]; rfl
  have hbuf : (o.buf.set o.ind.toNat 0x25).set (o.ind.toNat + 1) ch1
      = o.buf.blit o.ind.toNat ([0x25] ++ [ch1]) := by
    rw [Mem.set_eq_blit, Mem.set_eq_blit, Mem.blit_append]
    rfl
  have hfirst : o.putIfRoom 0x25 = { buf := o.buf.set o.ind.toNat 0x25, ind := o.ind + 1 } :=
    if_pos (by omega)
  have hsecond : ((o.ind + 1).toNat) < maxStrlen := by omega
  rw [Segment.place, hfirst, OutCursor.putIfRoom, if_pos hsecond, hnext, hbuf, hind]
  rfl

theorem place_writesAt (hroom : 1 < room) (h : o.ind.toNat + room ≤ maxStrlen)
    (hplace : s.place room o = some o') : WritesAt room o (s.shown room) o' := by
  cases s with
  | byte c =>
      cases hplace
      rw [Mem.set_eq_blit]
      exact writesAt_blit (t := [c]) hroom.le _
  | unknown ch1 =>
      rw [place_unknown (by omega)] at hplace
      cases hplace
      exact writesAt_blit (t := [0x25, ch1]) hroom _
  | dirname t =>
      dsimp only [Segment.place, Segment.shown] at hplace ⊢
      by_cases hfits : t.length ≤ room
      · rw [if_pos hfits] at hplace ⊢
        cases hplace
        have hwrites := writesAt_strncpy t hfits h (o.ind + UInt32.ofNat t.length)
        rwa [List.take_length] at hwrites
      · rw [if_neg hfits] at hplace ⊢
        cases hplace
        exact ⟨fun _ _ => rfl, rfl⟩
  | cookie c =>
      cases hplace
      dsimp only [Segment.shown]
      have htake : (hexDigits c.toNat).take (min (hexDigits c.toNat).length (room - 1))
          = (hexDigits c.toNat).take (room - 1) := by
        rw [List.take_eq_take_iff]
        omega
      have hlen : ((hexDigits c.toNat).take (room - 1)).length
          = min (hexDigits c.toNat).length (room - 1) := by
        rw [List.length_take, Nat.min_comm]
      have hwrites : WritesAt room o ((hexDigits c.toNat).take (room - 1))
          { buf := o.buf.blit o.ind.toNat ((hexDigits c.toNat).take (room - 1)), ind := 0 } :=
        writesAt_blit (by omega) 0
      rw [htake]
      constructor
      · intro i hi
        dsimp only
        rw [← hwrites.frame i hi, Mem.set]
        rcases hi with hi | hi
        · exact Mem.write_of_lt (by omega)
        · exact Mem.write_of_ge (by omega)
      · dsimp only
        -- the terminating NUL stands behind what is shown
        rw [Mem.set, Mem.slice_write_of_disjoint (.inl (by omega))]
        exact hwrites.shown
  | copied t =>
      cases hplace
      exact writesAt_strncpy t le_rfl h _
  | invalid => cases hplace

theorem place_ind (hroom : 1 < room) (h : o.ind.toNat + room ≤ maxStrlen)
    (hplace : s.place room o = some o') : o'.ind = o.ind + UInt32.ofNat (s.advance room) := by
  cases s with
  | byte c =>
      cases hplace
      rfl
  | unknown ch1 =>
      rw [place_unknown (by omega)] at hplace
      cases hplace
      rfl
  | dirname t =>
      dsimp only [Segment.place, Segment.advance] at hplace ⊢
      by_cases hfits : t.length ≤ room
      · rw [if_pos hfits] at hplace ⊢
        cases hplace
        rfl
      · rw [if_neg hfits] at hplace ⊢
        cases hplace
        exact (UInt32.add_zero _).symm
  | cookie c =>
      cases hplace
      rfl
  | copied t =>
      cases hplace
      rfl
  | invalid => cases hplace

theorem place_eq_none_iff (s : Segment) (room : Nat) (o : OutCursor) :
    s.place room o = none ↔ s.text = none := by
  cases s with
  | dirname t =>
      dsimp only [Segment.place, Segment.text]
      split <;> simp
  | _ => simp [Segment.place, Segment.text]

/-! ## Segments that fit -/

/-- A segment fits with all its text. The hexadecimal form of a cookie wants one byte more. -/
def Segment.Fits (room : Nat) : Segment → Prop
  | cookie c => (hexDigits c.toNat).length < room
  | s => ∀ t ∈ s.text, t.length ≤ room

theorem Segment.Fits.shown {t : Bytes} (h : s.Fits room) (htext : s.text = some t) :
    s.shown room = t ∧ s.advance room = t.length := by
  cases s with
  | dirname t' =>
      cases htext
      have hlen : t.length ≤ room := h t rfl
      exact ⟨if_pos hlen, if_pos hlen⟩
  | cookie c =>
      cases htext
      exact ⟨List.take_of_length_le (Nat.le_sub_one_of_lt h), rfl⟩
  | copied t' =>
      cases htext
      exact ⟨List.take_of_length_le (h t rfl), rfl⟩
  | invalid => cases htext
  | _ =>
      cases htext
      exact ⟨rfl, rfl⟩

/-- A text with a byte to spare fits. -/
theorem Segment.fits_of_lt {t : Bytes} (htext : s.text = some t) (h : t.length < room) :
    s.Fits room := by
  have hall : ∀ t' ∈ s.text, t'.length ≤ room := by
    rw [htext]
    rintro _ ⟨⟩
    exact h.le
  cases s with
  | cookie c =>
      cases htext
      exact h
  | _ => exact hall

theorem Segment.Fits.length_le {t : Bytes} (h : s.Fits room) (htext : s.text = some t) :
    t.length ≤ room := by
  cases s with
  | cookie c =>
      cases htext
      exact Nat.le_of_lt h
  | _ => exact h t htext

theorem toNat_add_ofNat {ind : UInt32} {n : Nat} (h : ind.toNat + n < 2 ^ 32) :
    (ind + UInt32.ofNat n).toNat = ind.toNat + n := by
  rw [UInt32.toNat_add, UInt32.toNat_ofNat_of_lt' (show n < 2 ^ 32 by omega)]
  exact Nat.mod_eq_of_lt h

/-- A segment that fits extends what stands before the cursor by its text. -/
theorem place_fits {t : Bytes} (hroom : 1 < room) (h : o.ind.toNat + room ≤ maxStrlen)
    (htext : s.text = some t) (hfits : s.Fits room) :
    ∃ o', s.place room o = some o' ∧ o'.ind.toNat = o.ind.toNat + t.length ∧
      o'.buf.slice 0 (o.ind.toNat + t.length) = o.buf.slice 0 o.ind.toNat ++ t := by
  obtain ⟨o', hplace⟩ := Option.ne_none_iff_exists'.1
    (mt (place_eq_none_iff s room o).1 (by rw [htext]; exact nofun))
  obtain ⟨hshown, hadvance⟩ := hfits.shown htext
  have hsize : maxStrlen = 4096 := rfl
  have hlen := hfits.length_le htext
  have hwrites := place_writesAt hroom h hplace
  have hind := place_ind hroom h hplace
  rw [hshown] at hwrites
  rw [hadvance] at hind
  refine ⟨o', hplace, ?_, ?_⟩
  · rw [hind, toNat_add_ofNat (by omega)]
  · rw [Mem.slice_append, Nat.zero_add, hwrites.shown]
    congr 1
    exact Mem.slice_congr fun i hi => hwrites.frame _ (.inl (by omega))

end InotifyTools
