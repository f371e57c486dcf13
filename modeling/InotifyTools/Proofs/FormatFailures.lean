import InotifyTools.Proofs.FormatTruncation
import InotifyTools.Tools.Inotifywait

set_option autoImplicit false

/-! # Which formats report failure

`snprintf` returns the number of bytes written minus one, or -1 for failure. The two meet where
nothing is written, and a failure in the middle of a format returns what has been written so far. -/

namespace InotifyTools

variable {σ : Type} {size : Int} {ss : List Segment} {o : OutCursor}

/-! ## Where the scan ends -/

/-- The scan reaches an invalid segment from the cursor `c` on. -/
def ReachesInvalid (size : Int) : List Segment → UInt32 → Prop
  | [], _ => False
  | s :: ss, c =>
      (c.toNat : Int) < size - 1 ∧
        (s.text = none ∨
          ReachesInvalid size ss (c + UInt32.ofNat (s.advance (size - c.toNat).toNat)))

/-- The bytes that the segments reached add up to. A directory part that does not fit counts
    nothing. -/
def counted (size : Int) : List Segment → UInt32 → Nat
  | [], _ => 0
  | s :: ss, c =>
      if (c.toNat : Int) < size - 1 then
        s.advance (size - c.toNat).toNat +
          counted size ss (c + UInt32.ofNat (s.advance (size - c.toNat).toNat))
      else 0

theorem layout_invalid (hsize : size ≤ maxStrlen) (h : ReachesInvalid size ss o.ind) :
    ∃ o', layout size ss o = (.stop o'.ind.toInt32, o') ∧ (o'.ind.toNat : Int) < size - 1 := by
  induction ss generalizing o with
  | nil => exact h.elim
  | cons s ss ih =>
      obtain ⟨hgoes, h⟩ := h
      unfold layout
      rw [if_neg (not_not.2 hgoes)]
      cases hplace : s.place (size - o.ind.toNat).toNat o with
      | none => exact ⟨o, rfl, hgoes⟩
      | some o₁ =>
          have hind := place_ind (by omega) (by omega) hplace
          rcases h with h | h
          · exact absurd ((place_eq_none_iff s _ o).2 h) (by rw [hplace]; exact Option.some_ne_none o₁)
          · rw [← hind] at h
            exact ih h

theorem layout_counted (hsize : size ≤ maxStrlen) (h : ¬ ReachesInvalid size ss o.ind) :
    ∃ o', layout size ss o = (.done, o') ∧
      o'.ind = o.ind + UInt32.ofNat (counted size ss o.ind) := by
  induction ss generalizing o with
  | nil => exact ⟨o, rfl, (UInt32.add_zero _).symm⟩
  | cons s ss ih =>
      unfold layout counted
      by_cases hgoes : (o.ind.toNat : Int) < size - 1
      · rw [if_neg (not_not.2 hgoes), if_pos hgoes]
        cases hplace : s.place (size - o.ind.toNat).toNat o with
        | none => exact absurd ⟨hgoes, .inl ((place_eq_none_iff s _ o).1 hplace)⟩ h
        | some o₁ =>
            have hind := place_ind (by omega) (by omega) hplace
            have hrest : ¬ ReachesInvalid size ss o₁.ind := by
              rw [hind]
              exact fun hinvalid => h ⟨hgoes, .inr hinvalid⟩
            obtain ⟨o', hlayout, hind'⟩ := ih hrest
            refine ⟨o', hlayout, ?_⟩
            rw [hind', hind, UInt32.ofNat_add, UInt32.add_assoc]
      · rw [if_pos hgoes, if_neg hgoes]
        exact ⟨o, rfl, (UInt32.add_zero _).symm⟩

theorem pred_eq_iff (ind : UInt32) : (ind - 1).toInt32 = -1 ↔ ind = 0 := by
  have hpred : (ind - 1).toInt32.toBitVec = ind.toBitVec - 1#32 := rfl
  have hminus : (-1 : Int32).toBitVec = -1#32 := rfl
  have hzero : (0 : UInt32).toBitVec = 0#32 := rfl
  rw [← Int32.toBitVec_inj, ← UInt32.toBitVec_inj, hpred, hminus, hzero]
  bv_omega

theorem toInt32_ne {ind : UInt32} (h : ind.toNat < maxStrlen) : ind.toInt32 ≠ -1 := by
  have hsize : maxStrlen = 4096 := rfl
  have hbits : ind.toInt32.toBitVec = ind.toBitVec := rfl
  have hminus : (-1 : Int32).toBitVec = -1#32 := rfl
  have hnat : ind.toBitVec.toNat = ind.toNat := rfl
  rw [Ne, ← Int32.toBitVec_inj, hbits, hminus]
  bv_omega

theorem ofNat_eq_zero_iff (n : Nat) : UInt32.ofNat n = 0 ↔ n % 2 ^ 32 = 0 := by
  rw [← UInt32.toNat_inj, UInt32.toNat_ofNat']
  rfl

/-- What is returned for segments that are laid out. -/
theorem formatted_eq_iff (hsize : size ≤ maxStrlen) (out : NString) :
    (formatted size ss out).1 = -1 ↔
      ¬ ReachesInvalid size ss 0 ∧ counted size ss 0 % 2 ^ 32 = 0 := by
  unfold formatted
  by_cases hinvalid : ReachesInvalid size ss 0
  · obtain ⟨o', hlayout, hind⟩ := layout_invalid (o := { buf := out.buf, ind := 0 }) hsize hinvalid
    rw [hlayout]
    constructor
    · exact fun h => absurd h (toInt32_ne (by omega))
    · exact fun h => absurd hinvalid h.1
  · obtain ⟨o', hlayout, hind⟩ := layout_counted (o := { buf := out.buf, ind := 0 }) hsize hinvalid
    rw [hlayout]
    have hind' : o'.ind = UInt32.ofNat (counted size ss 0) := by rw [hind]; exact UInt32.zero_add _
    rw [pred_eq_iff, hind', ofNat_eq_zero_iff]
    exact ⟨fun h => ⟨hinvalid, h⟩, fun h => h.2⟩

/-! ## The shortest line -/

section

variable [Sys σ]

/-- What a token takes of a line at least, at a time. No name of an event is shorter than `OPEN`, of
    which a NUL as separator takes the first byte. -/
def Token.least (timefmt : Option CString) (os : σ) : Token → Nat
  | byte _ | cookie => 1
  | unknown _ => 2
  | events sep => if sep = 0 then 3 else 4
  | time =>
      match timefmt with
      | none => 0
      | some tf => ((Sys.strftimeNow tf os).1.getD []).length
  | dirname | eventname | lone => 0

/-- A token fails at a time: a lone `%`, or a time that `strftime` makes nothing of. -/
def Token.FailsAt (timefmt : Option CString) (os : σ) : Token → Prop
  | lone => True
  | time => ∃ tf ∈ timefmt, (Sys.strftimeNow tf os).1 = none
  | _ => False

/-- The system behind a token. -/
def Token.next (timefmt : Option CString) (os : σ) : Token → σ
  | time =>
      match timefmt with
      | none => os
      | some tf => (Sys.strftimeNow tf os).2
  | _ => os

/-- `Breaks timefmt ts c os`: the tokens being as short as they can be, one that fails begins before the
    last byte of a line, from its byte `c` on. -/
def Breaks (timefmt : Option CString) : List Token → Nat → σ → Prop
  | [], _, _ => False
  | t :: ts, c, os =>
      c + 1 < maxStrlen ∧
        (t.FailsAt timefmt os ∨ Breaks timefmt ts (c + t.least timefmt os) (t.next timefmt os))

/-- Nothing breaks without a lone `%`, if `strftime` always makes something of the time. -/
theorem not_breaks {timefmt : Option CString} {ts : List Token} (hlone : .lone ∉ ts)
    (htime : .time ∈ ts → ∀ tf ∈ timefmt, ∀ os : σ, (Sys.strftimeNow tf os).1.isSome) (c : Nat)
    (os : σ) : ¬ Breaks timefmt ts c os := by
  induction ts generalizing c os with
  | nil => exact id
  | cons t ts ih =>
      rintro ⟨-, h | h⟩
      · cases t with
        | lone => exact hlone List.mem_cons_self
        | time =>
            obtain ⟨tf, htf, hnone⟩ := h
            have hsome := htime List.mem_cons_self tf htf os
            rw [hnone] at hsome
            cases hsome
        | _ => exact h
      · exact ih (fun hmem => hlone (List.mem_cons_of_mem t hmem))
          (fun hmem => htime (List.mem_cons_of_mem t hmem)) _ _ h

variable {path : EventPath} {ev : Event} {timefmt : Option CString}

theorem Token.segment_next (t : Token) (os : σ) :
    (t.segment path ev timefmt os).2 = t.next timefmt os := by
  cases t with
  | time => cases timefmt <;> rfl
  | _ => rfl

theorem Token.segment_failsAt (t : Token) (os : σ) :
    (t.segment path ev timefmt os).1.text = none ↔ t.FailsAt timefmt os := by
  cases t with
  | lone => exact iff_of_true rfl trivial
  | time =>
      cases timefmt with
      | none => exact iff_of_false nofun (by rintro ⟨tf, htf, -⟩; cases htf)
      | some tf =>
          dsimp only [Token.segment]
          cases hnow : (Sys.strftimeNow tf os).1 with
          | none => exact iff_of_true rfl ⟨tf, rfl, hnow⟩
          | some t =>
              refine iff_of_false nofun ?_
              rintro ⟨tf', htf, hnone⟩
              cases htf
              cases hnone.symm.trans hnow
  | _ => exact iff_of_false nofun id

/-- A token takes at least as much as it has to. -/
theorem Token.least_le (t : Token) (os : σ) (room : Nat) :
    t.least timefmt os ≤ (t.segment path ev timefmt os).1.advance room := by
  cases t with
  | byte | unknown | dirname | eventname | lone => first | exact le_rfl | exact Nat.zero_le _
  | cookie => exact length_hexDigits_pos _
  | events sep => exact length_eventString_ge _ sep
  | time =>
      cases timefmt with
      | none => exact Nat.zero_le _
      | some tf =>
          dsimp only [Token.segment, Token.least]
          cases (Sys.strftimeNow tf os).1 <;> exact le_rfl

/-- A text moves the cursor by its length, if it is not a directory part that does not fit. -/
theorem Segment.advance_le (s : Segment) (room : Nat) (hroom : room ≤ maxStrlen)
    (hshort : s.isDirname = false → (s.text.getD []).length + maxStrlen ≤ 2 ^ 32) :
    s.advance room + maxStrlen ≤ 2 ^ 32 := by
  have hsize : maxStrlen = 4096 := rfl
  cases s with
  | dirname t =>
      dsimp only [advance]
      split <;> omega
  | byte | unknown | cookie | copied | invalid => exact hshort rfl

/-- Where a scan comes to a token that fails, so does the shortest line. -/
theorem breaks_of_reaches {ts : List Token} {os : σ} {c : UInt32} {m : Nat}
    (hshort : Short (segments path ev timefmt ts os))
    (h : ReachesInvalid maxStrlen (segments path ev timefmt ts os) c) (hle : m ≤ c.toNat) :
    Breaks timefmt ts m os := by
  have hsize : maxStrlen = 4096 := rfl
  induction ts generalizing os c m with
  | nil => exact h.elim
  | cons t ts ih =>
      obtain ⟨hgoes, h⟩ := h
      refine ⟨by omega, h.imp (t.segment_failsAt os).1 fun h => ?_⟩
      have hnext : (t.segment path ev timefmt os).2 = t.next timefmt os := t.segment_next os
      have hleast : t.least timefmt os ≤ (t.segment path ev timefmt os).1.advance
          ((maxStrlen : Int) - c.toNat).toNat := t.least_le os _
      rw [← hnext]
      -- the cursor of the shortest line is never ahead of that of the scan
      refine ih hshort.tail h ?_
      have hadvance := (t.segment path ev timefmt os).1.advance_le
        ((maxStrlen : Int) - c.toNat).toNat (by omega)
        (hshort (t.segment path ev timefmt os).1 List.mem_cons_self)
      rw [toNat_add_ofNat (by omega)]
      omega

/-- The event with the shortest line. -/
def openEvent : Event := { wd := 0, mask := 0x20, cookie := 0, len := 0, name := [] }

theorem Token.least_openEvent (t : Token) (os : σ) (room : Nat) :
    (t.segment ⟨[], 0, []⟩ openEvent timefmt os).1.advance room = t.least timefmt os := by
  cases t with
  | byte | unknown | eventname | lone => rfl
  | dirname =>
      show (if ([] : Bytes).length ≤ room then ([] : Bytes).length else 0) = 0
      split <;> rfl
  | cookie =>
      show (hexDigits (0 : UInt32).toNat).length = 1
      decide
  | events sep =>
      dsimp only [Token.segment, Token.least, Segment.advance]
      have hnames : maskNames openEvent.mask.toInt32 eventNames = [ascii "OPEN"] := by decide
      rw [eventString, hnames, if_neg (List.cons_ne_nil _ _)]
      split <;> rfl
  | time =>
      cases timefmt with
      | none => rfl
      | some tf =>
          dsimp only [Token.segment, Token.least]
          cases (Sys.strftimeNow tf os).1 <;> rfl

/-- The shortest line is that of an event. -/
theorem reaches_of_breaks (htimes : TimesFit σ) {ts : List Token} {os : σ} {c : UInt32}
    (h : Breaks timefmt ts c.toNat os) :
    ReachesInvalid maxStrlen (segments ⟨[], 0, []⟩ openEvent timefmt ts os) c := by
  have hsize : maxStrlen = 4096 := rfl
  induction ts generalizing os c with
  | nil => exact h
  | cons t ts ih =>
      obtain ⟨hgoes, h⟩ := h
      refine ⟨by omega, h.imp (t.segment_failsAt os).2 fun h => ?_⟩
      rw [t.segment_next, t.least_openEvent]
      refine ih ?_
      have hadvance := (t.segment ⟨[], 0, []⟩ openEvent timefmt os).1.advance_le
        0 (Nat.zero_le _) (t.segment_short htimes (by decide) os)
      rw [t.least_openEvent] at hadvance
      rwa [toNat_add_ofNat (by omega)]

end

/-! ## Calls that fail -/

/-- The format or the size is refused before the format is looked at. -/
def Refused (size : Int32) (fmt : Option Bytes) : Prop :=
  fmt.getD [] = [] ∨ maxStrlen < (fmt.getD []).length ∨ (maxStrlen : Int) < size.toInt

instance (size : Int32) (fmt : Option Bytes) : Decidable (Refused size fmt) :=
  inferInstanceAs (Decidable (_ ∨ _ ∨ _))

variable [Sys σ] {w : World σ} {ev : Event} {fmt : Option Bytes}

/-- The segments of a format for an event. -/
def SegmentsOf (fmt : Option Bytes) (ev : Event) (w : World σ) (ss : List Segment) : Prop :=
  ∃ path w₁, filenameFromEvent ev w = .ok (path, w₁) ∧
    ss = segments path ev w₁.lib.timefmt (tokens (fmt.getD [])) w₁.os

/-- A call fails: it is refused, or the scan reaches a `%` at the end, or a time that `strftime`
    makes nothing of. -/
def Fails (size : Int32) (fmt : Option Bytes) (ev : Event) (w : World σ) : Prop :=
  Refused size fmt ∨ ∃ ss, SegmentsOf fmt ev w ss ∧ ReachesInvalid size.toInt ss 0

/-- A call counts something: the texts that the scan reaches add up to at least one byte, as numbers
    of 32 bits. -/
def CountsSome (size : Int32) (fmt : Option Bytes) (ev : Event) (w : World σ) : Prop :=
  ∃ ss, SegmentsOf fmt ev w ss ∧ counted size.toInt ss 0 % 2 ^ 32 ≠ 0

theorem SegmentsOf.unique {ss ss' : List Segment} (h : SegmentsOf fmt ev w ss)
    (h' : SegmentsOf fmt ev w ss') : ss = ss' := by
  obtain ⟨path, w₁, hpath, rfl⟩ := h
  obtain ⟨path', w₁', hpath', rfl⟩ := h'
  cases hpath.symm.trans hpath'
  rfl

theorem snprintf_refused {path : EventPath} {w₁ : World σ} {size : Int32} (h : Refused size fmt)
    (hpath : filenameFromEvent ev w = .ok (path, w₁)) (out : NString) :
    ∃ w', snprintf out size ev fmt w = .ok ((-1, out), w') := by
  unfold snprintf
  rw [Prog.bind_run_ok hpath]
  by_cases hempty : fmt.getD [] = []
  · rw [if_pos (List.isEmpty_iff.2 hempty)]
    exact ⟨_, rfl⟩
  · rw [if_neg (by rwa [List.isEmpty_iff]), if_pos (h.resolve_left hempty)]
    exact ⟨_, rfl⟩

/-- A call returns -1 if it is refused, or does not fail and counts nothing. -/
theorem snprintf_eq_iff (hw : w.lib.store.WellIndexed) (size : Int32) (fmt : Option Bytes)
    (ev : Event) (out : NString) :
    ∃ ret out' w', snprintf out size ev fmt w = .ok ((ret, out'), w') ∧
      (ret = -1 ↔ Refused size fmt ∨ ¬ Fails size fmt ev w ∧ ¬ CountsSome size fmt ev w) := by
  obtain ⟨path, w₁, hpath, -⟩ := filenameFromEvent_calm ev w hw
  by_cases hrefused : Refused size fmt
  · obtain ⟨w', hrun⟩ := snprintf_refused hrefused hpath out
    exact ⟨-1, out, w', hrun, fun _ => .inl hrefused, fun _ => rfl⟩
  · cases fmt with
    | none => exact absurd (.inl rfl) hrefused
    | some f =>
        have hne : f ≠ [] := fun h => hrefused (.inl h)
        have hlen : f.length ≤ maxStrlen := Nat.not_lt.1 fun h => hrefused (.inr (.inl h))
        have hsize : size.toInt ≤ maxStrlen := Int.not_lt.1 fun h => hrefused (.inr (.inr h))
        have hss : SegmentsOf (some f) ev w (segments path ev w₁.lib.timefmt (tokens f) w₁.os) :=
          ⟨path, w₁, hpath, rfl⟩
        obtain ⟨w', hrun⟩ := snprintf_run hpath hne hlen hsize out
        generalize segments path ev w₁.lib.timefmt (tokens f) w₁.os = ss at hss hrun
        refine ⟨(formatted size.toInt ss out).1, (formatted size.toInt ss out).2, w', hrun, ?_⟩
        rw [formatted_eq_iff hsize]
        constructor
        · rintro ⟨hinvalid, hcounted⟩
          refine .inr ⟨?_, ?_⟩
          · rintro (h | ⟨ss, hss', hinvalid'⟩)
            · exact hrefused h
            · rw [hss'.unique hss] at hinvalid'
              exact hinvalid hinvalid'
          · rintro ⟨ss, hss', hcounted'⟩
            rw [hss'.unique hss] at hcounted'
            exact hcounted' hcounted
        · rintro (h | ⟨hfails, hcounts⟩)
          · exact absurd h hrefused
          · exact ⟨fun h => hfails (.inr ⟨_, hss, h⟩),
              not_not.1 fun h => hcounts ⟨_, hss, h⟩⟩

/-- The result of a call tells success from failure: it is refused, or it does not fail and counts
    something. -/
def TellsApart (size : Int32) (fmt : Option Bytes) (ev : Event) (w : World σ) : Prop :=
  Refused size fmt ∨ ¬ Fails size fmt ev w ∧ CountsSome size fmt ev w

/-- -1 stands for failure exactly where the result tells success from failure. -/
theorem tellsApart_iff {size : Int32} {ret : Int32}
    (h : ret = -1 ↔ Refused size fmt ∨ ¬ Fails size fmt ev w ∧ ¬ CountsSome size fmt ev w) :
    (ret = -1 ↔ Fails size fmt ev w) ↔ TellsApart size fmt ev w := by
  have hrefused : Refused size fmt → Fails size fmt ev w := .inl
  unfold TellsApart
  tauto

/-! ## Printing to a stream -/

/-- A world whose output buffer has been taken. -/
def World.withoutOut (w : World σ) : World σ := { w with lib := { w.lib with printOut := none } }

theorem fprintfTo_run {ret : Int32} {out' : NString} {w₁ : World σ} (file : Stream)
    (h : sprintf (w.lib.printOut.getD NString.new) ev fmt w.withoutOut = .ok ((ret, out'), w₁)) :
    ∃ w', fprintfTo file ev fmt w = .ok (ret, w') ∧ (ret = -1 → w'.os = w₁.os) := by
  unfold fprintfTo
  rw [getLib_bind, Prog.bind_run_ok (rfl : modifyLib _ w = .ok ((), w.withoutOut)),
    Prog.bind_run_ok h]
  by_cases hret : ret = -1
  · dsimp only
    rw [if_neg (not_not.2 hret)]
    exact ⟨_, rfl, fun _ => rfl⟩
  · dsimp only
    rw [if_pos hret]
    exact ⟨_, rfl, fun h => absurd h hret⟩

/-- The fake event that a format is tried on. -/
def fakeEvent : Event :=
  { wd := 0, mask := inAllEvents.toUInt32, cookie := 0, len := 3, name := [] }

/-- The bound of `sprintf`. -/
def fullSize : Int32 := Int32.ofNat maxStrlen

/-- The verdict `ok` on a format is right: it is rejected only if it fails on the fake event, and
    accepted only if it fails on no event, of a name of less than 2^32 - 4096 bytes. -/
def VerdictRight (fmt : Bytes) (ok : Bool) (w : World σ) : Prop :=
  (ok = false → Fails fullSize (some fmt) fakeEvent w.withoutOut) ∧
  (ok = true → ∀ (ev : Event) (path : EventPath) (v v' : World σ), v.lib.store.WellIndexed →
    v.lib.timefmt = w.lib.timefmt → filenameFromEvent ev v = .ok (path, v') →
    path.eventname.length + maxStrlen ≤ 2 ^ 32 → ¬ Fails fullSize (some fmt) ev v)

/-- An event of no watch has its own name alone. -/
theorem filenameFromEvent_unwatched {w' : World σ} {path : EventPath} (hwd : ev.wd = 0)
    (hrun : filenameFromEvent ev w = .ok (path, w')) :
    path = ⟨[], 0, if ev.len > 0 then ev.name else []⟩ := by
  obtain ⟨p, w₁, hptr, hfilename, hlen, -, heventname⟩ := filenameFromEvent_parts hrun
  have hp : p = CString.empty := by
    rw [hwd] at hptr
    obtain ⟨_, w₂, -, hrest⟩ := Prog.bind_ok hptr
    cases hrest
    rfl
  subst hp
  obtain ⟨filename, dirnamelen, eventname⟩ := path
  have hzero : dirnamelen = 0 := Nat.le_zero.1 hlen
  dsimp only at hfilename heventname
  subst hzero
  rw [hfilename, heventname]
  rfl

theorem filenameFromEvent_zero (hi : w.lib.initialized = true) (hwd : ev.wd = 0) :
    filenameFromEvent ev w = .ok (⟨[], 0, if ev.len > 0 then ev.name else []⟩, w) := by
  have hptr : filenameFromWdPtr ev.wd w = .ok (CString.empty, w) := by
    rw [filenameFromWdPtr, Prog.bind_run_ok (assertInit_run hi), hwd]
    rfl
  have hdir : dirnameFromEventPtr ev.wd w = .ok ((CString.empty, 0), w) := by
    rw [dirnameFromEventPtr, Prog.bind_run_ok hptr, getLib_bind]
    cases w.lib.fanotifyMode <;> rfl
  rw [filenameFromEvent, filenameFromEventPtr, Prog.bind_assoc, Prog.bind_run_ok hdir]
  rfl

/-- If a format fails on an event, its shortest line breaks. -/
theorem breaks_of_fails (htimes : TimesFit σ) {fmt : Bytes} (hrefused : ¬ Refused fullSize (some fmt))
    (hw : w.lib.store.WellIndexed) {path : EventPath} {w' : World σ}
    (hpath : filenameFromEvent ev w = .ok (path, w'))
    (hname : path.eventname.length + maxStrlen ≤ 2 ^ 32) (h : Fails fullSize (some fmt) ev w) :
    ∃ os : σ, Breaks w.lib.timefmt (tokens fmt) 0 os := by
  obtain ⟨ss, hss, hreach⟩ := h.resolve_left hrefused
  rw [hss.unique ⟨path, w', hpath, rfl⟩] at hreach
  obtain ⟨_, _, hrun, heffects⟩ := filenameFromEvent_calm ev w hw
  cases hrun.symm.trans hpath
  rw [← heffects.timefmt]
  exact ⟨w'.os, breaks_of_reaches (segments_short htimes hname _ _) hreach le_rfl⟩

/-- If its shortest line breaks, a format fails on the event that has it. -/
theorem fails_of_breaks (htimes : TimesFit σ) (hw : w.lib.store.WellIndexed) {fmt : Bytes} {os : σ}
    (h : Breaks w.lib.timefmt (tokens fmt) 0 os) :
    ∃ v : World σ, v.lib.store.WellIndexed ∧ v.lib.timefmt = w.lib.timefmt ∧
      filenameFromEvent openEvent v = .ok (⟨[], 0, []⟩, v) ∧ Fails fullSize (some fmt) openEvent v := by
  obtain ⟨v, hi, hv, htime, rfl⟩ : ∃ v : World σ, v.lib.initialized = true ∧
      v.lib.store.WellIndexed ∧ v.lib.timefmt = w.lib.timefmt ∧ v.os = os :=
    ⟨{ lib := { w.lib with initialized := true }, os }, rfl, hw, rfl, rfl⟩
  have hpath : filenameFromEvent openEvent v = .ok (⟨[], 0, []⟩, v) := filenameFromEvent_zero hi rfl
  rw [← htime] at h
  exact ⟨v, hv, htime, hpath, .inr ⟨_, ⟨_, _, hpath, rfl⟩, reaches_of_breaks htimes h⟩⟩

/-- The verdict is right where a format is refused at once, or counts something on the fake event and
    its shortest line does not break. -/
theorem verdictRight_iff (htimes : TimesFit σ) (hw : w.lib.store.WellIndexed) {fmt : Bytes} {ret : Int32}
    (hret : ret = -1 ↔ Refused fullSize (some fmt) ∨
      ¬ Fails fullSize (some fmt) fakeEvent w.withoutOut ∧
        ¬ CountsSome fullSize (some fmt) fakeEvent w.withoutOut) :
    VerdictRight fmt (decide (ret ≠ -1)) w ↔ Refused fullSize (some fmt) ∨
      CountsSome fullSize (some fmt) fakeEvent w.withoutOut ∧
        ∀ os : σ, ¬ Breaks w.lib.timefmt (tokens fmt) 0 os := by
  unfold VerdictRight
  rw [decide_eq_false_iff_not, decide_eq_true_iff, not_not]
  have hlen : maxStrlen ≤ 2 ^ 32 := by decide
  constructor
  · rintro ⟨hrejects, haccepts⟩
    by_cases hrefused : Refused fullSize (some fmt)
    · exact .inl hrefused
    · have hne : ret ≠ -1 := fun h => by
        have := hret.1 h
        have := hrejects h
        tauto
      -- a format that is accepted must not fail on the event with the shortest line
      have hstands : ∀ os : σ, ¬ Breaks w.lib.timefmt (tokens fmt) 0 os := fun os hbreaks => by
        obtain ⟨v, hv, htime, hpath, hfails⟩ := fails_of_breaks htimes hw hbreaks
        exact haccepts hne _ _ v v hv htime hpath (by simpa using hlen) hfails
      refine .inr ⟨?_, hstands⟩
      have hw' : w.withoutOut.lib.store.WellIndexed := hw
      obtain ⟨path, w₁, hpath, -⟩ := filenameFromEvent_calm fakeEvent w.withoutOut hw'
      have hname : path.eventname.length + maxStrlen ≤ 2 ^ 32 := by
        rw [filenameFromEvent_unwatched rfl hpath]
        exact hlen
      have hfake : ¬ Fails fullSize (some fmt) fakeEvent w.withoutOut := fun hfails => by
        obtain ⟨os, hbreaks⟩ := breaks_of_fails htimes hrefused hw' hpath hname hfails
        exact hstands os hbreaks
      tauto
  · rintro (hrefused | ⟨hcounts, hstands⟩)
    · exact ⟨fun _ => .inl hrefused, fun hne => absurd (hret.2 (.inl hrefused)) hne⟩
    · refine ⟨fun h => ?_, fun hne ev path v v' hv htime hpath hname hfails => ?_⟩
      · have := hret.1 h
        have hrefused : Refused fullSize (some fmt) →
            Fails fullSize (some fmt) fakeEvent w.withoutOut := .inl
        tauto
      · have hrefused : ¬ Refused fullSize (some fmt) := fun h => hne (hret.2 (.inl h))
        obtain ⟨os, hbreaks⟩ := breaks_of_fails htimes hrefused hv hpath hname hfails
        rw [htime] at hbreaks
        exact hstands os hbreaks

theorem validateFormat_run {ret : Int32} {w₁ : World σ} {fmt : Bytes}
    (h : fprintfTo .devnull fakeEvent (some fmt) w = .ok (ret, w₁)) :
    ∃ w', Inotifywait.validateFormat fmt w = .ok (decide (ret ≠ -1), w') := by
  have hcall : Inotifywait.validateFormat fmt w = (do
      if (← fprintfTo .devnull fakeEvent (some fmt)) = -1 then
        ceprint [.text "Something is wrong with your format string.\n"]
        return false
      return true : M σ Bool) w := rfl
  rw [hcall, Prog.bind_run_ok h]
  by_cases hret : ret = -1
  · rw [if_pos hret, decide_eq_false (not_not.2 hret)]
    exact ⟨_, rfl⟩
  · rw [if_neg hret, decide_eq_true hret]
    exact ⟨_, rfl⟩

/-- **When the result tells success from failure.** A call returns -1 exactly for failure if it is
    refused at once, or neither fails later nor counts nothing. So it is for what is printed to a
    stream; and the verdict on a format is right if it is refused at once, or counts something on
    the fake event and its shortest line does not break. -/
theorem told_apart_iff (hw : w.lib.store.WellIndexed) :
    (∀ (size : Int32) (fmt : Option Bytes) (ev : Event) (out : NString),
      ∃ ret out' w', snprintf out size ev fmt w = .ok ((ret, out'), w') ∧
        ((ret = -1 ↔ Fails size fmt ev w) ↔ TellsApart size fmt ev w)) ∧
    (∀ (file : Stream) (fmt : Option Bytes) (ev : Event),
      ∃ ret out' w₁ w', sprintf (w.lib.printOut.getD NString.new) ev fmt w.withoutOut
          = .ok ((ret, out'), w₁) ∧
        fprintfTo file ev fmt w = .ok (ret, w') ∧
        ((ret = -1 ↔ Fails fullSize fmt ev w.withoutOut) ∧
            (Fails fullSize fmt ev w.withoutOut → w'.os = w₁.os) ↔
          TellsApart fullSize fmt ev w.withoutOut)) ∧
    (∀ fmt : Bytes, ∃ ok w', Inotifywait.validateFormat fmt w = .ok (ok, w') ∧
      (TimesFit σ → (VerdictRight fmt ok w ↔ Refused fullSize (some fmt) ∨
        CountsSome fullSize (some fmt) fakeEvent w.withoutOut ∧
          ∀ os : σ, ¬ Breaks w.lib.timefmt (tokens fmt) 0 os))) := by
  have hw' : w.withoutOut.lib.store.WellIndexed := hw
  refine ⟨fun size fmt ev out => ?_, fun file fmt ev => ?_, fun fmt => ?_⟩
  · obtain ⟨ret, out', w', hrun, hret⟩ := snprintf_eq_iff hw size fmt ev out
    exact ⟨ret, out', w', hrun, tellsApart_iff hret⟩
  · obtain ⟨ret, out', w₁, hrun, hret⟩ :=
      snprintf_eq_iff hw' fullSize fmt ev (w.lib.printOut.getD NString.new)
    obtain ⟨w', hprint, hos⟩ := fprintfTo_run file hrun
    refine ⟨ret, out', w₁, w', hrun, hprint, ?_⟩
    rw [← tellsApart_iff hret]
    exact ⟨fun h => h.1, fun h => ⟨h, fun hfails => hos (h.2 hfails)⟩⟩
  · obtain ⟨ret, out', w₁, hrun, hret⟩ :=
      snprintf_eq_iff hw' fullSize (some fmt) fakeEvent (w.lib.printOut.getD NString.new)
    obtain ⟨w', hprint, -⟩ := fprintfTo_run .devnull hrun
    obtain ⟨w'', hvalid⟩ := validateFormat_run hprint
    exact ⟨_, w'', hvalid, fun htimes => verdictRight_iff htimes hw hret⟩

theorem SegmentsOf.counts {size : Int32} {ss : List Segment} (h : SegmentsOf fmt ev w ss)
    (hcounted : counted size.toInt ss 0 % 2 ^ 32 ≠ 0) : CountsSome size fmt ev w := ⟨ss, h, hcounted⟩

theorem SegmentsOf.tellsApart {size : Int32} {ss : List Segment} (h : SegmentsOf fmt ev w ss)
    (hrefused : ¬ Refused size fmt) (hinvalid : ¬ ReachesInvalid size.toInt ss 0)
    (hcounted : counted size.toInt ss 0 % 2 ^ 32 ≠ 0) : TellsApart size fmt ev w := by
  refine .inr ⟨?_, h.counts hcounted⟩
  rintro (hfails | ⟨ss', hss', hreach⟩)
  · exact hrefused hfails
  · rw [hss'.unique h] at hreach
    exact hinvalid hreach

/-- A format of two bytes tells success from failure. The verdict on a format with a time is right, and
    that on a lone `%` is not. -/
theorem told_apart_iff_desk :
    (∃ ret out w', snprintf NString.new 64 deskNews (some (ascii "ab")) deskTimed
        = .ok ((ret, out), w') ∧
      (ret = -1 ↔ Fails 64 (some (ascii "ab")) deskNews deskTimed)) ∧
    (∃ ret w', fprintfTo .stdout deskNews (some (ascii "ab")) deskTimed = .ok (ret, w') ∧
      (ret = -1 ↔ Fails fullSize (some (ascii "ab")) deskNews deskTimed.withoutOut)) ∧
    (∃ ok w', Inotifywait.validateFormat (ascii "%T ") deskTimed = .ok (ok, w') ∧
      VerdictRight (ascii "%T ") ok deskTimed) ∧
    ∃ ok w', Inotifywait.validateFormat (ascii "a%") deskTimed = .ok (ok, w') ∧
      ¬ VerdictRight (ascii "a%") ok deskTimed := by
  have hindexed : deskTimed.lib.store.WellIndexed := Store.wellIndexed_empty
  have htimes : TimesFit Desk := by
    rintro tf os t ⟨⟩
    decide
  have hbytes : tokens (ascii "ab") = [.byte 0x61, .byte 0x62] := by decide +kernel
  have hnews : (filenameFromEvent deskNews).result deskTimed = some ⟨[], 0, ascii "x"⟩ := by
    decide +kernel
  have hnews' : (filenameFromEvent deskNews).result deskTimed.withoutOut = some ⟨[], 0, ascii "x"⟩ := by
    decide +kernel
  have hvalid : ∀ size : Int, ¬ ReachesInvalid size [.byte 0x61, .byte 0x62] 0 := by
    rintro size ⟨-, h | ⟨-, h | h⟩⟩ <;> cases h
  have hsegments : ∀ {v : World Desk} {path : EventPath},
      (filenameFromEvent deskNews).result v = some path →
      SegmentsOf (some (ascii "ab")) deskNews v [.byte 0x61, .byte 0x62] := fun hpath =>
    ⟨_, _, Prog.run_of_result hpath, by rw [Option.getD_some, hbytes]; rfl⟩
  obtain ⟨hcall, hprint, hverdict⟩ := told_apart_iff hindexed
  refine ⟨?_, ?_, ?_, ?_⟩
  · obtain ⟨ret, out, w', hrun, hiff⟩ := hcall 64 (some (ascii "ab")) deskNews NString.new
    exact ⟨ret, out, w', hrun, hiff.2 ((hsegments hnews).tellsApart (by decide) (hvalid _) (by decide))⟩
  · obtain ⟨ret, out', w₁, w', -, hrun, hiff⟩ := hprint .stdout (some (ascii "ab")) deskNews
    exact ⟨ret, w', hrun,
      (hiff.2 ((hsegments hnews').tellsApart (by decide) (hvalid _) (by decide))).1⟩
  · obtain ⟨ok, w', hrun, hiff⟩ := hverdict (ascii "%T ")
    have htokens : tokens (ascii "%T ") = [.time, .byte 0x20] := by decide +kernel
    have hfake : (filenameFromEvent fakeEvent).result deskTimed.withoutOut = some ⟨[], 0, []⟩ := by
      decide +kernel
    have hss : SegmentsOf (some (ascii "%T ")) fakeEvent deskTimed.withoutOut
        [.copied (ascii "now"), .byte 0x20] :=
      ⟨_, _, Prog.run_of_result hfake, by rw [Option.getD_some, htokens]; rfl⟩
    refine ⟨ok, w', hrun, (hiff htimes).2 (.inr ⟨hss.counts (by decide), fun os => ?_⟩)⟩
    rw [htokens]
    exact not_breaks (by decide) (fun _ _ _ _ => rfl) 0 os
  · obtain ⟨ok, w', hrun, hiff⟩ := hverdict (ascii "a%")
    have htokens : tokens (ascii "a%") = [.byte 0x61, .lone] := by decide +kernel
    refine ⟨ok, w', hrun, fun hright => ?_⟩
    rcases (hiff htimes).1 hright with hrefused | ⟨-, hstands⟩
    · exact absurd hrefused (by decide)
    · refine hstands {} ?_
      rw [htokens]
      exact ⟨by decide, .inr ⟨by decide, .inl trivial⟩⟩

/-- A `%` at the end is found after three bytes, and three is what is returned. -/
theorem failure_not_told :
    ∃ out w', snprintf NString.new 64 deskNews (some (ascii "abc%")) deskTimed
        = .ok ((3, out), w') ∧
      Fails 64 (some (ascii "abc%")) deskNews deskTimed := by
  have hresult : ((snprintf NString.new 64 deskNews (some (ascii "abc%"))).result deskTimed).map
      (fun r => r.1) = some 3 := by decide +kernel
  obtain ⟨⟨ret, out⟩, hrun, hret⟩ := Option.map_eq_some_iff.1 hresult
  cases hret
  have hpath : (filenameFromEvent deskNews).result deskTimed = some ⟨[], 0, ascii "x"⟩ := by
    decide +kernel
  have htokens : tokens ((some (ascii "abc%")).getD [])
      = [.byte 0x61, .byte 0x62, .byte 0x63, .lone] := by decide +kernel
  refine ⟨out, _, Prog.run_of_result hrun, .inr ⟨_, ⟨_, _, Prog.run_of_result hpath, rfl⟩, ?_⟩⟩
  rw [htokens]
  exact ⟨by decide, .inr ⟨by decide, .inr ⟨by decide, .inr ⟨by decide, .inl rfl⟩⟩⟩⟩

end InotifyTools
