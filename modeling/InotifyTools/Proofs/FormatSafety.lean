import InotifyTools.Implementation.CheckedFormat
import InotifyTools.Proofs.FormatFailures

set_option autoImplicit false

/-! # Formatting stays inside its window

With every check made, `snprintf` runs as without: none fails. And it changes no byte at or past the
bound. -/

namespace InotifyTools

variable {σ : Type} {o : OutCursor} {w : World σ}

namespace Checked

/-! ## Checks that pass -/

theorem sub_run {a b : Nat} (h : b ≤ a) : sub a b w = .ok (a - b, w) := by
  rw [sub, Prog.guard, if_pos (decide_eq_true h)]
  rfl

theorem add_run {a n : UInt32} (h : a.toNat + n.toNat < 2 ^ 32) : add a n w = .ok (a + n, w) := by
  rw [add, Prog.guard, if_pos (decide_eq_true h)]
  rfl

theorem index_run {fmt : Bytes} {i : Nat} {c : UInt8} (h : fmt[i]? = some c) :
    index fmt i w = .ok (c, w) := by
  rw [index, h]
  rfl

theorem put_run (h : o.ind.toNat < maxStrlen) (c : UInt8) :
    put o c w = .ok ({ buf := o.buf.set o.ind.toNat c, ind := o.ind + 1 }, w) := by
  have hsize : maxStrlen = 4096 := rfl
  have hsum : o.ind.toNat + (1 : UInt32).toNat < 2 ^ 32 := by
    have hone : (1 : UInt32).toNat = 1 := rfl
    omega
  rw [put, Prog.guard, if_pos (decide_eq_true h), Prog.pure_bind, Prog.bind_run_ok (add_run hsum)]
  rfl

theorem strncpy_run {src : Bytes} {n len : Nat} (h : o.ind.toNat < maxStrlen)
    (hlen : len + maxStrlen ≤ 2 ^ 32) :
    strncpy o src n len w = .ok
      ({ buf := InotifyTools.strncpy o.buf o.ind src n, ind := o.ind + UInt32.ofNat len }, w) := by
  have hsize : maxStrlen = 4096 := rfl
  have hnat : (UInt32.ofNat len).toNat = len := UInt32.toNat_ofNat_of_lt' (show len < 2 ^ 32 by omega)
  have hstop : o.ind.toNat ≤ min (o.ind.toNat + n) maxStrlen ∧
      min (o.ind.toNat + n) maxStrlen ≤ maxStrlen := by omega
  unfold strncpy InotifyTools.strncpy
  dsimp only
  rw [if_neg (by omega), if_neg (by omega), Prog.guard, if_pos (decide_eq_true hstop),
    Prog.pure_bind, Prog.bind_run_ok (add_run (by omega))]
  rfl

theorem putHex_eq {room : Nat} (hpos : 0 < room) (h : o.ind.toNat + room ≤ maxStrlen)
    (cookie : UInt32) : putHex o cookie room w = o.putHex cookie room w := by
  have hsize : maxStrlen = 4096 := rfl
  have hlen := length_hexDigits cookie
  have hnat : (UInt32.ofNat (hexDigits cookie.toNat).length).toNat
      = (hexDigits cookie.toNat).length :=
    UInt32.toNat_ofNat_of_lt' (show _ < 2 ^ 32 by omega)
  have hslice : o.ind.toNat + min (hexDigits cookie.toNat).length (room - 1) ≤ maxStrlen ∧
      min (hexDigits cookie.toNat).length (room - 1) ≤ (hexDigits cookie.toNat).length := by
    omega
  have hend : o.ind.toNat + min (hexDigits cookie.toNat).length (room - 1) < maxStrlen := by omega
  unfold putHex OutCursor.putHex
  rw [Prog.bind_run_ok (sub_run hpos), Prog.guard, if_pos (decide_eq_true hslice), Prog.pure_bind,
    Prog.guard, if_pos (decide_eq_true hend), Prog.pure_bind,
    Prog.bind_run_ok (add_run (by omega))]
  rfl

theorem putIfRoom_run (c : UInt8) : putIfRoom o c w = .ok (o.putIfRoom c, w) := by
  unfold putIfRoom OutCursor.putIfRoom
  split
  · next h => exact put_run h c
  · rfl

theorem followedByE_run {fmt : Bytes} {i : Nat} (h : 2 ≤ fmt.length) :
    followedByE fmt i w = .ok (decide (fmt[i + 2]? = some 0x65), w) := by
  rw [followedByE, Prog.bind_run_ok (sub_run h)]
  by_cases hi : i < fmt.length - 2
  · have hc : fmt[i + 2]? = some fmt[i + 2] := List.getElem?_eq_getElem (by omega)
    rw [if_pos hi, Prog.bind_run_ok (index_run hc), hc]
    simp only [Option.some_inj]
    rfl
  · rw [if_neg hi, List.getElem?_eq_none (by omega)]
    rfl

variable [Sys σ] {path : EventPath} {ev : Event}

/-! ## The scan -/

theorem time_isDirname (path : EventPath) (ev : Event) (timefmt : Option CString) (os : σ) :
    (Token.time.segment path ev timefmt os).1.isDirname = false := by
  dsimp only [Token.segment]
  cases timefmt with
  | none => rfl
  | some tf =>
      dsimp only
      cases (Sys.strftimeNow tf os).1 with
      | none => rfl
      | some t => rfl

theorem conversion_eq (hname : path.eventname.length + maxStrlen ≤ 2 ^ 32) (htimes : TimesFit σ)
    (ch1 : UInt8) {room : Nat} (hpos : 0 < room) (hroom : o.ind.toNat + room ≤ maxStrlen)
    (w : World σ) :
    conversion path ev ch1 room o w = InotifyTools.conversion path ev ch1 room o w := by
  have hind : o.ind.toNat < maxStrlen := by omega
  have hsize : maxStrlen = 4096 := rfl
  unfold conversion InotifyTools.conversion
  split
  · rw [Prog.bind_run_ok (put_run hind _), Prog.bind_run_ok (InotifyTools.put_run hind _ w)]
  split
  · rw [Prog.bind_run_ok (put_run hind _), Prog.bind_run_ok (InotifyTools.put_run hind _ w)]
  split
  · rw [Prog.bind_run_ok (put_run hind _), Prog.bind_run_ok (InotifyTools.put_run hind _ w)]
  split
  · split
    · rw [Prog.bind_run_ok (strncpy_run hind (by omega))]
    · rfl
  split
  · rw [Prog.bind_run_ok (strncpy_run hind hname)]
    rfl
  split
  · rw [Prog.bind_run, Prog.bind_run, putHex_eq hpos hroom]
  split
  · obtain ⟨m, hstr⟩ := eventToStrSep_run ev.mask.toInt32 0x2c w
    have hlen := length_eventString ev.mask.toInt32 0x2c
    have hevstr : evstrSize = 1024 := rfl
    unfold eventToStr
    rw [Prog.bind_run_ok hstr, Prog.bind_run_ok hstr, Prog.bind_run_ok (strncpy_run hind (by omega))]
    rfl
  · obtain ⟨w', htime, hos, hlib⟩ := timeString_run path ev w
    rw [Prog.bind_run_ok htime, Prog.bind_run_ok htime]
    have hshort : ((Token.time.segment path ev w.lib.timefmt w.os).1.text.getD []).length
        + maxStrlen ≤ 2 ^ 32 :=
      Token.time.segment_short htimes hname w.os (time_isDirname path ev _ _)
    cases htext : (Token.time.segment path ev w.lib.timefmt w.os).1.text with
    | none => rfl
    | some t =>
        rw [htext, Option.getD_some] at hshort
        exact Prog.bind_run_ok (strncpy_run hind hshort)

theorem snprintfLoop_full {size : Int} (fmt : Bytes) (fuel : Nat) {i : Nat}
    (hfull : ¬ (i < fmt.length ∧ (o.ind.toNat : Int) < size - 1)) (w : World σ) :
    snprintfLoop path ev size fmt (fuel + 1) i o w = .ok ((.done, o), w) := by
  rw [snprintfLoop, if_pos hfull]
  rfl

/-- The loop over the positions is the scan of what is left. -/
theorem snprintfLoop_eq (hname : path.eventname.length + maxStrlen ≤ 2 ^ 32) (htimes : TimesFit σ)
    {size : Int} (hsize : size ≤ maxStrlen) (fmt : Bytes) {fuel i : Nat}
    (hfuel : fmt.length < fuel + i) (hi : i ≤ fmt.length) (o : OutCursor) (w : World σ) :
    snprintfLoop path ev size fmt fuel i o w = snprintfScan path ev size (fmt.drop i) o w := by
  induction fuel generalizing i o w with
  | zero => omega
  | succ fuel ih =>
      by_cases hgoes : i < fmt.length ∧ (o.ind.toNat : Int) < size - 1
      · obtain ⟨hlt, hroom⟩ := hgoes
        have hone : 1 ≤ fmt.length := by omega
        have hind : o.ind.toNat < maxStrlen := by omega
        rw [snprintfLoop, if_neg (not_not.2 ⟨hlt, hroom⟩),
          Prog.bind_run_ok (index_run (List.getElem?_eq_getElem hlt)),
          List.drop_eq_getElem_cons hlt]
        -- the source looks at one byte behind a `%`, and at a second one for a separator
        by_cases hlast : i + 1 < fmt.length
        · have hroom' : (size - o.ind.toNat).toNat = size.toNat - o.ind.toNat := by omega
          rw [List.drop_eq_getElem_cons hlast, snprintfScan, if_neg (not_not.2 hroom)]
          split
          · rw [Prog.bind_run_ok (put_run hind _), Prog.bind_run_ok (InotifyTools.put_run hind _ w),
              ih (by omega) (by omega), List.drop_eq_getElem_cons hlast]
          rw [Prog.bind_run_ok (sub_run hone), if_neg (by omega),
            Prog.bind_run_ok (index_run (List.getElem?_eq_getElem hlast)),
            Prog.bind_run_ok (sub_run (by omega)), hroom']
          dsimp only
          split
          · rw [Prog.bind_run, Prog.bind_run, conversion_eq hname htimes _ (by omega) (by omega) w]
            cases InotifyTools.conversion path ev fmt[i + 1] (size.toNat - o.ind.toNat) o w with
            | error e => rfl
            | ok r =>
                obtain ⟨o', w'⟩ := r
                cases o' with
                | none => rfl
                | some o' => exact ih (by omega) (by omega) o' w'
          rw [Prog.bind_run_ok (followedByE_run (by omega))]
          by_cases hnext : i + 2 < fmt.length
          · rw [List.drop_eq_getElem_cons hnext, List.getElem?_eq_getElem hnext]
            simp only [Option.some_inj, decide_eq_true_eq]
            split
            · obtain ⟨m, hstr⟩ := eventToStrSep_run ev.mask.toInt32 fmt[i + 1] w
              have hlen := length_eventString ev.mask.toInt32 fmt[i + 1]
              have hevstr : evstrSize = 1024 := rfl
              have hmax : maxStrlen = 4096 := rfl
              rw [Prog.bind_run_ok hstr, Prog.bind_run_ok hstr,
                Prog.bind_run_ok (strncpy_run hind (by omega))]
              exact ih (by omega) (by omega) _ _
            · rw [Prog.bind_run_ok (putIfRoom_run 0x25), Prog.bind_run_ok (putIfRoom_run _),
                ih (by omega) (by omega), List.drop_eq_getElem_cons hnext]
          · rw [List.drop_eq_nil_of_le (by omega), List.getElem?_eq_none (by omega),
              if_neg (by simp), Prog.bind_run_ok (putIfRoom_run 0x25),
              Prog.bind_run_ok (putIfRoom_run _)]
            obtain ⟨fuel, rfl⟩ : ∃ n, fuel = n + 1 := ⟨fuel - 1, by omega⟩
            exact snprintfLoop_full fmt fuel (by omega) w
        · rw [List.drop_eq_nil_of_le (by omega), snprintfScan, if_neg (not_not.2 hroom)]
          by_cases hpercent : fmt[i] = 0x25
          · rw [if_neg (not_not.2 hpercent), if_pos hpercent, Prog.bind_run_ok (sub_run hone),
              if_pos (by omega)]
          · obtain ⟨fuel, rfl⟩ : ∃ n, fuel = n + 1 := ⟨fuel - 1, by omega⟩
            rw [if_pos hpercent, if_neg hpercent, Prog.bind_run_ok (put_run hind _),
              Prog.bind_run_ok (InotifyTools.put_run hind _ w), snprintfLoop_full _ _ (by omega)]
            rfl
      · rw [snprintfLoop_full fmt fuel hgoes]
        by_cases hlt : i < fmt.length
        · exact (snprintfScan_done (fun hroom => hgoes ⟨hlt, hroom⟩) _ w).symm
        · rw [List.drop_eq_nil_of_le (by omega)]
          rfl

/-- With a name this short, no check fails. -/
theorem snprintf_eq {w₁ : World σ} (hpath : filenameFromEvent ev w = .ok (path, w₁))
    (hname : path.eventname.length + maxStrlen ≤ 2 ^ 32) (htimes : TimesFit σ) (out : NString)
    (size : Int32) (fmt : Option Bytes) :
    snprintf out size ev fmt w = InotifyTools.snprintf out size ev fmt w := by
  unfold snprintf InotifyTools.snprintf
  rw [Prog.bind_run_ok hpath, Prog.bind_run_ok hpath]
  split
  · rfl
  split
  · rfl
  · next hfits =>
      have hsize : size.toInt ≤ maxStrlen := by omega
      rw [Prog.bind_run, Prog.bind_run, snprintfLoop_eq hname htimes hsize _ (by omega) (by omega)]
      rfl

end Checked

/-! ## The window -/

/-- Laying out segments changes no byte at or past the bound. -/
theorem layout_frame {size : Int} (hsize : size ≤ maxStrlen) (ss : List Segment) (o : OutCursor)
    {i : Nat} (hi : size ≤ i) : (layout size ss o).2.buf i = o.buf i := by
  induction ss generalizing o with
  | nil => rfl
  | cons s ss ih =>
      unfold layout
      by_cases hroom : (o.ind.toNat : Int) < size - 1
      · rw [if_neg (not_not.2 hroom)]
        cases hplace : s.place (size - o.ind.toNat).toNat o with
        | none => rfl
        | some o' =>
            have hwrites := place_writesAt (by omega) (by omega) hplace
            exact (ih o').trans (hwrites.frame i (.inr (by omega)))
      · rw [if_pos hroom]

theorem formatted_frame {size : Int} (hsize : size ≤ maxStrlen) (ss : List Segment) (out : NString)
    {i : Nat} (hi : size ≤ i) : (formatted size ss out).2.buf i = out.buf i := by
  have hframe := layout_frame hsize ss { buf := out.buf, ind := 0 } hi
  unfold formatted
  split
  · next heq => rwa [heq] at hframe
  · next heq => rwa [heq] at hframe

/-! ## Names -/

theorem length_fidnameString (l : Inotifytools) : (fidnameString l).bytes.length ≤ fidnameSize := by
  have hlen : (l.fidname.slice 0 fidnameSize).length = fidnameSize := Mem.length_slice ..
  have hprefix : (fidnameString l).bytes <+: l.fidname.slice 0 fidnameSize :=
    List.takeWhile_prefix _
  exact hlen ▸ hprefix.length_le

variable [Sys σ] {w w₁ : World σ} {path : EventPath} {ev : Event}

/-- A path that a fid resolves to comes from the filename buffer. -/
theorem filenameFromFid_length {f : Bytes} {p : CString}
    (h : filenameFromFid f w = .ok (some p, w₁)) : p.bytes.length ≤ fidnameSize := by
  obtain ⟨dirf, w₂, -, h⟩ := Prog.bind_ok h
  cases dirf with
  | none => cases h
  | some dirf =>
      obtain ⟨target, w₃, -, h⟩ := Prog.bind_ok h
      cases target with
      | none =>
          obtain ⟨_, w₄, -, h⟩ := Prog.bind_ok h
          obtain ⟨_, w₅, -, h⟩ := Prog.bind_ok h
          cases h
      | some target =>
          obtain ⟨_, w₄, -, h⟩ := Prog.bind_ok h
          obtain ⟨_, w₅, -, h⟩ := Prog.bind_ok h
          obtain ⟨_, w₆, -, h⟩ := Prog.bind_ok h
          obtain ⟨ok, w₇, -, h⟩ := Prog.bind_ok h
          obtain ⟨_, w₈, -, h⟩ := Prog.bind_ok h
          split at h
          · cases h
          · cases h
            exact length_fidnameString _

/-- The names of the watches are shorter than `n`. -/
def Store.NamesShorter (s : Store) (n : Nat) : Prop :=
  ∀ (id : Nat) (v : Watch), s.watches[id]? = some v → v.filename.bytes.length < n

omit [Sys σ] in
theorem watch_ok {id : Nat} {v : Watch} (h : watch id w = .ok (v, w₁)) :
    w.lib.store.watches[id]? = some v ∧ w₁ = w := by
  unfold watch at h
  rw [getLib_bind] at h
  cases hv : w.lib.store.watches[id]? with
  | none =>
      rw [hv] at h
      cases h
  | some v' =>
      rw [hv] at h
      cases h
      exact ⟨rfl, rfl⟩

theorem filenameFromWatchId_length {n id : Nat} {p : CString} (hw : w.lib.store.WellIndexed)
    (hn : fidnameSize < n) (hshort : w.lib.store.NamesShorter n)
    (h : filenameFromWatchId id w = .ok (p, w₁)) : p.bytes.length < n := by
  obtain ⟨v, w₂, hwatch, hrest⟩ := Prog.bind_ok h
  obtain ⟨hv, rfl⟩ := watch_ok hwatch
  cases hfid : v.fid with
  | none =>
      rw [hfid] at hrest
      cases hrest
      exact hshort id _ hv
  | some f =>
      rw [hfid] at hrest
      dsimp only at hrest
      rw [getLib_bind] at hrest
      split at hrest
      · cases hrest
        exact hshort id _ hv
      · obtain ⟨q, w₃, hres, hrest⟩ := Prog.bind_ok hrest
        cases q with
        | some q =>
            cases hrest
            exact (filenameFromFid_length hres).trans_lt hn
        | none =>
            -- the watch is still there: resolving a fid leaves the store alone
            obtain ⟨r, w₃', hres', heffects⟩ := filenameFromFid_calm f _ hw
            obtain ⟨rfl, rfl⟩ := Prod.mk.inj (Except.ok.inj (hres.symm.trans hres'))
            obtain ⟨v', w₄, hwatch', hrest⟩ := Prog.bind_ok hrest
            cases hrest
            rw [← heffects.sameBooks.store] at hshort
            exact hshort id _ (watch_ok hwatch').1

theorem filenameFromWdPtr_length {n : Nat} {wd : Int32} {p : CString}
    (hw : w.lib.store.WellIndexed) (hn : fidnameSize < n) (hshort : w.lib.store.NamesShorter n)
    (h : filenameFromWdPtr wd w = .ok (p, w₁)) : p.bytes.length < n := by
  obtain ⟨_, w₂, hinit, hrest⟩ := Prog.bind_ok h
  obtain ⟨_, w₂', hinit', heffects⟩ := assertInit_calm w hw
  obtain ⟨-, rfl⟩ := Prod.mk.inj (Except.ok.inj (hinit.symm.trans hinit'))
  split at hrest
  · cases hrest
    exact Nat.zero_lt_of_lt hn
  · obtain ⟨id, w₃, hid, hrest⟩ := Prog.bind_ok hrest
    cases hid
    cases hfound : w₂.lib.store.byWd[wd]? with
    | none =>
        rw [hfound] at hrest
        cases hrest
        exact Nat.zero_lt_of_lt hn
    | some id =>
        rw [hfound] at hrest
        rw [← heffects.sameBooks.store] at hshort
        exact filenameFromWatchId_length (heffects.wellIndexed hw) hn hshort hrest

theorem filenameFromEvent_length {n : Nat} (hw : w.lib.store.WellIndexed) (hn : fidnameSize < n)
    (hshort : w.lib.store.NamesShorter n) (hev : ev.name.length < n)
    (h : filenameFromEvent ev w = .ok (path, w₁)) : path.eventname.length < n := by
  obtain ⟨p, w₂, hname, -, -, -, heventname⟩ := filenameFromEvent_parts h
  have hp := filenameFromWdPtr_length hw hn hshort hname
  rw [heventname]
  split
  · rw [List.length_drop]
    omega
  · split
    · exact hev
    · exact Nat.zero_lt_of_lt hn

/-- **Formatting stays inside its window.** No check of a call fails, whatever its size, and no byte
    at or past the bound is changed. -/
theorem snprintf_window (hw : w.lib.store.WellIndexed) (htimes : TimesFit σ)
    (hshort : w.lib.store.NamesShorter (2 ^ 31)) (hev : ev.name.length < 2 ^ 31) (out : NString)
    (size : Int32) (fmt : Option Bytes) :
    ∃ ret out' w', snprintf out size ev fmt w = .ok ((ret, out'), w') ∧
      Checked.snprintf out size ev fmt w = .ok ((ret, out'), w') ∧
      ∀ i : Nat, max size.toInt 0 ≤ i → out'.buf i = out.buf i := by
  obtain ⟨path, w₁, hpath, -⟩ := filenameFromEvent_calm ev w hw
  have hlen := filenameFromEvent_length hw (by decide) hshort hev hpath
  have hmax : maxStrlen = 4096 := rfl
  have heq := Checked.snprintf_eq hpath (by omega) htimes out size fmt
  suffices hplain : ∃ r w', snprintf out size ev fmt w = .ok (r, w') ∧
      ∀ i : Nat, max size.toInt 0 ≤ i → r.2.buf i = out.buf i by
    obtain ⟨r, w', hrun, hframe⟩ := hplain
    exact ⟨r.1, r.2, w', hrun, heq.trans hrun, hframe⟩
  by_cases hrefused : Refused size fmt
  · obtain ⟨w', hrun⟩ := snprintf_refused hrefused hpath out
    exact ⟨_, w', hrun, fun _ _ => rfl⟩
  cases fmt with
  | none => exact absurd (.inl rfl) hrefused
  | some f =>
      have hne : f ≠ [] := fun h => hrefused (.inl h)
      have hfits : f.length ≤ maxStrlen := Nat.not_lt.1 fun h => hrefused (.inr (.inl h))
      have hsize : size.toInt ≤ maxStrlen := Int.not_lt.1 fun h => hrefused (.inr (.inr h))
      obtain ⟨w', hrun⟩ := snprintf_run hpath hne hfits hsize out
      exact ⟨_, w', hrun, fun i hi => formatted_frame hsize _ _ (by omega)⟩

/-- A name that goes past a bound of five bytes. -/
theorem snprintf_window_desk :
    ∃ ret out w', Checked.snprintf NString.new 5 deskLong (some (ascii "%f")) deskTimed
        = .ok ((ret, out), w') ∧
      ∀ i : Nat, 5 ≤ i → out.buf i = 0 := by
  have htimes : TimesFit Desk := by
    rintro tf os t ⟨⟩
    decide
  have hshort : deskTimed.lib.store.NamesShorter (2 ^ 31) := by
    intro id v hv
    exact absurd hv (by simp [deskTimed, Inotifytools.new, Store.empty])
  have hindexed : deskTimed.lib.store.WellIndexed := Store.wellIndexed_empty
  have hname : deskLong.name.length < 2 ^ 31 := by decide
  obtain ⟨ret, out, w', -, hrun, hframe⟩ := snprintf_window hindexed htimes hshort hname
    NString.new 5 (some (ascii "%f"))
  exact ⟨ret, out, w', hrun, fun i hi => hframe i (by
    have hfive : (5 : Int32).toInt = 5 := rfl
    omega)⟩

end InotifyTools
