import InotifyTools.Proofs.Fids
import InotifyTools.Proofs.FormatTokens

set_option autoImplicit false

/-! # A format that fits is expanded

Where the whole expansion of a format has room, `snprintf` writes it. -/

namespace InotifyTools

variable {σ : Type}

/-! ## Laying out what fits -/

/-- Every byte before the cursor stays, and the expansion follows. -/
theorem layout_fits {size : Int} (hsize : size ≤ maxStrlen) {ss : List Segment} {o : OutCursor}
    {text : Bytes} (hexpand : expand ss = some text)
    (hroom : (o.ind.toNat : Int) + text.length ≤ size - 1) :
    ∃ o', layout size ss o = (.done, o') ∧ o'.ind.toNat = o.ind.toNat + text.length ∧
      o'.buf.slice 0 (o.ind.toNat + text.length) = o.buf.slice 0 o.ind.toNat ++ text := by
  induction ss generalizing o text with
  | nil =>
      cases hexpand
      exact ⟨o, rfl, rfl, (List.append_nil _).symm⟩
  | cons s ss ih =>
      obtain ⟨t, htext, hexpand⟩ := Option.bind_eq_some_iff.1 hexpand
      obtain ⟨rest, hrest, hjoin⟩ := Option.bind_eq_some_iff.1 hexpand
      cases hjoin
      rw [List.length_append] at hroom ⊢
      unfold layout
      by_cases hgoes : (o.ind.toNat : Int) < size - 1
      · rw [if_neg (not_not.2 hgoes)]
        have hsmall : 1 < (size - o.ind.toNat).toNat := by omega
        have hfits : o.ind.toNat + (size - o.ind.toNat).toNat ≤ maxStrlen := by omega
        obtain ⟨o₁, hplace, hind, hslice⟩ := place_fits hsmall hfits htext
          (Segment.fits_of_lt htext (by omega))
        obtain ⟨o₂, hlayout, hind₂, hslice₂⟩ := ih hrest (o := o₁) (by omega)
        rw [hplace]
        refine ⟨o₂, hlayout, by omega, ?_⟩
        rw [hind, hslice] at hslice₂
        rw [← Nat.add_assoc, hslice₂, List.append_assoc]
      · have ht : t = [] := List.eq_nil_of_length_eq_zero (by omega)
        have hempty : rest = [] := List.eq_nil_of_length_eq_zero (by omega)
        rw [if_pos hgoes, ht, hempty]
        exact ⟨o, rfl, rfl, (List.append_nil _).symm⟩

/-! ## A call of `snprintf` -/

/-- What `snprintf` returns and leaves, for the segments of a format. -/
def formatted (size : Int) (ss : List Segment) (out : NString) : Int32 × NString :=
  match layout size ss { buf := out.buf, ind := 0 } with
  | (.done, o) => ((o.ind - 1).toInt32, { buf := o.buf, len := o.ind })
  | (.stop ret, o) => (ret, { out with buf := o.buf })

/-- The number of bytes written minus one. -/
theorem toInt_pred {ind : UInt32} (h : ind.toNat ≤ maxStrlen) :
    (ind - 1).toInt32.toInt = (ind.toNat : Int) - 1 := by
  have hsize : maxStrlen = 4096 := rfl
  have hbits : (ind - 1).toInt32.toInt = ((ind - 1).toNat : Int).bmod (2 ^ 32) :=
    BitVec.toInt_eq_toNat_bmod _
  have hsub : (ind - 1).toNat = (2 ^ 32 - 1 + ind.toNat) % 2 ^ 32 := UInt32.toNat_sub ind 1
  rw [hbits, hsub, Int.bmod_def]
  split <;> omega

variable [Sys σ] {w w₁ : World σ} {path : EventPath} {ev : Event}

theorem Effects.timefmt {w w' : World σ} (h : Effects ∅ w w') :
    w'.lib.timefmt = w.lib.timefmt := by
  refine h.preserves (P := fun w' => w'.lib.timefmt = w.lib.timefmt) ?_ rfl
  rintro k w₁ w₂ (rfl | hk) he ih
  · cases he <;> exact ih
  · exact absurd hk (Set.notMem_empty k)

/-- A format that is looked at is laid out. -/
theorem snprintf_run (hpath : filenameFromEvent ev w = .ok (path, w₁)) {fmt : Bytes} {size : Int32}
    (hne : fmt ≠ []) (hlen : fmt.length ≤ maxStrlen) (hsize : size.toInt ≤ maxStrlen)
    (out : NString) :
    ∃ w', snprintf out size ev (some fmt) w = .ok
      (formatted size.toInt (segments path ev w₁.lib.timefmt (tokens fmt) w₁.os) out, w') := by
  obtain ⟨w', hscan⟩ := snprintfScan_run (filenameFromEvent_dirname hpath) ev hsize fmt
    { buf := out.buf, ind := 0 } w₁
  unfold snprintf formatted
  rw [Prog.bind_run_ok hpath, Option.getD_some, if_neg (by rwa [List.isEmpty_iff]),
    if_neg (by omega), Prog.bind_run_ok hscan]
  refine ⟨w', ?_⟩
  split
  · next heq => rw [heq]; rfl
  · next heq => rw [heq]; rfl

/-! ## The expansion -/

/-- A token other than a lone `%` stands for some text while `strftime` succeeds. -/
theorem Token.segment_text (path : EventPath) (ev : Event) {t : Token} (hlone : t ≠ .lone)
    {timefmt : Option CString}
    (htime : ∀ tf ∈ timefmt, ∀ os : σ, (Sys.strftimeNow tf os).1.isSome) (os : σ) :
    ∃ x, (t.segment path ev timefmt os).1.text = some x := by
  cases t with
  | time =>
      cases timefmt with
      | none => exact ⟨[], rfl⟩
      | some tf =>
          obtain ⟨x, hx⟩ := Option.isSome_iff_exists.1 (htime tf rfl os)
          refine ⟨x, ?_⟩
          dsimp only [Token.segment]
          rw [hx]
          rfl
  | lone => exact absurd rfl hlone
  | _ => exact ⟨_, rfl⟩

theorem expand_segments (path : EventPath) (ev : Event) {ts : List Token} (hlone : .lone ∉ ts)
    {timefmt : Option CString}
    (htime : ∀ tf ∈ timefmt, ∀ os : σ, (Sys.strftimeNow tf os).1.isSome) (os : σ) :
    ∃ text, expand (segments path ev timefmt ts os) = some text := by
  induction ts generalizing os with
  | nil => exact ⟨[], rfl⟩
  | cons t ts ih =>
      rw [List.mem_cons, not_or] at hlone
      obtain ⟨x, hx⟩ := Token.segment_text path ev (Ne.symm hlone.1) htime os
      obtain ⟨rest, hrest⟩ := ih hlone.2 (t.segment path ev timefmt os).2
      exact ⟨x ++ rest, by rw [segments, expand, hx, hrest]; rfl⟩

/-- **A format that fits is expanded.** Unless the format ends in an unpaired `%`, it has an
    expansion while `strftime` succeeds. Where that fits with a byte to spare, the buffer holds it
    after the call, and the result is its length minus one. -/
theorem snprintf_expands (hw : w.lib.store.WellIndexed) {fmt : Bytes} {size : Int32}
    (hne : fmt ≠ []) (hlen : fmt.length ≤ maxStrlen) (hlone : .lone ∉ tokens fmt)
    (htime : ∀ tf ∈ w.lib.timefmt, ∀ os : σ, (Sys.strftimeNow tf os).1.isSome)
    (hsize : size.toInt ≤ maxStrlen) (ev : Event) (out : NString) :
    ∃ path w₁ text, filenameFromEvent ev w = .ok (path, w₁) ∧
      expand (segments path ev w₁.lib.timefmt (tokens fmt) w₁.os) = some text ∧
      ((text.length : Int) ≤ size.toInt - 1 →
        ∃ ret out' w', snprintf out size ev (some fmt) w = .ok ((ret, out'), w') ∧
          out'.asBytes = text ∧ out'.len.toNat = text.length ∧
          ret.toInt = (text.length : Int) - 1) := by
  obtain ⟨path, w₁, hpath, heffects⟩ := filenameFromEvent_calm ev w hw
  rw [← heffects.timefmt] at htime
  obtain ⟨text, hexpand⟩ := expand_segments path ev hlone htime w₁.os
  refine ⟨path, w₁, text, hpath, hexpand, fun hroom => ?_⟩
  obtain ⟨o, hlayout, hind, hslice⟩ := layout_fits (o := { buf := out.buf, ind := 0 }) hsize hexpand
    (by simpa using hroom)
  obtain ⟨w', hrun⟩ := snprintf_run hpath hne hlen hsize out
  rw [formatted, hlayout] at hrun
  have hlen' : o.ind.toNat = text.length := by simpa using hind
  have hbytes : o.buf.slice 0 text.length = text := by simpa [Mem.slice] using hslice
  refine ⟨_, _, w', hrun, ?_, hlen', ?_⟩
  · rw [asBytes_mk, hlen', Nat.min_eq_left (by omega)]
    exact hbytes
  · rw [toInt_pred (by omega), hlen']

/-- A handle with a time format. -/
def deskTimed : World Desk :=
  { lib := { Inotifytools.new with timefmt := some (cstring (ascii "%s")) }, os := {} }

/-- An event of no watch. -/
def deskNews : Event := { mask := 0x300, cookie := 0x2a, len := 8, name := ascii "x" }

/-- Every kind of token. -/
theorem snprintf_expands_desk :
    ∃ ret out w', snprintf NString.new 64 deskNews (some (ascii "%w%f %:e%%%c%T%x")) deskTimed
        = .ok ((ret, out), w') ∧
      out.asBytes = ascii "x CREATE:DELETE%2anow%x" := by
  have hresult : (filenameFromEvent deskNews).result deskTimed = some ⟨[], 0, ascii "x"⟩ := by
    decide +kernel
  have htime : ∀ tf ∈ deskTimed.lib.timefmt, ∀ os : Desk, (Sys.strftimeNow tf os).1.isSome :=
    fun _ _ _ => rfl
  have hindexed : deskTimed.lib.store.WellIndexed := Store.wellIndexed_empty
  have hne : ascii "%w%f %:e%%%c%T%x" ≠ [] := by decide
  have hlone : .lone ∉ tokens (ascii "%w%f %:e%%%c%T%x") := by decide +kernel
  have hsize : (64 : Int32).toInt ≤ maxStrlen := by decide
  obtain ⟨path, w₁, text, hpath, hexpand, hfits⟩ := snprintf_expands hindexed hne (by decide) hlone
    htime hsize deskNews NString.new
  have hboth := hpath.symm.trans (Prog.run_of_result hresult)
  obtain ⟨rfl, rfl⟩ := Prod.mk.inj (Except.ok.inj hboth)
  have htext : text = ascii "x CREATE:DELETE%2anow%x" :=
    Option.some.inj (hexpand.symm.trans (by decide +kernel))
  rw [htext] at hfits
  obtain ⟨ret, out, w', hrun, hout, -⟩ := hfits (by decide)
  exact ⟨ret, out, w', hrun, hout⟩

end InotifyTools
