import InotifyTools.Proofs.FormatExpansion

set_option autoImplicit false

/-! # Formats that are cut off

Where an expansion does not fit, the cursor moves by the whole length of what is cut off, and a
directory part is left out altogether. Only where neither happens is the output a beginning of the
expansion. -/

namespace InotifyTools

variable {σ : Type} {size : Nat} {ss : List Segment} {o : OutCursor}

/-! ## What begins before the bound -/

/-- The segments that begin before the last byte all fit, from the cursor `c` on. -/
def AllFit (size : Nat) : List Segment → Nat → Prop
  | [], _ => True
  | s :: ss, c =>
      c + 1 < size → s.Fits (size - c) ∧ AllFit size ss (c + (s.text.getD []).length)

/-- The text of the segments that begin before the last byte. -/
def begun (size : Nat) : List Segment → Nat → Bytes
  | [], _ => []
  | s :: ss, c =>
      if c + 1 < size then s.text.getD [] ++ begun size ss (c + (s.text.getD []).length) else []

def Segment.isDirname : Segment → Bool
  | dirname _ => true
  | _ => false

/-- Without the directory parts. -/
def withoutDirs (ss : List Segment) : List Segment := ss.filter fun s => !s.isDirname

/-- The segments that begin before the last byte fit; or a directory part does not, and what comes
    after it fits and is a beginning of it. -/
def CutHonestly (size : Nat) : List Segment → Nat → Prop
  | [], _ => True
  | s :: ss, c =>
      c + 1 < size →
        (s.Fits (size - c) ∧ CutHonestly size ss (c + (s.text.getD []).length)) ∨
        ∃ t, s = .dirname t ∧ size - c < t.length ∧ AllFit size (withoutDirs ss) c ∧
          begun size (withoutDirs ss) c <+: t

/-- No segment is invalid. -/
def Valid (ss : List Segment) : Prop := ∀ s ∈ ss, s.text.isSome

theorem Valid.tail {s : Segment} (h : Valid (s :: ss)) : Valid ss :=
  fun s' hs' => h s' (List.mem_cons_of_mem s hs')

theorem Valid.head {s : Segment} (h : Valid (s :: ss)) : s.text = some (s.text.getD []) := by
  obtain ⟨t, ht⟩ := Option.isSome_iff_exists.1 (h s List.mem_cons_self)
  rw [ht]
  rfl

theorem Valid.withoutDirs (h : Valid ss) : Valid (withoutDirs ss) :=
  fun s hs => h s (List.mem_filter.1 hs).1

theorem expand_valid {text : Bytes} (h : expand ss = some text) : Valid ss := by
  induction ss generalizing text with
  | nil => exact nofun
  | cons s ss ih =>
      obtain ⟨t, htext, h⟩ := Option.bind_eq_some_iff.1 h
      obtain ⟨rest, hrest, -⟩ := Option.bind_eq_some_iff.1 h
      intro s' hs'
      rcases List.mem_cons.1 hs' with rfl | hs'
      · rw [htext]
        rfl
      · exact ih hrest s' hs'

/-- Without an invalid segment the scan comes to its end. -/
theorem layout_done (hvalid : Valid ss) (size : Nat) (o : OutCursor) :
    ∃ o', layout size ss o = (.done, o') := by
  induction ss generalizing o with
  | nil => exact ⟨o, rfl⟩
  | cons s ss ih =>
      unfold layout
      split
      · exact ⟨o, rfl⟩
      · obtain ⟨o₁, hplace⟩ := Option.ne_none_iff_exists'.1
          (mt (place_eq_none_iff s ((size : Int) - o.ind.toNat).toNat o).1
            (by rw [hvalid.head]; exact Option.some_ne_none _))
        rw [hplace]
        exact ih hvalid.tail o₁

/-! ## Laying out what fits -/

theorem layout_full (hfull : ¬ o.ind.toNat + 1 < size) (ss : List Segment) :
    layout size ss o = (.done, o) := by
  cases ss with
  | nil => rfl
  | cons s ss => exact if_pos (by omega)

theorem layout_cons {s : Segment} {o₁ : OutCursor} (hgoes : o.ind.toNat + 1 < size)
    (hplace : s.place (size - o.ind.toNat) o = some o₁) (ss : List Segment) :
    layout size (s :: ss) o = layout size ss o₁ := by
  have hroom : ((size : Int) - o.ind.toNat).toNat = size - o.ind.toNat := by omega
  rw [layout, if_neg (by omega), hroom, hplace]

/-- A segment that fits comes behind what is there, and the rest behind it. -/
theorem layout_next {s : Segment} {t : Bytes} (hsize : size ≤ maxStrlen)
    (hgoes : o.ind.toNat + 1 < size) (htext : s.text = some t) (hfits : s.Fits (size - o.ind.toNat))
    (ss : List Segment) :
    ∃ o₁, layout size (s :: ss) o = layout size ss o₁ ∧
      o₁.ind.toNat = o.ind.toNat + t.length ∧ o₁.ind.toNat ≤ size ∧
      o₁.buf.slice 0 o₁.ind.toNat = o.buf.slice 0 o.ind.toNat ++ t := by
  have hroom : 1 < size - o.ind.toNat := by omega
  have hbuf : o.ind.toNat + (size - o.ind.toNat) ≤ maxStrlen := by omega
  obtain ⟨o₁, hplace, hind, hslice⟩ := place_fits hroom hbuf htext hfits
  have hlen := hfits.length_le htext
  rw [← hind] at hslice
  exact ⟨o₁, layout_cons hgoes hplace ss, hind, by omega, hslice⟩

/-- Where all that begins fits, it stands in the output, and the cursor stays within the bound. -/
theorem layout_allFit (hsize : size ≤ maxStrlen) (hvalid : Valid ss)
    (hall : AllFit size ss o.ind.toNat) (hind : o.ind.toNat ≤ size) :
    ∃ o', layout size ss o = (.done, o') ∧
      o'.ind.toNat = o.ind.toNat + (begun size ss o.ind.toNat).length ∧ o'.ind.toNat ≤ size ∧
      o'.buf.slice 0 o'.ind.toNat = o.buf.slice 0 o.ind.toNat ++ begun size ss o.ind.toNat := by
  induction ss generalizing o with
  | nil => exact ⟨o, rfl, rfl, hind, (List.append_nil _).symm⟩
  | cons s ss ih =>
      unfold begun
      by_cases hgoes : o.ind.toNat + 1 < size
      · obtain ⟨hfits, hrest⟩ := hall hgoes
        obtain ⟨o₁, hnext, hind₁, hle₁, hslice₁⟩ := layout_next hsize hgoes hvalid.head hfits ss
        rw [← hind₁] at hrest
        obtain ⟨o₂, hlayout, hind₂, hle, hslice₂⟩ := ih hvalid.tail hrest hle₁
        rw [if_pos hgoes, ← hind₁]
        refine ⟨o₂, hnext.trans hlayout, ?_, hle, ?_⟩
        · rw [hind₂, List.length_append, hind₁, Nat.add_assoc]
        · rw [hslice₂, hslice₁, List.append_assoc]
      · rw [if_neg hgoes]
        exact ⟨o, layout_full hgoes _, rfl, hind, (List.append_nil _).symm⟩

/-- A directory part that does not fit is left out. -/
theorem layout_skip {t : Bytes} (hlong : size - o.ind.toNat < t.length) (ss : List Segment) :
    layout size (.dirname t :: ss) o = layout size ss o := by
  by_cases hgoes : o.ind.toNat + 1 < size
  · have hplace : (Segment.dirname t).place (size - o.ind.toNat) o = some o :=
      if_neg (Nat.not_le.2 hlong)
    exact layout_cons hgoes hplace ss
  · rw [layout_full hgoes, layout_full hgoes]

theorem withoutDirs_dirname (t : Bytes) (ss : List Segment) :
    withoutDirs (.dirname t :: ss) = withoutDirs ss := rfl

theorem withoutDirs_cons {s : Segment} (h : s.isDirname = false) (ss : List Segment) :
    withoutDirs (s :: ss) = s :: withoutDirs ss :=
  List.filter_cons_of_pos (by rw [h]; decide)

theorem Segment.eq_dirname {s : Segment} (h : s.isDirname = true) : ∃ t, s = .dirname t := by
  cases s with
  | dirname t => exact ⟨t, rfl⟩
  | _ => cases h

/-- Directory parts that do not fit make no difference. -/
theorem layout_withoutDirs (hsize : size ≤ maxStrlen) (hvalid : Valid ss)
    (hall : AllFit size (withoutDirs ss) o.ind.toNat)
    (hlong : ∀ t, .dirname t ∈ ss → size - o.ind.toNat < t.length) :
    layout size ss o = layout size (withoutDirs ss) o := by
  induction ss generalizing o with
  | nil => rfl
  | cons s ss ih =>
      have hlong' : ∀ t, .dirname t ∈ ss → size - o.ind.toNat < t.length :=
        fun t ht => hlong t (List.mem_cons_of_mem s ht)
      cases hdir : s.isDirname with
      | true =>
          obtain ⟨t, rfl⟩ := Segment.eq_dirname hdir
          rw [withoutDirs_dirname] at hall ⊢
          rw [layout_skip (hlong t List.mem_cons_self)]
          exact ih hvalid.tail hall hlong'
      | false =>
          rw [withoutDirs_cons hdir] at hall ⊢
          by_cases hgoes : o.ind.toNat + 1 < size
          · obtain ⟨hfits, hrest⟩ := hall hgoes
            have hroom : 1 < size - o.ind.toNat := by omega
            have hbuf : o.ind.toNat + (size - o.ind.toNat) ≤ maxStrlen := by omega
            obtain ⟨o₁, hplace, hind₁, -⟩ := place_fits hroom hbuf hvalid.head hfits
            rw [layout_cons hgoes hplace, layout_cons hgoes hplace]
            rw [← hind₁] at hrest
            refine ih hvalid.tail hrest fun t ht => ?_
            have := hlong' t ht
            omega
          · rw [layout_full hgoes, layout_full hgoes]

theorem take_of_prefix {xs ys : Bytes} (pre : Bytes) (h : xs <+: ys) :
    (pre ++ ys).take (pre.length + xs.length) = pre ++ xs := by
  rw [List.take_length_add_append, ← List.prefix_iff_eq_take.1 h]

theorem slice_eq_take (o : OutCursor) (text : Bytes) :
    o.buf.slice 0 o.ind.toNat = (o.buf.slice 0 o.ind.toNat ++ text).take o.ind.toNat := by
  rw [List.take_left' (Mem.length_slice ..)]

/-- Where what is cut off is cut off honestly, the output is a beginning of the expansion. -/
theorem layout_cutHonestly {d text : Bytes} (hsize : size ≤ maxStrlen) (hvalid : Valid ss)
    (hexpand : expand ss = some text) (hdirs : ∀ t, .dirname t ∈ ss → t = d)
    (hcut : CutHonestly size ss o.ind.toNat) (hind : o.ind.toNat ≤ size) :
    ∃ o', layout size ss o = (.done, o') ∧ o'.ind.toNat ≤ size ∧
      o'.buf.slice 0 o'.ind.toNat = (o.buf.slice 0 o.ind.toNat ++ text).take o'.ind.toNat := by
  induction ss generalizing o text with
  | nil => exact ⟨o, rfl, hind, slice_eq_take o text⟩
  | cons s ss ih =>
      by_cases hgoes : o.ind.toNat + 1 < size
      · have hdirs' : ∀ t, .dirname t ∈ ss → t = d :=
          fun t ht => hdirs t (List.mem_cons_of_mem s ht)
        obtain ⟨t, htext, hjoin⟩ := Option.bind_eq_some_iff.1 hexpand
        obtain ⟨rest, hrest, hjoin⟩ := Option.bind_eq_some_iff.1 hjoin
        cases hjoin
        rcases hcut hgoes with ⟨hfits, hcut⟩ | ⟨t', rfl, hlong, hall, hbegun⟩
        · obtain ⟨o₁, hnext, hind₁, hle₁, hslice₁⟩ := layout_next hsize hgoes htext hfits ss
          rw [htext, Option.getD_some, ← hind₁] at hcut
          obtain ⟨o₂, hlayout, hle, hslice₂⟩ := ih hvalid.tail hrest hdirs' hcut hle₁
          refine ⟨o₂, hnext.trans hlayout, hle, ?_⟩
          rw [hslice₂, hslice₁, List.append_assoc]
        · cases htext
          have hd := hdirs t List.mem_cons_self
          obtain ⟨o', hlayout, hind', hle, hslice⟩ :=
            layout_allFit hsize hvalid.tail.withoutDirs hall hind
          rw [layout_skip hlong, layout_withoutDirs hsize hvalid.tail hall
            fun t' ht' => by rw [hdirs' t' ht', ← hd]; exact hlong]
          refine ⟨o', hlayout, hle, ?_⟩
          have hlen : (o.buf.slice 0 o.ind.toNat).length = o.ind.toNat := Mem.length_slice ..
          rw [hslice, hind']
          have htake := take_of_prefix (o.buf.slice 0 o.ind.toNat)
            (hbegun.trans (List.prefix_append t rest))
          rw [hlen] at htake
          exact htake.symm
      · exact ⟨o, layout_full hgoes _, hind, slice_eq_take o text⟩

/-! ## What an overrun does -/

/-- No text is so long that the cursor, a number of 32 bits, could wrap around. -/
def Short (ss : List Segment) : Prop :=
  ∀ s ∈ ss, s.isDirname = false → (s.text.getD []).length + maxStrlen ≤ 2 ^ 32

theorem Short.tail {s : Segment} (h : Short (s :: ss)) : Short ss :=
  fun s' hs' => h s' (List.mem_cons_of_mem s hs')

theorem Short.head {s : Segment} {t : Bytes} (h : Short (s :: ss)) (htext : s.text = some t)
    (hdir : s.isDirname = false) : t.length + maxStrlen ≤ 2 ^ 32 := by
  have hs := h s List.mem_cons_self hdir
  rwa [htext] at hs

/-- A segment other than a directory part that does not fit moves the cursor to the bound or past
    it. Where it ends there, its last byte is a NUL that is not of its text. -/
theorem place_overrun {s : Segment} {t : Bytes} {room : Nat} (hroom : 1 < room)
    (h : o.ind.toNat + room ≤ maxStrlen) (htext : s.text = some t)
    (hshort : t.length + maxStrlen ≤ 2 ^ 32) (hdir : s.isDirname = false) (hfits : ¬ s.Fits room) :
    ∃ o', s.place room o = some o' ∧ o.ind.toNat + room ≤ o'.ind.toNat ∧
      (o'.ind.toNat = o.ind.toNat + room →
        o'.buf (o.ind.toNat + room - 1) = 0 ∧ 0 ∉ t ∧ room ≤ t.length) := by
  have hsize : maxStrlen = 4096 := rfl
  have hlen : (o.ind + UInt32.ofNat t.length).toNat = o.ind.toNat + t.length :=
    toNat_add_ofNat (by omega)
  cases s with
  | byte c =>
      refine absurd (fun t ht => ?_) hfits
      cases ht
      exact hroom.le
  | unknown ch1 =>
      refine absurd (fun t ht => ?_) hfits
      cases ht
      exact hroom
  | dirname t' => cases hdir
  | cookie c =>
      cases htext
      have hge : room ≤ (hexDigits c.toNat).length := Nat.not_lt.1 hfits
      refine ⟨_, rfl, ?_, fun _ => ?_⟩
      · dsimp only
        rw [hlen]
        omega
      · dsimp only
        have hlast : o.ind.toNat + min (hexDigits c.toNat).length (room - 1)
            = o.ind.toNat + room - 1 := by omega
        rw [hlast]
        exact ⟨Mem.write_of_mem (i := 0) Nat.one_pos, hexDigits_noNul _, hge⟩
  | copied t' =>
      cases htext
      have hlong : room < t.length := by
        rw [← Nat.not_le]
        refine fun hle => hfits fun t' ht => ?_
        cases ht
        exact hle
      have hind : (o.copy t room).ind.toNat = o.ind.toNat + t.length := hlen
      refine ⟨_, rfl, ?_, fun heq => ?_⟩
      · omega
      · omega
  | invalid => cases htext

theorem layout_overrun {s : Segment} {t : Bytes} (hsize : size ≤ maxStrlen)
    (hgoes : o.ind.toNat + 1 < size) (htext : s.text = some t)
    (hshort : t.length + maxStrlen ≤ 2 ^ 32) (hdir : s.isDirname = false)
    (hfits : ¬ s.Fits (size - o.ind.toNat)) (ss : List Segment) :
    ∃ o₁, layout size (s :: ss) o = (.done, o₁) ∧ size ≤ o₁.ind.toNat ∧
      (o₁.ind.toNat = size →
        o₁.buf (size - 1) = 0 ∧ 0 ∉ t ∧ size ≤ o.ind.toNat + t.length) := by
  have hroom : 1 < size - o.ind.toNat := by omega
  have hbuf : o.ind.toNat + (size - o.ind.toNat) ≤ maxStrlen := by omega
  have hsum : o.ind.toNat + (size - o.ind.toNat) = size := by omega
  obtain ⟨o₁, hplace, hind, hnul⟩ := place_overrun hroom hbuf htext hshort hdir hfits
  rw [hsum] at hind hnul
  refine ⟨o₁, ?_, hind, fun heq => ?_⟩
  · rw [layout_cons hgoes hplace, layout_full (by omega)]
  · obtain ⟨hzero, hnot, hge⟩ := hnul heq
    exact ⟨hzero, hnot, by omega⟩

/-- If the output stays within the bound and does not end in a NUL there, everything that begins
    fits, but for directory parts that are too long. -/
theorem allFit_of_layout {o' : OutCursor} (hsize : size ≤ maxStrlen) (hvalid : Valid ss)
    (hshort : Short ss)
    (hlong : ∀ t, .dirname t ∈ ss → size - o.ind.toNat < t.length)
    (hlayout : layout size ss o = (.done, o')) (hle : o'.ind.toNat ≤ size)
    (hlast : o'.ind.toNat = size → o'.buf (size - 1) ≠ 0) :
    AllFit size (withoutDirs ss) o.ind.toNat := by
  induction ss generalizing o with
  | nil => trivial
  | cons s ss ih =>
      have hlong' : ∀ t, .dirname t ∈ ss → size - o.ind.toNat < t.length :=
        fun t ht => hlong t (List.mem_cons_of_mem s ht)
      cases hdir : s.isDirname with
      | true =>
          obtain ⟨t, rfl⟩ := Segment.eq_dirname hdir
          rw [withoutDirs_dirname]
          rw [layout_skip (hlong t List.mem_cons_self)] at hlayout
          exact ih hvalid.tail hshort.tail hlong' hlayout
      | false =>
          rw [withoutDirs_cons hdir]
          intro hgoes
          by_cases hfits : s.Fits (size - o.ind.toNat)
          · obtain ⟨o₁, hnext, hind₁, -⟩ := layout_next hsize hgoes hvalid.head hfits ss
            rw [hnext] at hlayout
            refine ⟨hfits, ?_⟩
            rw [← hind₁]
            refine ih hvalid.tail hshort.tail (fun t ht => ?_) hlayout
            have := hlong' t ht
            omega
          · obtain ⟨o₁, hover, hind₁, hnul⟩ := layout_overrun hsize hgoes hvalid.head
              (hshort.head hvalid.head hdir) hdir hfits ss
            rw [hover] at hlayout
            cases hlayout
            have heq : o'.ind.toNat = size := Nat.le_antisymm hle hind₁
            exact absurd (hnul heq).1 (hlast heq)

/-- A byte of the text that has been written. -/
theorem mem_of_slice {m : Mem} {pre t rest : Bytes} {n i : Nat}
    (h : m.slice 0 n = (pre ++ (t ++ rest)).take n) (hi : i < n) (hpre : pre.length ≤ i)
    (ht : i < pre.length + t.length) : m i ∈ t := by
  have hslice : (m.slice 0 n)[i]? = some (m i) := by
    rw [List.getElem?_eq_getElem (by rwa [Mem.length_slice]), Mem.getElem_slice, Nat.zero_add]
  have hbyte : ((pre ++ (t ++ rest)).take n)[i]? = t[i - pre.length]? := by
    rw [List.getElem?_take_of_lt hi, List.getElem?_append_right hpre,
      List.getElem?_append_left (by omega)]
  rw [h, hbyte] at hslice
  exact List.mem_of_getElem? hslice

/-- If the output stays within the bound and is a beginning of the expansion, what is cut off is cut
    off honestly. -/
theorem cutHonestly_of_layout {d text : Bytes} {o' : OutCursor} (hsize : size ≤ maxStrlen)
    (hvalid : Valid ss) (hexpand : expand ss = some text)
    (hshort : Short ss) (hdirs : ∀ t, .dirname t ∈ ss → t = d)
    (hd : 0 ∉ d) (hlayout : layout size ss o = (.done, o')) (hle : o'.ind.toNat ≤ size)
    (hslice : o'.buf.slice 0 o'.ind.toNat
      = (o.buf.slice 0 o.ind.toNat ++ text).take o'.ind.toNat) :
    CutHonestly size ss o.ind.toNat := by
  induction ss generalizing o text with
  | nil => trivial
  | cons s ss ih =>
      intro hgoes
      have hpre : (o.buf.slice 0 o.ind.toNat).length = o.ind.toNat := Mem.length_slice ..
      have hdirs' : ∀ t, .dirname t ∈ ss → t = d :=
        fun t ht => hdirs t (List.mem_cons_of_mem s ht)
      obtain ⟨t, htext, hjoin⟩ := Option.bind_eq_some_iff.1 hexpand
      obtain ⟨rest, hrest, hjoin⟩ := Option.bind_eq_some_iff.1 hjoin
      cases hjoin
      by_cases hfits : s.Fits (size - o.ind.toNat)
      · left
        obtain ⟨o₁, hnext, hind₁, -, hslice₁⟩ := layout_next hsize hgoes htext hfits ss
        rw [hnext] at hlayout
        rw [htext, Option.getD_some, ← hind₁]
        refine ⟨hfits, ih hvalid.tail hrest hshort.tail hdirs' hlayout ?_⟩
        rw [hslice₁, List.append_assoc]
        exact hslice
      · right
        cases hdir : s.isDirname with
        | true =>
            obtain ⟨t', rfl⟩ := Segment.eq_dirname hdir
            cases htext
            have hlong : size - o.ind.toNat < t.length := by
              rw [← Nat.not_le]
              refine fun hfit => hfits fun t' ht => ?_
              cases ht
              exact hfit
            have hd' := hdirs t List.mem_cons_self
            -- every later `%w` is as long, and there is less room for it
            have hlong' : ∀ t', .dirname t' ∈ ss → size - o.ind.toNat < t'.length := by
              intro t' ht
              rw [hdirs' t' ht, ← hd']
              exact hlong
            rw [layout_skip hlong] at hlayout
            have hall : AllFit size (withoutDirs ss) o.ind.toNat := by
              refine allFit_of_layout hsize hvalid.tail hshort.tail hlong' hlayout hle
                fun heq hzero => ?_
              have hmem := mem_of_slice (i := size - 1) hslice (by omega) (by rw [hpre]; omega)
                (by rw [hpre]; omega)
              rw [hzero, hd'] at hmem
              exact hd hmem
            refine ⟨t, rfl, hlong, hall, ?_⟩
            obtain ⟨o₁, hlayout₁, hind₁, hle₁, hslice₁⟩ := layout_allFit (o := o) hsize
              hvalid.tail.withoutDirs hall (by omega)
            rw [layout_withoutDirs hsize hvalid.tail hall hlong', hlayout₁] at hlayout
            cases hlayout
            rw [hslice₁, hind₁] at hslice
            nth_rewrite 3 [← hpre] at hslice
            rw [List.take_length_add_append] at hslice
            have hbegun := List.append_cancel_left hslice
            rw [List.take_append_of_le_length (by omega)] at hbegun
            rw [hbegun]
            exact List.take_prefix _ _
        | false =>
            -- a text that is cut leaves a NUL in the last byte, where the expansion has none
            obtain ⟨o₁, hover, hind₁, hnul⟩ := layout_overrun hsize hgoes htext
              (hshort.head htext hdir) hdir hfits ss
            rw [hover] at hlayout
            cases hlayout
            obtain ⟨hzero, hnot, hge⟩ := hnul (Nat.le_antisymm hle hind₁)
            have hmem := mem_of_slice (i := size - 1) hslice (by omega) (by rw [hpre]; omega)
              (by rw [hpre]; omega)
            rw [hzero] at hmem
            exact absurd hmem hnot

/-! ## Calls of `snprintf` -/

/-- The output stays within the bound, and is a beginning of the whole text. -/
def Truncates (size : Nat) (text : Bytes) (out : NString) : Prop :=
  out.len.toNat ≤ size ∧ out.buf.slice 0 out.len.toNat = text.take out.len.toNat

variable [Sys σ] {w w₁ : World σ} {path : EventPath} {ev : Event} {timefmt : Option CString}

theorem dirname_noNul (hpath : filenameFromEvent ev w = .ok (path, w₁)) : 0 ∉ path.dirname := by
  obtain ⟨⟨f, dl, off⟩, w₂, -, hrest⟩ := Prog.bind_ok hpath
  cases hrest
  exact fun h => f.noNul (List.mem_of_mem_take h)

theorem dirname_of_mem_segments {ts : List Token} {os : σ} {t : Bytes}
    (h : .dirname t ∈ segments path ev timefmt ts os) : t = path.dirname := by
  induction ts generalizing os with
  | nil => cases h
  | cons tok ts ih =>
      rcases List.mem_cons.1 h with h | h
      · cases tok with
        | dirname =>
            cases h
            rfl
        | time =>
            dsimp only [Token.segment] at h
            cases timefmt with
            | none => cases h
            | some tf =>
                dsimp only at h
                cases hnow : (Sys.strftimeNow tf os).1 with
                | none => rw [hnow] at h; cases h
                | some x => rw [hnow] at h; cases h
        | _ => cases h
      · exact ih h

/-- `strftime` writes into a buffer of `MAX_STRLEN` bytes. -/
def TimesFit (σ : Type) [Sys σ] : Prop :=
  ∀ (tf : CString) (os : σ) (t : Bytes), (Sys.strftimeNow tf os).1 = some t → t.length < maxStrlen

theorem Token.segment_short (tok : Token) (htimes : TimesFit σ)
    (hname : path.eventname.length + maxStrlen ≤ 2 ^ 32) (os : σ)
    (hdir : (tok.segment path ev timefmt os).1.isDirname = false) :
    ((tok.segment path ev timefmt os).1.text.getD []).length + maxStrlen ≤ 2 ^ 32 := by
  have hsize : maxStrlen = 4096 := rfl
  cases tok with
  | byte c => exact (by decide : 1 + maxStrlen ≤ 2 ^ 32)
  | unknown ch1 => exact (by decide : 2 + maxStrlen ≤ 2 ^ 32)
  | lone => exact (by decide : 0 + maxStrlen ≤ 2 ^ 32)
  | dirname => cases hdir
  | eventname => exact hname
  | cookie =>
      have hlen := length_hexDigits ev.cookie
      dsimp only [Token.segment, Segment.text, Option.getD_some]
      omega
  | events sep =>
      have hlen := length_eventString ev.mask.toInt32 sep
      have hstr : evstrSize = 1024 := rfl
      dsimp only [Token.segment, Segment.text, Option.getD_some]
      omega
  | time =>
      dsimp only [Token.segment]
      cases timefmt with
      | none => exact (by decide : 0 + maxStrlen ≤ 2 ^ 32)
      | some tf =>
          dsimp only
          cases hnow : (Sys.strftimeNow tf os).1 with
          | none => exact (by decide : 0 + maxStrlen ≤ 2 ^ 32)
          | some t =>
              have hlen := htimes tf os t hnow
              dsimp only [Segment.text, Option.getD_some]
              omega

theorem segments_short (htimes : TimesFit σ) (hname : path.eventname.length + maxStrlen ≤ 2 ^ 32)
    (ts : List Token) (os : σ) : Short (segments path ev timefmt ts os) := by
  have hsize : maxStrlen = 4096 := rfl
  induction ts generalizing os with
  | nil => exact nofun
  | cons tok ts ih =>
      intro s hs hdir
      rcases List.mem_cons.1 hs with rfl | hs
      · exact tok.segment_short htimes hname os hdir
      · exact ih _ s hs hdir

/-- **What a call of `snprintf` cuts off.** Its output is a beginning of the expansion if every
    segment that begins before the bound fits, where a directory part may be left out that begins
    with what comes after it. Otherwise it is not, unless the event's name is of some 2^32 bytes. -/
theorem truncates_iff (hw : w.lib.store.WellIndexed) {fmt : Bytes} {size : Int32} (hne : fmt ≠ [])
    (hlen : fmt.length ≤ maxStrlen) (hlone : .lone ∉ tokens fmt)
    (htime : ∀ tf ∈ w.lib.timefmt, ∀ os : σ, (Sys.strftimeNow tf os).1.isSome)
    (hpos : 1 ≤ size.toInt) (hsize : size.toInt ≤ maxStrlen) (ev : Event) (out : NString) :
    ∃ path w₁ text ret out' w', filenameFromEvent ev w = .ok (path, w₁) ∧
      expand (segments path ev w₁.lib.timefmt (tokens fmt) w₁.os) = some text ∧
      snprintf out size ev (some fmt) w = .ok ((ret, out'), w') ∧
      (CutHonestly size.toInt.toNat (segments path ev w₁.lib.timefmt (tokens fmt) w₁.os) 0 →
        Truncates size.toInt.toNat text out') ∧
      (TimesFit σ → path.eventname.length + maxStrlen ≤ 2 ^ 32 →
        Truncates size.toInt.toNat text out' →
        CutHonestly size.toInt.toNat (segments path ev w₁.lib.timefmt (tokens fmt) w₁.os) 0) := by
  obtain ⟨path, w₁, hpath, heffects⟩ := filenameFromEvent_calm ev w hw
  rw [← heffects.timefmt] at htime
  obtain ⟨text, hexpand⟩ := expand_segments path ev hlone htime w₁.os
  obtain ⟨w', hrun⟩ := snprintf_run hpath hne hlen hsize out
  obtain ⟨n, hn⟩ := Int.eq_ofNat_of_zero_le (show 0 ≤ size.toInt by omega)
  rw [hn] at hrun ⊢
  have hsize' : n ≤ maxStrlen := by omega
  have hvalid := expand_valid hexpand
  obtain ⟨o, hlayout⟩ := layout_done hvalid n { buf := out.buf, ind := 0 }
  rw [formatted, hlayout] at hrun
  refine ⟨path, w₁, text, _, _, w', hpath, hexpand, hrun, fun hcut => ?_,
    fun htimes hname hout => ?_⟩
  · obtain ⟨o', hlayout', hle, hslice⟩ := layout_cutHonestly (o := { buf := out.buf, ind := 0 })
      hsize' hvalid hexpand (fun t ht => dirname_of_mem_segments ht) hcut (Nat.zero_le n)
    rw [hlayout] at hlayout'
    cases hlayout'
    exact ⟨hle, hslice⟩
  · exact cutHonestly_of_layout (o := { buf := out.buf, ind := 0 }) hsize' hvalid hexpand
      (segments_short htimes hname _ _) (fun t ht => dirname_of_mem_segments ht)
      (dirname_noNul hpath) hlayout hout.1 hout.2

/-- Where a bound of two bytes falls between two bytes of the format. -/
theorem truncates_iff_desk :
    ∃ ret out w', snprintf NString.new 2 deskNews (some (ascii "ab")) deskTimed
        = .ok ((ret, out), w') ∧
      Truncates 2 (ascii "ab") out := by
  have hindexed : deskTimed.lib.store.WellIndexed := Store.wellIndexed_empty
  have htokens : tokens (ascii "ab") = [.byte 0x61, .byte 0x62] := by decide +kernel
  have hlone : .lone ∉ tokens (ascii "ab") := by rw [htokens]; decide
  have htime : ∀ tf ∈ deskTimed.lib.timefmt, ∀ os : Desk, (Sys.strftimeNow tf os).1.isSome :=
    fun _ _ _ => rfl
  have hpos : 1 ≤ (2 : Int32).toInt := by decide
  obtain ⟨path, w₁, text, ret, out, w', hpath, hexpand, hrun, hcut, -⟩ := truncates_iff hindexed
    (by decide) (by decide) hlone htime hpos (by decide) deskNews NString.new
  rw [htokens] at hexpand hcut
  cases hexpand
  have hend : ¬ 0 + 1 + 1 < 2 := by decide
  refine ⟨ret, out, w', hrun, hcut fun _ => .inl ⟨?_, fun h => absurd h hend⟩⟩
  rintro t ⟨⟩
  decide

/-- An event with a name of ten bytes. -/
def deskLong : Event := { deskNews with name := ascii "0123456789", len := 16 }

/-- A name that does not fit is counted with its whole length. -/
theorem snprintf_overruns :
    ∃ ret out w', snprintf NString.new 5 deskLong (some (ascii "%f")) deskTimed
        = .ok ((ret, out), w') ∧
      out.len = 10 ∧ ∀ text, ¬ Truncates 5 text out := by
  have hresult : ((snprintf NString.new 5 deskLong (some (ascii "%f"))).result deskTimed).map
      (fun r => r.2.len) = some 10 := by decide +kernel
  obtain ⟨⟨ret, out⟩, hrun, hlen⟩ := Option.map_eq_some_iff.1 hresult
  refine ⟨ret, out, _, Prog.run_of_result hrun, hlen, fun text h => ?_⟩
  have hle := h.1
  dsimp only at hlen
  rw [hlen] at hle
  exact absurd hle (by decide)

end InotifyTools
