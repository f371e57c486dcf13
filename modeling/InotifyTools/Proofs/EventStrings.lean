import InotifyTools.Proofs.EventLists
import InotifyTools.Implementation.Format
import Mathlib.Data.Bool.AllAny

set_option autoImplicit false

/-! # Event strings

What `event_to_str_sep` prints, and that the event-list parser reads it back. -/

namespace InotifyTools

variable {σ : Type}

/-! ## Hexadecimal digits -/

/-- A digit is the character of a number below the base. -/
theorem digitChar_of_mem_toDigits {b n : Nat} {c : Char} (hb : 1 < b) (h : c ∈ Nat.toDigits b n) :
    ∃ d < b, c = Nat.digitChar d := by
  induction n using Nat.strongRecOn with
  | ind n ih =>
      rw [Nat.toDigits_eq_if hb] at h
      split at h
      · next hlt => exact ⟨n, hlt, List.mem_singleton.1 h⟩
      · next hge =>
          rcases List.mem_append.1 h with h | h
          · exact ih (n / b) (Nat.div_lt_self (by omega) hb) h
          · exact ⟨n % b, Nat.mod_lt n (by omega), List.mem_singleton.1 h⟩

theorem hexDigits_noNul (n : Nat) : 0 ∉ hexDigits n := by
  intro h
  obtain ⟨c, hc, hzero⟩ := List.mem_map.1 h
  obtain ⟨d, hd, rfl⟩ := digitChar_of_mem_toDigits (by decide) hc
  have hall : ∀ d < 16, (Nat.digitChar d).toUInt8 ≠ 0 := by decide
  exact hall d hd hzero

theorem length_hexDigits_pos (n : Nat) : 0 < (hexDigits n).length := by
  rw [hexDigits, List.length_map]
  exact Nat.length_toDigits_pos

theorem length_hexDigits (x : UInt32) : (hexDigits x.toNat).length ≤ 8 := by
  rw [hexDigits, List.length_map]
  exact (Nat.length_toDigits_le_iff (by decide) (by decide)).2 x.toNat_lt

/-! ## The string of a mask -/

/-- The names of the named events of a mask, in the order they are printed. -/
def maskNames (events : Int32) (names : List (Int32 × Bytes)) : List Bytes :=
  (names.filter fun n => n.1 &&& events ≠ 0).map Prod.snd

/-- The separator before a name. NUL separates nothing. -/
def separator (sep : UInt8) : Bytes := if sep = 0 then [] else [sep]

theorem length_separator (sep : UInt8) : (separator sep).length ≤ 1 := by
  unfold separator
  split <;> simp

/-- A mask without named events. -/
def hexMask (events : Int32) : Bytes :=
  let digits := hexDigits events.toUInt32.toNat
  ascii "0x" ++ List.replicate (8 - digits.length) 0x30 ++ digits

/-- What `event_to_str_sep` makes of a mask. A NUL separates nothing: the names go one behind the
    other, and the first byte is taken for the separator before them. -/
def eventString (events : Int32) (sep : UInt8) : Bytes :=
  if maskNames events eventNames = [] then hexMask events
  else if sep = 0 then (maskNames events eventNames).flatten.drop 1
  else [sep].intercalate (maskNames events eventNames)

theorem intercalate_cons (sep : UInt8) (name : Bytes) (names : List Bytes) :
    [sep].intercalate (name :: names) = name ++ names.flatMap ([sep] ++ ·) := by
  induction names generalizing name with
  | nil => simp
  | cons name' names ih =>
      rw [List.intercalate_cons_cons, ih, List.flatMap_cons, List.append_assoc, List.append_assoc]

/-- All but the first byte of the names, each with the separator before it. -/
theorem eventString_eq_drop {events : Int32} (sep : UInt8) (h : maskNames events eventNames ≠ []) :
    eventString events sep
      = ((maskNames events eventNames).flatMap (separator sep ++ ·)).drop 1 := by
  rw [eventString, if_neg h, separator]
  split
  · rw [← List.flatMap_id]
    rfl
  · obtain ⟨name, names, hcons⟩ := List.exists_cons_of_ne_nil h
    rw [hcons, intercalate_cons]
    rfl

theorem length_hexMask (events : Int32) : (hexMask events).length = 10 := by
  have hlen := length_hexDigits events.toUInt32
  have htwo : (ascii "0x").length = 2 := rfl
  unfold hexMask
  simp only [List.length_append, List.length_replicate, htwo]
  omega

theorem hexMask_noNul (events : Int32) : 0 ∉ hexMask events := by
  unfold hexMask
  simp only [List.mem_append, not_or]
  refine ⟨⟨by decide, ?_⟩, hexDigits_noNul _⟩
  rw [List.mem_replicate]
  exact fun h => absurd h.2 (by decide)

/-! ## Building it in the buffer -/

/-- A buffer holds the C string `s` at `off`. -/
structure HoldsString (m : Mem) (off : Nat) (s : Bytes) : Prop where
  noNul : 0 ∉ s
  bytes : m.slice off (s ++ [0]).length = s ++ [0]

namespace HoldsString

variable {m : Mem} {off n : Nat} {s t : Bytes}

theorem slice_eq (h : HoldsString m off s) (hn : s.length < n) :
    ∃ rest, m.slice off n = s ++ 0 :: rest := by
  have hsplit : n = (s ++ [0]).length + (n - s.length - 1) := by
    simp only [List.length_append, List.length_singleton]
    omega
  refine ⟨m.slice (off + (s ++ [0]).length) (n - s.length - 1), ?_⟩
  rw [hsplit, Mem.slice_append, h.bytes, ← hsplit]
  simp

theorem findIdx? (h : HoldsString m 0 s) (hn : s.length < n) :
    (m.slice 0 n).findIdx? (· = 0) = some s.length := by
  obtain ⟨rest, hslice⟩ := h.slice_eq hn
  have hnone : s.findIdx? (· = 0) = none := by
    rw [List.findIdx?_eq_none_iff]
    intro b hb
    simpa using fun hzero : b = 0 => h.noNul (hzero ▸ hb)
  rw [hslice, List.findIdx?_append, hnone]
  simp [List.findIdx?_cons]

theorem strlen (h : HoldsString m 0 s) (hn : s.length < n) : strlen m n = s.length := by
  unfold InotifyTools.strlen
  rw [h.findIdx? hn]
  rfl

theorem cstring (h : HoldsString m off s) (hn : s.length < n) :
    (cstring (m.slice off n)).bytes = s := by
  obtain ⟨rest, hslice⟩ := h.slice_eq hn
  have hall : ∀ b ∈ s, decide (b ≠ 0) = true := fun b hb => by
    simpa using fun hzero : b = 0 => h.noNul (hzero ▸ hb)
  calc (InotifyTools.cstring (m.slice off n)).bytes
      = (s ++ 0 :: rest).takeWhile (· ≠ 0) := by rw [← hslice]; rfl
    _ = s := by rw [List.takeWhile_append_of_pos hall]; simp

theorem slice (h : HoldsString m off s) : m.slice off s.length = s :=
  (Mem.slice_append_eq h.bytes).1

theorem empty (h : m off = 0) : HoldsString m off [] where
  noNul := List.not_mem_nil
  bytes := congrArg (fun b => [b]) h

/-- A string written out. -/
theorem write (m : Mem) (off : Nat) (hs : 0 ∉ s) :
    HoldsString ((m.blit off s).set (off + s.length) 0) off s where
  noNul := hs
  bytes := by
    have hbytes : ((m.blit off s).set (off + s.length) 0).slice off s.length = s := by
      unfold Mem.set
      rw [Mem.slice_write_of_disjoint (.inl le_rfl), Mem.slice_blit]
    have hend : ((m.blit off s).set (off + s.length) 0).slice (off + s.length) 1 = [0] := by
      simp [Mem.slice, Mem.set, Mem.write]
    rw [List.length_append, Mem.slice_append, hbytes]
    exact congrArg (s ++ ·) hend

/-- Two strings one behind the other. -/
theorem join (hs : 0 ∉ s) (hslice : m.slice off s.length = s)
    (ht : HoldsString m (off + s.length) t) : HoldsString m off (s ++ t) where
  noNul := by
    rw [List.mem_append]
    exact not_or.2 ⟨hs, ht.noNul⟩
  bytes := by
    rw [List.append_assoc, List.length_append, Mem.slice_append, hslice, ht.bytes]

theorem append (h : HoldsString m off s) (ht : 0 ∉ t) :
    HoldsString ((m.blit (off + s.length) t).set (off + s.length + t.length) 0) off (s ++ t) := by
  refine .join h.noNul ?_ (.write m (off + s.length) ht)
  unfold Mem.set Mem.blit
  rw [Mem.slice_write_of_disjoint (.inl (by omega)), Mem.slice_write_of_disjoint (.inl le_rfl),
    h.slice]

theorem congr {m' : Mem} (h : HoldsString m off s)
    (hm : ∀ i ≤ s.length, m' (off + i) = m (off + i)) : HoldsString m' off s where
  noNul := h.noNul
  bytes := by
    rw [← h.bytes, Mem.length_slice]
    refine Mem.slice_congr fun i hi => hm i ?_
    rw [List.length_append, List.length_singleton] at hi
    omega

/-- Where the string ends. -/
theorem ends (h : HoldsString m off s) : m (off + s.length) = 0 :=
  (List.cons.inj (Mem.slice_append_eq h.bytes).2).1

/-- Appending a separator. -/
theorem push (h : HoldsString m off s) (sep : UInt8) :
    HoldsString ((m.set (off + s.length) sep).set (off + s.length + 1) 0) off
      (s ++ separator sep) := by
  by_cases hsep : sep = 0
  · subst hsep
    rw [separator, if_pos rfl, List.append_nil]
    refine h.congr fun i hi => ?_
    unfold Mem.set
    rw [Mem.write_of_lt (by omega)]
    rcases Nat.lt_or_eq_of_le hi with hlt | rfl
    · exact Mem.write_of_lt (by omega)
    · rw [h.ends]
      exact Mem.write_of_mem (i := 0) Nat.one_pos
  · have happend := h.append (t := [sep]) (by simpa using Ne.symm hsep)
    rw [separator, if_neg hsep, Mem.set_eq_blit m]
    exact happend

theorem drop {b : UInt8} (h : HoldsString m off (b :: s)) : HoldsString m (off + 1) s where
  noNul := fun hmem => h.noNul (List.mem_cons_of_mem b hmem)
  bytes := (List.cons.inj h.bytes).2

end HoldsString

/-- A world with another string buffer. -/
def World.withEvstr (w : World σ) (m : Mem) : World σ :=
  { w with lib := { w.lib with evstr := m } }

theorem setEvstr_run {i : Nat} {b : UInt8} {w : World σ} {m : Mem} (h : i < evstrSize) :
    setEvstr i b (w.withEvstr m) = .ok ((), w.withEvstr (m.set i b)) := by
  rw [setEvstr, Prog.guard, if_pos (decide_eq_true h)]
  rfl

theorem blitEvstr_run {i : Nat} {bs : Bytes} {w : World σ} {m : Mem}
    (h : i + bs.length ≤ evstrSize) :
    blitEvstr i bs (w.withEvstr m) = .ok ((), w.withEvstr (m.blit i bs)) := by
  rw [blitEvstr, Prog.guard, if_pos (decide_eq_true h)]
  rfl

theorem evstr_run (w : World σ) (m : Mem) :
    getLib (w.withEvstr m) = .ok ({ w.lib with evstr := m }, w.withEvstr m) := rfl

/-- One name is appended to the string in the buffer. -/
theorem appendEventName_run {m : Mem} {s name : Bytes} (w : World σ) (sep : UInt8)
    (h : HoldsString m 0 s) (hname : 0 ∉ name) (hroom : s.length + name.length + 1 < evstrSize) :
    ∃ m', appendEventName sep name (w.withEvstr m) = .ok ((), w.withEvstr m') ∧
      HoldsString m' 0 (s ++ (separator sep ++ name)) := by
  have hlen := length_separator sep
  have hpush := h.push sep
  have happend := hpush.append hname
  rw [Nat.zero_add] at hpush
  rw [List.append_assoc, Nat.zero_add, Nat.zero_add] at happend
  refine ⟨_, ?_, happend⟩
  unfold appendEventName
  rw [Prog.bind_run_ok (evstr_run w m), h.strlen (by omega),
    Prog.bind_run_ok (setEvstr_run (by omega)), Prog.bind_run_ok (setEvstr_run (by omega)),
    Prog.bind_run_ok (evstr_run w _), hpush.strlen (by simp only [List.length_append]; omega),
    Prog.bind_run_ok (blitEvstr_run (by simp only [List.length_append]; omega)),
    setEvstr_run (by simp only [List.length_append]; omega)]

theorem maskNames_cons (events flag : Int32) (name : Bytes) (names : List (Int32 × Bytes)) :
    maskNames events ((flag, name) :: names)
      = (if flag &&& events ≠ 0 then [name] else []) ++ maskNames events names := by
  unfold maskNames
  split
  · next h => rw [List.filter_cons_of_pos (by simpa using h)]; rfl
  · next h => rw [List.filter_cons_of_neg (by simpa using h)]; rfl

/-- The names of a mask are appended one by one. -/
theorem appendEventNames_run {m : Mem} {s : Bytes} {names : List (Int32 × Bytes)} (w : World σ)
    (events : Int32) (sep : UInt8) (h : HoldsString m 0 s) (hnames : ∀ n ∈ names, 0 ∉ n.2)
    (hroom : s.length + (names.map fun n => n.2.length + 1).sum < evstrSize) :
    ∃ m', appendEventNames events sep names (w.withEvstr m) = .ok ((), w.withEvstr m') ∧
      HoldsString m' 0 (s ++ (maskNames events names).flatMap (separator sep ++ ·)) := by
  induction names generalizing m s with
  | nil =>
      refine ⟨m, rfl, ?_⟩
      rw [maskNames, List.filter_nil, List.map_nil, List.flatMap_nil, List.append_nil]
      exact h
  | cons n names ih =>
      obtain ⟨flag, name⟩ := n
      rw [List.forall_mem_cons] at hnames
      rw [List.map_cons, List.sum_cons] at hroom
      dsimp only at hroom
      rw [maskNames_cons]
      unfold appendEventNames
      split
      · have hname : 0 ∉ name := hnames.1
        obtain ⟨m₁, hone, hholds⟩ := appendEventName_run w sep h hname (by omega)
        have hsep := length_separator sep
        obtain ⟨m₂, hrest, hall⟩ := ih hholds hnames.2 (by
          simp only [List.length_append]
          omega)
        refine ⟨m₂, ?_, ?_⟩
        · rw [Prog.bind_run_ok hone, hrest]
        · rw [List.singleton_append, List.flatMap_cons, ← List.append_assoc]
          exact hall
      · obtain ⟨m₂, hrest, hall⟩ := ih h hnames.2 (by omega)
        exact ⟨m₂, hrest, hall⟩

theorem length_flatMap_maskNames (events : Int32) (sep : UInt8) (names : List (Int32 × Bytes)) :
    ((maskNames events names).flatMap (separator sep ++ ·)).length
      ≤ (names.map fun n => n.2.length + 1).sum := by
  induction names with
  | nil => exact Nat.zero_le _
  | cons n names ih =>
      obtain ⟨flag, name⟩ := n
      have hsep := length_separator sep
      rw [maskNames_cons, List.map_cons, List.sum_cons, List.flatMap_append, List.length_append]
      dsimp only
      split
      · rw [List.flatMap_singleton, List.length_append]
        omega
      · rw [List.flatMap_nil, List.length_nil]
        omega

theorem eventNames_noNul : ∀ n ∈ eventNames, 0 ∉ n.2 := by decide

theorem eventNames_ne_nil : ∀ n ∈ eventNames, n.2 ≠ [] := by decide

/-- All names together fit the buffer. -/
theorem eventNames_fit : (eventNames.map fun n => n.2.length + 1).sum < evstrSize - 1 := by decide

theorem length_eventString (events : Int32) (sep : UInt8) :
    (eventString events sep).length < evstrSize := by
  have hfit := eventNames_fit
  have hsize : evstrSize = 1024 := rfl
  by_cases hnil : maskNames events eventNames = []
  · rw [eventString, if_pos hnil, length_hexMask]
    decide
  · have hlen := length_flatMap_maskNames events sep eventNames
    rw [eventString_eq_drop sep hnil, List.length_drop]
    omega

theorem eventNames_long : ∀ n ∈ eventNames, 4 ≤ n.2.length := by decide

/-- No string of events is shorter than that of `OPEN`. -/
theorem length_eventString_ge (events : Int32) (sep : UInt8) :
    (if sep = 0 then 3 else 4) ≤ (eventString events sep).length := by
  by_cases hnil : maskNames events eventNames = []
  · rw [eventString, if_pos hnil, length_hexMask]
    split <;> decide
  · obtain ⟨name, names, hcons⟩ := List.exists_cons_of_ne_nil hnil
    obtain ⟨n, hn, rfl⟩ := List.mem_map.1 (hcons ▸ List.mem_cons_self : name ∈ maskNames events eventNames)
    have hlong := eventNames_long n (List.mem_filter.1 hn).1
    rw [eventString_eq_drop sep hnil, hcons, List.flatMap_cons, List.length_drop]
    simp only [List.length_append]
    unfold separator
    split <;> simp <;> omega

theorem flatMap_maskNames_ne_nil {events : Int32} (sep : UInt8)
    (h : maskNames events eventNames ≠ []) :
    (maskNames events eventNames).flatMap (separator sep ++ ·) ≠ [] := by
  intro hnil
  obtain ⟨name, hname⟩ := List.exists_mem_of_ne_nil _ h
  obtain ⟨n, hn, rfl⟩ := List.mem_map.1 hname
  have hempty := List.flatMap_eq_nil_iff.1 hnil n.2 hname
  exact eventNames_ne_nil n (List.mem_filter.1 hn).1 (List.append_eq_nil_iff.1 hempty).2

/-- The hexadecimal form, which stands behind the separator. -/
theorem hexEvents_run (events : Int32) (sep : UInt8) (w : World σ) (m : Mem) :
    ∃ m', hexEvents events sep (w.withEvstr m) = .ok ((), w.withEvstr m') ∧
      HoldsString m' 1 (hexMask events) := by
  have hlen := length_hexMask events
  have hsize : evstrSize = 1024 := rfl
  have hblit : blitEvstr 1 (hexMask events) (w.withEvstr (m.set 0 sep))
      = .ok ((), w.withEvstr ((m.set 0 sep).blit 1 (hexMask events))) :=
    blitEvstr_run (by omega)
  refine ⟨_, ?_, .write (m.set 0 sep) 1 (hexMask_noNul events)⟩
  unfold hexEvents
  rw [Prog.bind_run_ok (setEvstr_run (by decide))]
  exact (Prog.bind_run_ok hblit).trans
    (setEvstr_run (show 1 + (hexMask events).length < _ by omega))

/-- The string of a mask, whatever the separator. -/
theorem eventToStrSep_run (events : Int32) (sep : UInt8) (w : World σ) :
    ∃ m, eventToStrSep events sep w = .ok (eventString events sep, w.withEvstr m) := by
  have hsize : evstrSize = 1024 := rfl
  have hfit := eventNames_fit
  have hstart : HoldsString ((w.lib.evstr.set 0 0).set 1 0) 0 [] := .empty rfl
  obtain ⟨m, hrun, hm⟩ := appendEventNames_run w events sep hstart eventNames_noNul (by
    rw [List.length_nil]
    omega)
  have hlen := length_flatMap_maskNames events sep eventNames
  rw [List.nil_append] at hm
  have hfirst : setEvstr 0 0 w = .ok ((), w.withEvstr (w.lib.evstr.set 0 0)) :=
    setEvstr_run (m := w.lib.evstr) (by decide)
  unfold eventToStrSep
  rw [Prog.bind_run_ok hfirst, Prog.bind_run_ok (setEvstr_run (by decide)), Prog.bind_run_ok hrun,
    Prog.bind_run_ok (evstr_run w m)]
  dsimp only
  by_cases hnames : maskNames events eventNames = []
  · rw [hnames] at hm
    obtain ⟨m', hhex, hm'⟩ := hexEvents_run events sep w m
    have hzero : m 0 = 0 := hm.ends
    rw [if_pos hzero, Prog.bind_run_ok hhex, Prog.bind_run_ok (evstr_run w m'), eventString,
      if_pos hnames]
    refine ⟨m', congrArg (fun s => Except.ok (s, w.withEvstr m')) (hm'.cstring ?_)⟩
    rw [length_hexMask]
    decide
  · obtain ⟨b, s, hcons⟩ := List.exists_cons_of_ne_nil (flatMap_maskNames_ne_nil sep hnames)
    rw [eventString_eq_drop sep hnames]
    rw [hcons] at hm hlen ⊢
    have hb : m 0 ≠ 0 := by
      have hslice : m 0 = b := (List.cons.inj hm.bytes).1
      rw [hslice]
      rintro rfl
      exact hm.noNul List.mem_cons_self
    rw [if_neg hb, Prog.pure_bind, Prog.bind_run_ok (evstr_run w m)]
    refine ⟨m, congrArg (fun s => Except.ok (s, w.withEvstr m)) (hm.drop.cstring ?_)⟩
    rw [List.length_cons] at hlen
    omega

/-! ## Reading it back -/

/-- The bits of all names that are printed. -/
def printedBits : Int32 := Masks.union 0 (eventNames.map Prod.fst)

/-- What reading back the string of `m` gives: its named bits, and the whole of `CLOSE` for a part
    of it. -/
def readBack (m : Int32) : Int32 :=
  (m &&& printedBits) ||| if m &&& inClose ≠ 0 then inClose else 0

/-- The flags before and after `CLOSE`, which is no single bit. -/
theorem eventNames_eq : eventNames.map Prod.fst =
    (eventNames.take 14).map Prod.fst ++ inClose :: (eventNames.drop 15).map Prod.fst := by decide

theorem single_of_mem_eventNames :
    ∀ f ∈ (eventNames.take 14).map Prod.fst ++ (eventNames.drop 15).map Prod.fst,
      Masks.Single f := List.all_iff_forall_prop.1 (by decide)

theorem eventMask_of_mem_eventNames : ∀ n ∈ eventNames, eventMask n.2 = some n.1 := by decide

/-- The flags of the printed names. -/
theorem filterMap_maskNames (m : Int32) : (maskNames m eventNames).filterMap eventMask
    = (eventNames.map Prod.fst).filter fun f => f &&& m ≠ 0 := by
  have hmask : ∀ n ∈ eventNames.filter fun n => n.1 &&& m ≠ 0,
      (eventMask ∘ Prod.snd) n = (some ∘ Prod.fst) n :=
    fun n hn => eventMask_of_mem_eventNames n (List.mem_filter.1 hn).1
  rw [maskNames, List.filterMap_map, List.filterMap_congr hmask, List.filter_map,
    List.filterMap_eq_map]
  rfl

theorem union_flags (m : Int32) :
    Masks.union 0 ((eventNames.map Prod.fst).filter fun f => f &&& m ≠ 0) = readBack m := by
  have hpre := Masks.union_filter_single m fun f hf =>
    single_of_mem_eventNames f (List.mem_append_left _ hf)
  have hpost := Masks.union_filter_single m fun f hf =>
    single_of_mem_eventNames f (List.mem_append_right _ hf)
  have hbits : printedBits = Masks.union 0 ((eventNames.take 14).map Prod.fst)
      ||| Masks.union 0 ((eventNames.drop 15).map Prod.fst) := by decide
  rw [eventNames_eq, List.filter_append, List.filter_cons, Masks.union_append, hpre, readBack,
    hbits, Masks.and_or_distrib_left, Int32.and_comm m inClose]
  by_cases hclose : inClose &&& m = 0
  · rw [if_neg (by simpa using hclose), if_neg (by simpa using hclose), hpost, Int32.or_zero]
  · rw [if_pos (by simpa using hclose), if_pos hclose, Masks.union_cons, Int32.zero_or,
      Masks.union_eq_or inClose, hpost, Int32.or_assoc, Int32.or_comm inClose]

/-- A mask with a printed bit has a name to print. -/
theorem maskNames_ne_nil {m : Int32} (h : m &&& printedBits ≠ 0) :
    maskNames m eventNames ≠ [] := by
  intro hnil
  have hflags := union_flags m
  rw [← filterMap_maskNames, hnil] at hflags
  exact h (Int32.or_eq_zero_iff.1 hflags.symm).1

theorem readBack_within (m : Int32) : readBack m &&& printedBits = readBack m := by
  have hclose : inClose &&& printedBits = inClose := by decide
  rw [readBack, Masks.and_or_distrib_right, Int32.and_assoc, Int32.and_self]
  split
  · rw [hclose]
  · rw [Int32.zero_and]

theorem readBack_ne {m : Int32} (h : m &&& printedBits ≠ 0) : readBack m ≠ 0 ∧ readBack m ≠ -1 := by
  constructor
  · exact fun hzero => h (Int32.or_eq_zero_iff.1 hzero).1
  · intro hall
    have hwithin := readBack_within m
    rw [hall] at hwithin
    exact absurd hwithin (by decide)

/-- What has been read back is read back as it is. -/
theorem readBack_readBack (m : Int32) : readBack (readBack m) = readBack m := by
  rw [readBack, readBack_within]
  by_cases hclose : m &&& inClose = 0
  · have hpart : readBack m &&& inClose = 0 := by
      have hwithin : printedBits &&& inClose = inClose := by decide
      rw [readBack, if_neg (not_not.2 hclose), Int32.or_zero, Int32.and_assoc, hwithin, hclose]
    rw [if_neg (not_not.2 hpart), Int32.or_zero]
  · have hwhole : readBack m ||| inClose = readBack m := by
      rw [readBack, if_pos hclose, Int32.or_assoc, Int32.or_self]
    split
    · exact hwhole
    · exact Int32.or_zero

/-- Separators are not among the bytes of a name. -/
theorem not_mem_name {sep : UInt8} (hsep : Separates sep) : ∀ n ∈ eventNames, sep ∉ n.2 := by
  have hall : (eventNames.all fun n => n.2.all fun b => b = 0x5f ∨ isAsciiAlphabetic b) = true := by
    decide
  simp only [List.all_eq_true, decide_eq_true_eq] at hall
  intro n hn hmem
  rcases hall n hn sep hmem with h | h
  · exact hsep.2.1 h
  · exact absurd h (by simp [hsep.2.2])

theorem eventString_noNul (m : Int32) (sep : UInt8) : 0 ∉ eventString m sep := by
  by_cases hnil : maskNames m eventNames = []
  · rw [eventString, if_pos hnil]
    exact hexMask_noNul m
  · rw [eventString_eq_drop sep hnil]
    intro hmem
    obtain ⟨name, hname, hbyte⟩ := List.mem_flatMap.1 (List.mem_of_mem_drop hmem)
    obtain ⟨n, hn, rfl⟩ := List.mem_map.1 hname
    rcases List.mem_append.1 hbyte with hbyte | hbyte
    · unfold separator at hbyte
      split at hbyte
      · cases hbyte
      · next hsep => exact hsep (List.mem_singleton.1 hbyte).symm
    · exact eventNames_noNul n (List.mem_filter.1 hn).1 hbyte

variable [Sys σ]

/-- Reading the string of a mask. -/
theorem strToEventSep_eventString {m : Int32} {sep : UInt8} (hsep : Separates sep)
    (h : m &&& printedBits ≠ 0) (w : World σ) :
    ∃ os, strToEventSep (some (eventString m sep)) sep w = .ok (readBack m, { w with os }) := by
  have hne := maskNames_ne_nil h
  obtain ⟨os, hrun⟩ := strToEventSep_run hsep (eventString m sep) w
  have hnul : (eventString m sep).takeWhile (· ≠ 0) = eventString m sep :=
    List.takeWhile_eq_self_iff.2 fun b hb => by
      simpa using fun hzero : b = 0 => eventString_noNul m sep (hzero ▸ hb)
  have hsplit : (eventString m sep).splitOn sep = maskNames m eventNames := by
    rw [eventString, if_neg hne, if_neg hsep.1]
    refine List.splitOn_intercalate sep (fun name hname => ?_) hne
    obtain ⟨n, hn, rfl⟩ := List.mem_map.1 hname
    exact not_mem_name hsep n (List.mem_filter.1 hn).1
  have hknown : (maskNames m eventNames).find? (fun e => (eventMask e).isNone) = none := by
    rw [List.find?_eq_none]
    intro name hname
    obtain ⟨n, hn, rfl⟩ := List.mem_map.1 hname
    rw [eventMask_of_mem_eventNames n (List.mem_filter.1 hn).1]
    exact nofun
  refine ⟨os, ?_⟩
  rw [hrun, hnul, hsplit, listMask, hknown, filterMap_maskNames, union_flags]

/-- A mask is printed and read back. -/
def reparse (m : Int32) (sep : UInt8) : M σ Int32 := do
  strToEventSep (some (← eventToStrSep m sep)) sep

theorem reparse_run {m : Int32} {sep : UInt8} (hsep : Separates sep) (h : m &&& printedBits ≠ 0)
    (w : World σ) : ∃ w', reparse m sep w = .ok (readBack m, w') := by
  obtain ⟨b, hprint⟩ := eventToStrSep_run m sep w
  obtain ⟨os, hparse⟩ := strToEventSep_eventString hsep h (w.withEvstr b)
  exact ⟨_, by rw [reparse, Prog.bind_run_ok hprint, hparse]⟩

/-- **Parsing undoes printing, up to `CLOSE`.** What comes back of a mask are its bits that have a
    name, with all of `CLOSE` for a part of it. It is neither of the values that stand for errors,
    and comes back as it is from then on. -/
theorem parse_print {m : Int32} {sep : UInt8} (hsep : Separates sep) (h : m &&& printedBits ≠ 0)
    (w : World σ) :
    ∃ w', reparse m sep w
        = .ok ((m &&& printedBits) ||| (if m &&& inClose ≠ 0 then inClose else 0), w') ∧
      readBack m ≠ 0 ∧ readBack m ≠ -1 ∧
      ∀ v : World σ, ∃ v', reparse (readBack m) sep v = .ok (readBack m, v') := by
  obtain ⟨w', hrun⟩ := reparse_run hsep h w
  obtain ⟨hzero, hone⟩ := readBack_ne h
  refine ⟨w', hrun, hzero, hone, fun v => ?_⟩
  have hagain : readBack m &&& printedBits ≠ 0 := by rwa [readBack_within]
  obtain ⟨v', hv⟩ := reparse_run hsep hagain v
  exact ⟨v', by rw [hv, readBack_readBack]⟩

/-- A mask with a part of `CLOSE` and a bit that has no name. -/
theorem parse_print_desk :
    ∃ w', reparse (inOpen ||| inCloseWrite ||| 0x1000) 0x2c
        ({ lib := Inotifytools.new, os := {} } : World Desk) = .ok (inOpen ||| inClose, w') := by
  have hsep : Separates 0x2c := ⟨by decide, by decide, by decide⟩
  obtain ⟨w', hrun, -⟩ := parse_print (m := inOpen ||| inCloseWrite ||| 0x1000) hsep (by decide)
    ({ lib := Inotifytools.new, os := {} } : World Desk)
  have hmask : readBack (inOpen ||| inCloseWrite ||| 0x1000) = inOpen ||| inClose := by decide
  exact ⟨w', hmask ▸ hrun⟩

end InotifyTools
