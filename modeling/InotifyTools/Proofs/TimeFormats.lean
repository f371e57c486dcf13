import InotifyTools.Proofs.FormatExpansion
import InotifyTools.Tools.Options
import Mathlib.Data.Bool.AllAny
import Mathlib.Data.List.Infix
import Mathlib.Logic.Relation

set_option autoImplicit false

/-! # Formats with a time

A format with a `%T` asks for a `--timefmt`. What is looked for are the two bytes, which also stand
in `%%T`, a percent sign and a letter. -/

namespace InotifyTools

/-! ## The bytes `%T` -/

/-- A percent sign that is written out, and a `T` behind it. -/
def escapedTime : List Token := [.byte 0x25, .byte 0x54]

theorem escapedTime_cons {t : Token} (h : t ≠ .byte 0x25) (ts : List Token) :
    escapedTime <:+: t :: ts ↔ escapedTime <:+: ts := by
  rw [List.infix_cons_iff, escapedTime, List.cons_prefix_cons]
  exact or_iff_right fun hprefix => h hprefix.1.symm

theorem escapedTime_percent (ts : List Token) :
    escapedTime <:+: .byte 0x25 :: ts ↔ ts.head? = some (.byte 0x54) ∨ escapedTime <:+: ts := by
  rw [List.infix_cons_iff]
  refine or_congr_left ?_
  rw [escapedTime, List.cons_prefix_cons]
  cases ts with
  | nil => exact ⟨fun h => absurd h.2 (by simp), nofun⟩
  | cons t ts =>
      rw [List.cons_prefix_cons, List.head?_cons, Option.some.injEq]
      exact ⟨fun h => h.2.1.symm, fun h => ⟨rfl, h.symm, List.nil_prefix⟩⟩

theorem ofConversion_eq_time_iff {ch1 : UInt8} (hconv : isConversion ch1 = true) :
    Token.ofConversion ch1 = .time ↔ ch1 = 0x54 := by
  have hall : ∀ c ∈ ascii "%0nwfceT", Token.ofConversion c = .time ↔ c = 0x54 :=
    List.all_iff_forall_prop.1 (by decide)
  exact hall ch1 (List.contains_iff_mem.1 hconv)

theorem ofConversion_eq_percent_iff {ch1 : UInt8} (hconv : isConversion ch1 = true) :
    Token.ofConversion ch1 = .byte 0x25 ↔ ch1 = 0x25 := by
  have hall : ∀ c ∈ ascii "%0nwfceT", Token.ofConversion c = .byte 0x25 ↔ c = 0x25 :=
    List.all_iff_forall_prop.1 (by decide)
  exact hall ch1 (List.contains_iff_mem.1 hconv)

theorem ofConversion_ne_letter {ch1 : UInt8} (hconv : isConversion ch1 = true) :
    Token.ofConversion ch1 ≠ .byte 0x54 := by
  have hall : ∀ c ∈ ascii "%0nwfceT", Token.ofConversion c ≠ .byte 0x54 :=
    List.all_iff_forall_prop.1 (by decide)
  exact hall ch1 (List.contains_iff_mem.1 hconv)

/-- Only the letter itself is the token of a `T`. -/
theorem head_tokens_iff (fmt : Bytes) :
    (tokens fmt).head? = some (.byte 0x54) ↔ fmt.head? = some 0x54 := by
  fun_cases tokens fmt with
  | case1 => exact ⟨nofun, nofun⟩
  | case2 => decide
  | case3 c hc => simp
  | case4 c ch1 fmt hc => simp
  | case5 c ch1 fmt hc hconv =>
      obtain rfl : c = 0x25 := not_not.1 hc
      rw [List.head?_cons, List.head?_cons, Option.some.injEq, Option.some.injEq]
      exact iff_of_false (ofConversion_ne_letter hconv) (by decide)
  | case6 c ch1 hc hconv =>
      obtain rfl : c = 0x25 := not_not.1 hc
      exact iff_of_false nofun (by simp)
  | case7 c ch1 hc hconv fmt' =>
      obtain rfl : c = 0x25 := not_not.1 hc
      exact iff_of_false nofun (by simp)
  | case8 c ch1 hc hconv ch2 fmt' hch =>
      obtain rfl : c = 0x25 := not_not.1 hc
      exact iff_of_false nofun (by simp)

theorem hasPair_cons (c : UInt8) (fmt : Bytes) : Inotifywait.hasPair 0x25 0x54 (c :: fmt) = true
    ↔ (c = 0x25 ∧ fmt.head? = some 0x54) ∨ Inotifywait.hasPair 0x25 0x54 fmt = true := by
  cases fmt with
  | nil => simp [Inotifywait.hasPair]
  | cons c' fmt =>
      rw [Inotifywait.hasPair, decide_eq_true_iff, List.head?_cons, Option.some.injEq]

theorem hasPair_cons_of_ne {c : UInt8} (h : c ≠ 0x25) (fmt : Bytes) :
    Inotifywait.hasPair 0x25 0x54 (c :: fmt) = true ↔ Inotifywait.hasPair 0x25 0x54 fmt = true :=
  (hasPair_cons c fmt).trans (or_iff_right fun hpair => h hpair.1)

/-- **The two bytes stand in a format that asks for the time, or that writes them out.** -/
theorem hasPair_iff (fmt : Bytes) : Inotifywait.hasPair 0x25 0x54 fmt = true
    ↔ .time ∈ tokens fmt ∨ escapedTime <:+: tokens fmt := by
  have hother : ∀ {c d : UInt8}, ¬isConversion c = true → isConversion d = true → c ≠ d := by
    rintro c d hc hd rfl
    exact hc hd
  fun_induction tokens fmt with
  | case1 => decide
  | case2 => decide
  | case3 c hc =>
      refine (hasPair_cons_of_ne hc []).trans ?_
      rw [escapedTime_cons (by simpa using hc)]
      simp [Inotifywait.hasPair, escapedTime]
  | case4 c ch1 fmt hc ih =>
      refine (hasPair_cons_of_ne hc _).trans (ih.trans ?_)
      rw [escapedTime_cons (by simpa using hc)]
      simp
  | case5 c ch1 fmt hc hconv ih =>
      obtain rfl : c = 0x25 := not_not.1 hc
      -- a second `%` may begin a pair of its own, as in `%%T`
      by_cases hpercent : ch1 = 0x25
      · subst hpercent
        have htoken : Token.ofConversion 0x25 = .byte 0x25 := rfl
        refine (hasPair_cons _ _).trans ((or_congr_right (hasPair_cons _ _)).trans ?_)
        rw [htoken, escapedTime_percent, head_tokens_iff]
        refine (or_congr_right (or_congr_right ih)).trans ?_
        simp [or_left_comm]
      · rw [escapedTime_cons (mt (ofConversion_eq_percent_iff hconv).1 hpercent), List.mem_cons,
          eq_comm (b := Token.ofConversion ch1), ofConversion_eq_time_iff hconv, or_assoc]
        refine (hasPair_cons _ _).trans (or_congr (by simp) ?_)
        exact (hasPair_cons_of_ne hpercent fmt).trans ih
  | case6 c ch1 hc hconv =>
      obtain rfl : c = 0x25 := not_not.1 hc
      have htime : ch1 ≠ 0x54 := hother hconv (by decide)
      have hunknown : Token.unknown ch1 ≠ .byte 0x25 := by simp
      rw [escapedTime_cons hunknown]
      simp [Inotifywait.hasPair, escapedTime, htime]
  | case7 c ch1 hc hconv fmt' ih =>
      obtain rfl : c = 0x25 := not_not.1 hc
      have htime : ch1 ≠ 0x54 := hother hconv (by decide)
      have hevents : Token.events ch1 ≠ .byte 0x25 := by simp
      rw [hasPair_cons, hasPair_cons_of_ne (hother hconv (by decide)),
        hasPair_cons_of_ne (by decide), escapedTime_cons hevents]
      simpa [htime] using ih
  | case8 c ch1 hc hconv ch2 fmt' hch ih =>
      obtain rfl : c = 0x25 := not_not.1 hc
      have htime : ch1 ≠ 0x54 := hother hconv (by decide)
      have hunknown : Token.unknown ch1 ≠ .byte 0x25 := by simp
      rw [hasPair_cons, hasPair_cons_of_ne (hother hconv (by decide)), escapedTime_cons hunknown]
      simpa [htime] using ih

/-! ## The points of a scan -/

variable {σ : Type}

/-- Where the scan of a format stands: before the rest of the format. -/
structure ScanPoint (σ : Type) where
  fmt : Bytes
  out : OutCursor
  world : World σ

namespace ScanPoint

/-- What comes next is a `%T` conversion. -/
def AtTime (size : Int) (p : ScanPoint σ) : Prop :=
  (p.out.ind.toNat : Int) < size - 1 ∧ ∃ fmt, p.fmt = 0x25 :: 0x54 :: fmt

end ScanPoint

variable [Sys σ]

/-- One turn of the loop of `snprintf`. -/
inductive ScanStep (path : EventPath) (ev : Event) (size : Int) : ScanPoint σ → ScanPoint σ → Prop
  | byte {c : UInt8} {fmt : Bytes} {o o' : OutCursor} {w w' : World σ}
      (hroom : (o.ind.toNat : Int) < size - 1) (hc : c ≠ 0x25)
      (hput : o.put c w = .ok (o', w')) : ScanStep path ev size ⟨c :: fmt, o, w⟩ ⟨fmt, o', w'⟩
  | conversion {ch1 : UInt8} {fmt : Bytes} {o o' : OutCursor} {w w' : World σ}
      (hroom : (o.ind.toNat : Int) < size - 1) (hconv : isConversion ch1 = true)
      (hrun : conversion path ev ch1 (size - o.ind.toNat).toNat o w = .ok (some o', w')) :
      ScanStep path ev size ⟨0x25 :: ch1 :: fmt, o, w⟩ ⟨fmt, o', w'⟩
  | events {ch1 : UInt8} {fmt s : Bytes} {o : OutCursor} {w w' : World σ}
      (hroom : (o.ind.toNat : Int) < size - 1)
      (hconv : ¬isConversion ch1 = true)
      (hrun : eventToStrSep ev.mask.toInt32 ch1 w = .ok (s, w')) :
      ScanStep path ev size ⟨0x25 :: ch1 :: 0x65 :: fmt, o, w⟩
        ⟨fmt, o.copy s (size - o.ind.toNat).toNat, w'⟩
  | unknown {ch1 : UInt8} {fmt : Bytes} {o : OutCursor} {w : World σ}
      (hroom : (o.ind.toNat : Int) < size - 1) (hconv : ¬isConversion ch1 = true)
      (hevents : fmt.head? ≠ some 0x65) :
      ScanStep path ev size ⟨0x25 :: ch1 :: fmt, o, w⟩
        ⟨fmt, (o.putIfRoom 0x25).putIfRoom ch1, w⟩

variable {path : EventPath} {ev : Event} {size : Int} {p q : ScanPoint σ}

/-- After a turn, the scan goes on from where it leads. -/
theorem ScanStep.scan (h : ScanStep path ev size p q) :
    snprintfScan path ev size p.fmt p.out p.world = snprintfScan path ev size q.fmt q.out q.world := by
  cases h with
  | @byte c fmt o o' w w' hroom hc hput =>
      cases fmt with
      | nil =>
          dsimp only
          conv_lhs => unfold snprintfScan
          rw [if_neg (not_not.2 hroom), if_neg hc, Prog.bind_run_ok hput]
          rfl
      | cons ch1 fmt =>
          dsimp only
          conv_lhs => unfold snprintfScan
          rw [if_neg (not_not.2 hroom), if_pos hc, Prog.bind_run_ok hput]
  | conversion hroom hconv hrun =>
      dsimp only
      conv_lhs => unfold snprintfScan
      rw [if_neg (not_not.2 hroom), if_neg (by decide), if_pos hconv, Prog.bind_run_ok hrun]
  | events hroom hconv hrun =>
      dsimp only
      conv_lhs => unfold snprintfScan
      rw [if_neg (not_not.2 hroom), if_neg (by decide), if_neg hconv]
      dsimp only
      rw [if_pos rfl, Prog.bind_run_ok hrun]
  | @unknown ch1 fmt o w hroom hconv hevents =>
      dsimp only
      conv_lhs => unfold snprintfScan
      rw [if_neg (not_not.2 hroom), if_neg (by decide), if_neg hconv]
      cases fmt with
      | nil => rfl
      | cons ch2 fmt => exact congrFun (if_neg fun h => hevents (congrArg some h)) w

/-- A turn takes one token. -/
theorem ScanStep.tokens (h : ScanStep path ev size p q) :
    ∃ t, InotifyTools.tokens p.fmt = t :: InotifyTools.tokens q.fmt := by
  cases h with
  | @byte c fmt o o' w w' hroom hc hput =>
      cases fmt with
      | nil => exact ⟨.byte c, if_neg hc⟩
      | cons ch1 fmt =>
          refine ⟨.byte c, ?_⟩
          dsimp only
          conv_lhs => unfold InotifyTools.tokens
          exact if_pos hc
  | @conversion ch1 fmt o o' w w' hroom hconv hrun =>
      refine ⟨.ofConversion ch1, ?_⟩
      dsimp only
      conv_lhs => unfold InotifyTools.tokens
      rw [if_neg (by decide), if_pos hconv]
  | @events ch1 fmt s o w w' hroom hconv hrun =>
      refine ⟨.events ch1, ?_⟩
      dsimp only
      conv_lhs => unfold InotifyTools.tokens
      rw [if_neg (by decide), if_neg hconv]
      exact if_pos rfl
  | @unknown ch1 fmt o w hroom hconv hevents =>
      refine ⟨.unknown ch1, ?_⟩
      dsimp only
      conv_lhs => unfold InotifyTools.tokens
      rw [if_neg (by decide), if_neg hconv]
      cases fmt with
      | nil => rfl
      | cons ch2 fmt => exact if_neg fun h => hevents (congrArg some h)

/-- The scan from `p` comes to a `%T` conversion. -/
def ReachesTime (path : EventPath) (ev : Event) (size : Int) (p : ScanPoint σ) : Prop :=
  ∃ q, Relation.ReflTransGen (ScanStep path ev size) p q ∧ q.AtTime size

theorem ReachesTime.step (h : ScanStep path ev size p q) (hq : ReachesTime path ev size q) :
    ReachesTime path ev size p := by
  obtain ⟨r, hreach, htime⟩ := hq
  exact ⟨r, .head h hreach, htime⟩

omit [Sys σ] in
theorem ScanPoint.AtTime.mem (h : p.AtTime size) : .time ∈ tokens p.fmt := by
  obtain ⟨-, fmt, hfmt⟩ := h
  have htokens : tokens (0x25 :: 0x54 :: fmt) = .time :: tokens fmt := by
    conv_lhs => unfold tokens
    rw [if_neg (by decide), if_pos (by decide)]
    rfl
  rw [hfmt, htokens]
  exact List.mem_cons_self

/-- Only a token of the format brings the scan to a time. -/
theorem ReachesTime.mem (h : ReachesTime path ev size p) : .time ∈ tokens p.fmt := by
  obtain ⟨q, hreach, htime⟩ := h
  induction hreach using Relation.ReflTransGen.head_induction_on with
  | refl => exact htime.mem
  | head hstep _ ih =>
      obtain ⟨t, htokens⟩ := hstep.tokens
      rw [htokens]
      exact List.mem_cons_of_mem t ih

omit [Sys σ] in
/-- With room for a whole expansion, its first segment leaves room for the others. -/
theorem place_room (hsize : size ≤ maxStrlen) {s : Segment} {ss : List Segment} {o : OutCursor}
    {text : Bytes} (hexpand : expand (s :: ss) = some text)
    (hroom : (o.ind.toNat : Int) + text.length < size - 1) :
    ∃ o' rest, s.place (size - o.ind.toNat).toNat o = some o' ∧ expand ss = some rest ∧
      (o'.ind.toNat : Int) + rest.length < size - 1 := by
  obtain ⟨t, htext, hexpand⟩ := Option.bind_eq_some_iff.1 hexpand
  obtain ⟨rest, hrest, hjoin⟩ := Option.bind_eq_some_iff.1 hexpand
  cases hjoin
  rw [List.length_append] at hroom
  have hsmall : 1 < (size - o.ind.toNat).toNat := by omega
  have hfits : o.ind.toNat + (size - o.ind.toNat).toNat ≤ maxStrlen := by omega
  obtain ⟨o', hplace, hind, -⟩ := place_fits hsmall hfits htext (Segment.fits_of_lt htext (by omega))
  exact ⟨o', rest, hplace, hrest, by omega⟩

/-- With room for the whole expansion, the scan comes to every `%T` of the format. -/
theorem reachesTime_of_mem (hpath : path.dirnamelen ≤ path.filename.length)
    (hsize : size ≤ maxStrlen) {fmt text : Bytes} {o : OutCursor} {w : World σ}
    (hmem : .time ∈ tokens fmt)
    (hexpand : expand (segments path ev w.lib.timefmt (tokens fmt) w.os) = some text)
    (hroom : (o.ind.toNat : Int) + text.length < size - 1) :
    ReachesTime path ev size ⟨fmt, o, w⟩ := by
  have hgoes : (o.ind.toNat : Int) < size - 1 := by omega
  fun_induction tokens fmt generalizing o w text with
  | case1 => cases hmem
  | case2 => cases List.mem_singleton.1 hmem
  | case3 => cases List.mem_singleton.1 hmem
  | case4 c ch1 fmt hc ih =>
      obtain ⟨o', rest, hplace, hrest, hleft⟩ := place_room hsize hexpand hroom
      cases hplace
      have hmem := (List.mem_cons.1 hmem).resolve_left (by simp)
      exact .step (.byte hgoes hc (put_run (by omega) c w)) (ih hmem hrest hleft (by omega))
  | case5 c ch1 fmt hc hconv ih =>
      obtain rfl : c = 0x25 := not_not.1 hc
      by_cases htime : ch1 = 0x54
      · subst htime
        exact ⟨_, .refl, hgoes, fmt, rfl⟩
      · obtain ⟨o', rest, hplace, hrest, hleft⟩ := place_room hsize hexpand hroom
        have hpos : 0 < (size - o.ind.toNat).toNat := by omega
        have hfits : o.ind.toNat + (size - o.ind.toNat).toNat ≤ maxStrlen := by omega
        obtain ⟨w₁, hrun, hos, htimefmt⟩ := conversion_run hpath ev ch1 hpos hfits w
        rw [hplace] at hrun
        rw [← hos, ← htimefmt] at hrest
        have hmem := (List.mem_cons.1 hmem).resolve_left
          fun h => htime ((ofConversion_eq_time_iff hconv).1 h.symm)
        exact .step (.conversion hgoes hconv hrun) (ih hmem hrest hleft (by omega))
  | case6 => cases List.mem_singleton.1 hmem
  | case7 c ch1 hc hconv fmt' ih =>
      obtain rfl : c = 0x25 := not_not.1 hc
      obtain ⟨o', rest, hplace, hrest, hleft⟩ := place_room hsize hexpand hroom
      cases hplace
      obtain ⟨m, hrun⟩ := eventToStrSep_run ev.mask.toInt32 ch1 w
      have hmem := (List.mem_cons.1 hmem).resolve_left (by simp)
      exact .step (.events hgoes hconv hrun) (ih hmem hrest hleft (by omega))
  | case8 c ch1 hc hconv ch2 fmt' hch ih =>
      obtain rfl : c = 0x25 := not_not.1 hc
      obtain ⟨o', rest, hplace, hrest, hleft⟩ := place_room hsize hexpand hroom
      cases hplace
      have hmem := (List.mem_cons.1 hmem).resolve_left (by simp)
      have hevents : (ch2 :: fmt').head? ≠ some 0x65 := fun h => hch (Option.some.inj h)
      exact .step (.unknown hgoes hconv hevents) (ih hmem hrest hleft (by omega))

/-! ## The check of the options -/

open Inotifywait (CommandLine parseOpt checkOpts parseOpts conflict)

/-- The options as they are checked, the format with its newline. -/
def Inotifywait.CommandLine.ended (o : CommandLine) : CommandLine :=
  if o.noNewline then o else { o with format := o.format.map (· ++ [0x0a]) }

/-- What is said about a `%T` without a `--timefmt`. -/
def timefmtMissing : String := "%T is in --format string, but --timefmt was not specified.\n"

/-- `parse_opts` finds no fault with the command line but a `%T` without a `--timefmt`. -/
def RejectsTime (g : GetOpt) (o₀ : CommandLine) (w : World σ) : Prop :=
  ∃ o w₁, parseEach (parseOpt g.help) g.opts o₀ w = .ok (some o, w₁) ∧
    o.filters.validate w₁ = .ok (true, w₁) ∧ conflict o.ended = some timefmtMissing

variable {g : GetOpt} {o₀ o : CommandLine} {w w₁ : World σ} {fmt : Bytes}

/-- It then says so, and gives up. -/
theorem RejectsTime.run (h : RejectsTime g o₀ w) :
    ∃ o w₁, parseEach (parseOpt g.help) g.opts o₀ w = .ok (some o, w₁) ∧
      parseOpts g o₀ w = (do ceprint [.text timefmtMissing]; return none : M σ _) w₁ := by
  obtain ⟨o, w₁, heach, hfilters, hconflict⟩ := h
  have hended : o.ended.filters = o.filters := by
    unfold Inotifywait.CommandLine.ended
    split <;> rfl
  have hcheck : checkOpts o w₁ = (do ceprint [.text timefmtMissing]; return none : M σ _) w₁ := by
    rw [← hended] at hfilters
    refine (Prog.bind_run_ok hfilters).trans ?_
    unfold Inotifywait.CommandLine.ended at hconflict
    dsimp only
    rw [hconflict]
    rfl
  exact ⟨o, w₁, heach, (Prog.bind_run_ok heach).trans (Prog.bind_run_ok (hcheck.trans rfl))⟩

omit [Sys σ] in
theorem conflict_time_iff (hformat : o.format = some fmt) (hcsv : o.csv = false)
    (htimefmt : o.timefmt = none) :
    conflict o = some timefmtMissing ↔ Inotifywait.hasPair 0x25 0x54 fmt = true := by
  unfold conflict
  rw [hformat, hcsv, htimefmt, if_neg (by simp), if_neg (by simp), if_neg (by simp)]
  cases hpair : Inotifywait.hasPair 0x25 0x54 fmt with
  | true => exact iff_of_true (if_pos ⟨hpair, rfl⟩) rfl
  | false =>
      refine iff_of_false ?_ nofun
      rw [if_neg (by simp [hpair])]
      split
      · simp [timefmtMissing]
      · exact nofun

/-- A command line with a format, and else nothing to find fault with, is rejected for the two bytes
    alone. -/
theorem rejectsTime_iff (heach : parseEach (parseOpt g.help) g.opts o₀ w = .ok (some o, w₁))
    (hfilters : o.filters.validate w₁ = .ok (true, w₁)) (hcsv : o.csv = false)
    (htimefmt : o.timefmt = none) (hformat : o.ended.format = some fmt) :
    RejectsTime g o₀ w ↔ Inotifywait.hasPair 0x25 0x54 fmt = true := by
  have hended : o.ended.csv = o.csv ∧ o.ended.timefmt = o.timefmt := by
    unfold Inotifywait.CommandLine.ended
    split <;> exact ⟨rfl, rfl⟩
  have hconflict := conflict_time_iff hformat (hended.1.trans hcsv) (hended.2.trans htimefmt)
  constructor
  · rintro ⟨o', w', heach', -, hmissing⟩
    obtain ⟨⟨⟩, rfl⟩ := Prod.mk.inj (Except.ok.inj (heach'.symm.trans heach))
    exact hconflict.1 hmissing
  · exact fun hpair => ⟨o, w₁, heach, hfilters, hconflict.2 hpair⟩

/-- **A format is rejected for want of `--timefmt` just when its scan comes to a `%T`, unless a
    percent sign is written out before a `T` and no `%T` stands anywhere else.** -/
theorem timefmt_check_iff (heach : parseEach (parseOpt g.help) g.opts o₀ w = .ok (some o, w₁))
    (hfilters : o.filters.validate w₁ = .ok (true, w₁)) (hcsv : o.csv = false)
    (htimefmt : o.timefmt = none) (hformat : o.ended.format = some fmt) {w₂ w₃ : World σ}
    (hpath : filenameFromEvent ev w₂ = .ok (path, w₃)) {size : Int32}
    (hsize : size.toInt ≤ maxStrlen) {text : Bytes}
    (hexpand : expand (segments path ev w₃.lib.timefmt (tokens fmt) w₃.os) = some text)
    (hroom : (text.length : Int) < size.toInt - 1) (buf : Mem) :
    (RejectsTime g o₀ w ↔ ReachesTime path ev size.toInt ⟨fmt, ⟨buf, 0⟩, w₃⟩)
      ↔ .time ∈ tokens fmt ∨ ¬escapedTime <:+: tokens fmt := by
  have hreach : ReachesTime path ev size.toInt ⟨fmt, ⟨buf, 0⟩, w₃⟩ ↔ .time ∈ tokens fmt := by
    refine ⟨ReachesTime.mem, fun hmem => ?_⟩
    have hstart : (((0 : UInt32).toNat : Nat) : Int) + text.length < size.toInt - 1 := by
      rw [UInt32.toNat_zero]
      omega
    exact reachesTime_of_mem (filenameFromEvent_dirname hpath) hsize hmem hexpand hstart
  rw [rejectsTime_iff heach hfilters hcsv htimefmt hformat, hasPair_iff, hreach]
  tauto

/-- `--format` with the format `f`. -/
def formatOption (f : Bytes) : GetOpt := { opts := [('n', some (cstring f))] }

def deskPlain : World Desk := { os := {}, lib := Inotifytools.new }

theorem formatOption_entered (f : Bytes) :
    parseEach (parseOpt (formatOption f).help) (formatOption f).opts {} deskPlain
      = .ok (some { format := some (cstring f).bytes }, deskPlain) := rfl

theorem timefmt_check_iff_desk :
    ∃ path w₃, filenameFromEvent deskNews deskPlain = .ok (path, w₃) ∧
      (RejectsTime (formatOption (ascii "%T %f")) {} deskPlain ↔
        ReachesTime path deskNews 4096 ⟨ascii "%T %f\n", ⟨Mem.zero, 0⟩, w₃⟩) := by
  have hpath : (filenameFromEvent deskNews).result deskPlain = some ⟨[], 0, ascii "x"⟩ := by
    decide +kernel
  have htimefmt : ((filenameFromEvent deskNews).after deskPlain).lib.timefmt.isNone := by
    decide +kernel
  have htokens : tokens (ascii "%T %f\n") = [.time, .byte 0x20, .eventname, .byte 0x0a] := by
    decide +kernel
  have hformat : (Inotifywait.CommandLine.ended
      { format := some (cstring (ascii "%T %f")).bytes }).format = some (ascii "%T %f\n") := by
    decide +kernel
  have hexpand : expand (segments ⟨[], 0, ascii "x"⟩ deskNews
      ((filenameFromEvent deskNews).after deskPlain).lib.timefmt (tokens (ascii "%T %f\n"))
      ((filenameFromEvent deskNews).after deskPlain).os) = some (ascii " x\n") := by
    rw [htokens, Option.isNone_iff_eq_none.1 htimefmt]
    decide +kernel
  have hsize : (4096 : Int32).toInt ≤ maxStrlen := by decide
  have hfits : ((ascii " x\n").length : Int) < (4096 : Int32).toInt - 1 := by decide
  have hiff := timefmt_check_iff (formatOption_entered _) rfl rfl rfl hformat
    (Prog.run_of_result hpath) hsize hexpand hfits Mem.zero
  refine ⟨_, _, Prog.run_of_result hpath, hiff.2 (.inl ?_)⟩
  rw [htokens]
  exact List.mem_cons_self

/-- A percent sign that is written out before a `T` is taken for a time. -/
theorem escaped_time_rejected :
    .lone ∉ tokens (ascii "%%T") ∧ RejectsTime (formatOption (ascii "%%T")) {} deskPlain ∧
      ∀ (path : EventPath) (ev : Event) (size : Int) (o : OutCursor) (w : World Desk),
        ¬ReachesTime path ev size ⟨ascii "%%T\n", o, w⟩ := by
  have hformat : (Inotifywait.CommandLine.ended
      { format := some (cstring (ascii "%%T")).bytes }).format = some (ascii "%%T\n") := by
    decide +kernel
  have htokens : .time ∉ tokens (ascii "%%T\n") := by decide +kernel
  refine ⟨by decide +kernel, ?_, fun path ev size o w hreach => htokens hreach.mem⟩
  exact (rejectsTime_iff (formatOption_entered _) rfl rfl rfl hformat).2 (by decide)

end InotifyTools
