import InotifyTools.Proofs.EventLists
import InotifyTools.Tools.Options

set_option autoImplicit false

/-! # The events asked for

What `--event` selects: each argument is read as a list of event names, and the options together ask
for all events that are named. -/

namespace InotifyTools

variable {σ : Type} [Sys σ] {w w' : World σ}

/-! ## One argument -/

/-- `s` is a list of event names. -/
def NamesEvents (s : Bytes) : Prop := s ≠ [] ∧ ∀ e ∈ s.splitOn 0x2c, (eventMask e).isSome

/-- The events that are named in a list. -/
def namedMask (s : Bytes) : Int32 := Masks.union 0 ((s.splitOn 0x2c).filterMap eventMask)

/-- The first element that is no event name is empty. -/
def EmptyFirst (s : Bytes) : Prop :=
  (s.splitOn 0x2c).find? (fun e => (eventMask e).isNone) = some []

theorem namesEvents_iff (s : Bytes) :
    NamesEvents s ↔ (s.splitOn 0x2c).find? (fun e => (eventMask e).isNone) = none := by
  rw [List.find?_eq_none]
  constructor
  · rintro ⟨-, hall⟩ e he
    rw [Bool.not_eq_true, Option.isNone_eq_false_iff]
    exact hall e he
  · intro hall
    refine ⟨?_, fun e he => ?_⟩
    · rintro rfl
      exact hall [] (by rw [List.splitOn_nil]; exact List.mem_singleton_self []) rfl
    · have hnamed := hall e he
      rwa [Bool.not_eq_true, Option.isNone_eq_false_iff] at hnamed

theorem listMask_named {s : Bytes} (h : NamesEvents s) :
    listMask 0 (s.splitOn 0x2c) = namedMask s ∧ namedMask s ≠ 0 ∧ namedMask s ≠ -1 := by
  have hfind := (namesEvents_iff s).1 h
  obtain ⟨hzero, hneg⟩ := union_eventMask_ne (List.splitOn_ne_nil _ _) hfind
  exact ⟨by rw [listMask, hfind]; rfl, hzero, hneg⟩

/-- An argument as the text it holds. -/
def optText (optarg : Option CString) : Bytes := (optBytes optarg).getD []

theorem optText_noNul (optarg : Option CString) :
    (optText optarg).takeWhile (· ≠ 0) = optText optarg := by
  cases optarg with
  | none => rfl
  | some s => exact congrArg CString.bytes (cstring_bytes s)

/-- What an argument is read as. -/
def optMask (optarg : Option CString) : Int32 := listMask 0 ((optText optarg).splitOn 0x2c)

theorem strToEvent_run (optarg : Option CString) (w : World σ) :
    ∃ os, strToEvent (some (optText optarg)) w = .ok (optMask optarg, { w with os }) := by
  have hsep : Separates 0x2c := ⟨by decide, by decide, by decide⟩
  obtain ⟨os, hrun⟩ := strToEventSep_run hsep (optText optarg) w
  rw [optText_noNul] at hrun
  exact ⟨os, hrun⟩

/-- An argument is read as the list says, and -1 is refused. -/
theorem parseEvent_run (optarg : Option CString) (w : World σ) :
    ∃ w', parseEvent optarg w
      = .ok (if optMask optarg = -1 then none else some (optMask optarg), w') := by
  obtain ⟨os, hrun⟩ := strToEvent_run optarg w
  unfold parseEvent
  have hread : strToEvent (some ((optBytes optarg).getD [])) w
      = .ok (optMask optarg, { w with os }) := hrun
  rw [Prog.bind_run_ok hread]
  split
  · exact ⟨_, rfl⟩
  · exact ⟨_, rfl⟩

/-- `parse_event` accepts exactly the lists of event names, as the events they name. -/
def ParsesRight (optarg : Option CString) (w : World σ) : Prop :=
  ∃ r w', parseEvent optarg w = .ok (r, w') ∧
    ∀ m, r = some m ↔ NamesEvents (optText optarg) ∧ m = namedMask (optText optarg)

theorem parsesRight_iff (optarg : Option CString) (w : World σ) :
    ParsesRight optarg w ↔ ¬ EmptyFirst (optText optarg) := by
  obtain ⟨w', hrun⟩ := parseEvent_run optarg w
  have hrest : ParsesRight optarg w ↔ ∀ m,
      (if optMask optarg = -1 then none else some (optMask optarg)) = some m ↔
      NamesEvents (optText optarg) ∧ m = namedMask (optText optarg) := by
    constructor
    · rintro ⟨r, w'', hrun', h⟩
      obtain ⟨rfl, -⟩ := Prod.mk.inj (Except.ok.inj (hrun.symm.trans hrun'))
      exact h
    · exact fun h => ⟨_, w', hrun, h⟩
  rw [hrest, EmptyFirst, optMask]
  cases hfind : ((optText optarg).splitOn 0x2c).find? fun e => (eventMask e).isNone with
  | none =>
      have hnames := (namesEvents_iff _).2 hfind
      obtain ⟨hmask, -, hneg⟩ := listMask_named hnames
      rw [hmask, if_neg hneg]
      refine iff_of_true (fun m => ?_) (Option.some_ne_none []).symm
      rw [Option.some_inj, and_iff_right hnames, eq_comm]
  | some e =>
      have hnot : ¬ NamesEvents (optText optarg) := by
        rw [namesEvents_iff, hfind]
        exact Option.some_ne_none e
      have hmask : listMask 0 ((optText optarg).splitOn 0x2c) = if e = [] then 0 else -1 := by
        rw [listMask, hfind]
      rw [hmask]
      by_cases he : e = []
      · rw [if_pos he, he]
        refine iff_of_false (fun h => ?_) (not_not.2 rfl)
        exact hnot ((h 0).1 rfl).1
      · rw [if_neg he]
        refine iff_of_true (fun m => ?_) (fun h => he (Option.some.inj h))
        exact iff_of_false (Option.some_ne_none m).symm fun h => hnot h.1

/-! ## All arguments -/

/-- The arguments of the `--event` options. -/
def eventArgs (opts : List (Char × Option CString)) : List (Option CString) :=
  (opts.filter fun o => o.1 = 'e').map Prod.snd

/-- Where each `--event` adds what its argument is read as and no other option touches the events, a
    sequence of options that is accepted adds all of them. -/
theorem parseEach_events {κ : Type} {parseOpt : Char → Option CString → κ → M σ (Option κ)}
    (events : κ → Int32)
    (hevent : ∀ optarg o o' (w w' : World σ), parseOpt 'e' optarg o w = .ok (some o', w') →
      ∃ m w₁, parseEvent optarg w = .ok (some m, w₁) ∧ events o' = events o ||| m)
    (hother : ∀ opt optarg o o' (w w' : World σ), opt ≠ 'e' → parseOpt opt optarg o w = .ok (some o', w') →
      events o' = events o)
    {opts : List (Char × Option CString)} (hright : ∀ a ∈ eventArgs opts, ¬ EmptyFirst (optText a))
    {o o' : κ} {w w' : World σ} (hrun : parseEach parseOpt opts o w = .ok (some o', w')) :
    (∀ a ∈ eventArgs opts, NamesEvents (optText a)) ∧
      events o' = Masks.union (events o) ((eventArgs opts).map fun a => namedMask (optText a)) := by
  induction opts generalizing o w with
  | nil =>
      cases hrun
      exact ⟨nofun, rfl⟩
  | cons p opts ih =>
      obtain ⟨opt, optarg⟩ := p
      obtain ⟨o₁, w₁, hone, hrest⟩ := Prog.bind_ok hrun
      cases o₁ with
      | none => cases hrest
      | some o₁ =>
          by_cases hopt : opt = 'e'
          · subst hopt
            have hargs : eventArgs (('e', optarg) :: opts) = optarg :: eventArgs opts := rfl
            rw [hargs, List.forall_mem_cons] at hright
            obtain ⟨hall, hunion⟩ := ih hright.2 hrest
            obtain ⟨m, w₂, hparse, hm⟩ := hevent optarg o o₁ w w₁ hone
            obtain ⟨r, w₃, hparse', hr⟩ := (parsesRight_iff optarg w).2 hright.1
            obtain ⟨rfl, -⟩ := Prod.mk.inj (Except.ok.inj (hparse.symm.trans hparse'))
            obtain ⟨hnames, rfl⟩ := (hr m).1 rfl
            rw [hargs, List.forall_mem_cons, List.map_cons, Masks.union_cons, ← hm]
            exact ⟨⟨hnames, hall⟩, hunion⟩
          · have hargs : eventArgs ((opt, optarg) :: opts) = eventArgs opts := by
              unfold eventArgs
              rw [List.filter_cons_of_neg (by simpa using hopt)]
            rw [hargs] at hright ⊢
            obtain ⟨hall, hunion⟩ := ih hright hrest
            rw [hother opt optarg o o₁ w w₁ hopt hone] at hunion
            exact ⟨hall, hunion⟩

/-- What is accepted has `P`. -/
def Accepts {κ : Type} (P : κ → Prop) (m : M σ (Option κ)) : Prop :=
  ∀ o w w', m w = .ok (some o, w') → P o

namespace Accepts

variable {κ α : Type} {P : κ → Prop}

omit [Sys σ] in
theorem accept {o : κ} (h : P o) : Accepts P (pure (some o) : M σ (Option κ)) := by
  intro o' w w' hrun
  cases hrun
  exact h

omit [Sys σ] in
theorem refuse : Accepts P (pure none : M σ (Option κ)) := by
  intro o' w w' hrun
  cases hrun

omit [Sys σ] in
theorem bind {x : M σ α} {f : α → M σ (Option κ)} (hf : ∀ a, Accepts P (f a)) :
    Accepts P (x >>= f) := by
  intro o w w' hrun
  obtain ⟨a, w₁, -, hrest⟩ := Prog.bind_ok hrun
  exact hf a o w₁ w' hrest

omit [Sys σ] in
theorem cases {c : Prop} [Decidable c] {m n : M σ (Option κ)} (hm : c → Accepts P m)
    (hn : ¬ c → Accepts P n) : Accepts P (if c then m else n) := by
  split
  · next h => exact hm h
  · next h => exact hn h

omit [Sys σ] in
theorem ite {c : Prop} [Decidable c] {m n : M σ (Option κ)} (hm : Accepts P m) (hn : Accepts P n) :
    Accepts P (if c then m else n) := .cases (fun _ => hm) fun _ => hn

end Accepts

omit [Sys σ] in
/-- A command line that is accepted has been entered and checked. -/
theorem parseCommandLine_ok {κ : Type} {parseOpt : Char → Option CString → κ → M σ (Option κ)}
    {checkOpts : κ → M σ (Option κ)} {g : GetOpt} {o o' : κ} {rest : List Bytes} {w w' : World σ}
    (hrun : parseCommandLine parseOpt checkOpts g o w = .ok (some (o', rest), w')) :
    ∃ o₁ w₁ w₂, parseEach parseOpt g.opts o w = .ok (some o₁, w₁) ∧
      checkOpts o₁ w₁ = .ok (some o', w₂) := by
  obtain ⟨o₁, w₁, heach, hrest⟩ := Prog.bind_ok hrun
  cases o₁ with
  | none => cases hrest
  | some o₁ =>
      obtain ⟨o₂, w₂, hcheck, hrest⟩ := Prog.bind_ok hrest
      cases o₂ with
      | none => cases hrest
      | some o₂ =>
          cases herr : g.err with
          | true =>
              rw [herr] at hrest
              cases hrest
          | false =>
              rw [herr] at hrest
              cases hrest
              exact ⟨o₁, w₁, _, heach, hcheck⟩

namespace Inotifywait

/-- Only `--event` touches the events. -/
theorem parseOpt_other (help : Bytes) {opt : Char} (hopt : opt ≠ 'e') (optarg : Option CString)
    (o : CommandLine) :
    Accepts (fun o' => o'.events = o.events) (parseOpt help opt optarg o : M σ _) := by
  unfold parseOpt
  dsimp only
  split
  case h_23 => exact absurd rfl hopt
  case h_22 =>
    refine .bind fun timeout => ?_
    cases timeout with
    | none => exact .refuse
    | some timeout => exact .accept rfl
  all_goals first
    | exact .accept rfl
    | exact .bind fun _ => .refuse
    | exact .ite (.bind fun _ => .refuse) (.accept rfl)

theorem parseOpt_event (help : Bytes) (optarg : Option CString) (o o' : CommandLine)
    (w w' : World σ) (hrun : parseOpt help 'e' optarg o w = .ok (some o', w')) :
    ∃ m w₁, parseEvent optarg w = .ok (some m, w₁) ∧ o'.events = o.events ||| m := by
  obtain ⟨r, w₁, hparse, hrest⟩ := Prog.bind_ok hrun
  cases r with
  | none => cases hrest
  | some m =>
      cases hrest
      exact ⟨m, _, hparse, rfl⟩

/-- The checks change no events. -/
theorem checkOpts_accepts (o : CommandLine) :
    Accepts (fun o' => o'.events = o.events) (checkOpts o : M σ _) := by
  have hevents : (if o.noNewline then o
      else { o with format := o.format.map (· ++ [0x0a]) }).events = o.events := by
    split <;> rfl
  unfold checkOpts
  dsimp only
  refine .bind fun ok => .ite .refuse ?_
  split
  · exact .bind fun _ => .refuse
  · exact .bind fun _ => .bind fun _ => .accept hevents

end Inotifywait

namespace Inotifywatch

/-- Only `--event` touches the events. -/
theorem parseOpt_other (help : Bytes) {opt : Char} (hopt : opt ≠ 'e') (optarg : Option CString)
    (o : CommandLine) :
    Accepts (fun o' => o'.events = o.events) (parseOpt help opt optarg o : M σ _) := by
  unfold parseOpt
  dsimp only
  split
  case h_15 => exact absurd rfl hopt
  case h_14 =>
    refine .bind fun timeout => ?_
    cases timeout with
    | none => exact .refuse
    | some timeout => exact .accept rfl
  case h_16 =>
    refine .ite (.bind fun _ => .refuse) (.ite (.accept rfl) ?_)
    refine .ite (.bind fun _ => .refuse) (.ite (.bind fun _ => .refuse) ?_)
    refine .bind fun sort => ?_
    cases sort with
    | none => exact .refuse
    | some sort => exact .accept rfl
  case h_17 =>
    refine .ite (.bind fun _ => .refuse) (.ite (.accept rfl) (.bind fun sort => ?_))
    cases sort with
    | none => exact .refuse
    | some sort => exact .accept rfl
  all_goals first
    | exact .accept rfl
    | exact .bind fun _ => .refuse
    | exact .ite (.bind fun _ => .refuse) (.accept rfl)

theorem parseOpt_event (help : Bytes) (optarg : Option CString) (o o' : CommandLine)
    (w w' : World σ) (hrun : parseOpt help 'e' optarg o w = .ok (some o', w')) :
    ∃ m w₁, parseEvent optarg w = .ok (some m, w₁) ∧ o'.events = o.events ||| m := by
  obtain ⟨r, w₁, hparse, hrest⟩ := Prog.bind_ok hrun
  cases r with
  | none => cases hrest
  | some m =>
      cases hrest
      exact ⟨m, _, hparse, rfl⟩

/-- The checks change nothing. -/
theorem checkOpts_accepts (o : CommandLine) :
    Accepts (fun o' => o' = o) (checkOpts o : M σ _) := by
  unfold checkOpts
  dsimp only
  refine .ite (.bind fun _ => .refuse) (.bind fun ok => .ite .refuse (.accept rfl))

end Inotifywatch

/-! ## The tools -/

/-- The events that `--event` options name. -/
def namedEvents (opts : List (Char × Option CString)) : Int32 :=
  Masks.union 0 ((eventArgs opts).map fun a => namedMask (optText a))

/-- Options that name events name some. -/
theorem namedEvents_ne_zero {opts : List (Char × Option CString)} (hne : eventArgs opts ≠ [])
    (h : ∀ a ∈ eventArgs opts, NamesEvents (optText a)) : namedEvents opts ≠ 0 := by
  intro hzero
  obtain ⟨a, ha⟩ := List.exists_mem_of_ne_nil _ hne
  have hmask := (Masks.union_eq_zero_iff.1 hzero).2 _ (List.mem_map_of_mem ha)
  exact (listMask_named (h a ha)).2.1 hmask

/-- What inotifywait asks for besides the events that are selected. -/
def Inotifywait.addedEvents (o : Opts) : Int32 :=
  (if o.monitor ∧ o.recursive ≠ 0 then inCreate ||| inMovedTo ||| inMovedFrom else 0) |||
    (if o.noDereference then inDontFollow else 0) ||| (if o.fanotify then inIsdir else 0)

theorem Inotifywait.watchedEvents_eq (o : Opts) :
    watchedEvents o = origEvents o ||| addedEvents o := by
  unfold watchedEvents addedEvents
  split <;> split <;> split <;> simp only [Int32.or_zero, Int32.zero_or, Int32.or_assoc]

/-- What inotifywatch asks for besides the events that are selected. -/
def Inotifywatch.addedEvents (o : Opts) : Int32 :=
  (if o.noDereference ≠ 0 then inDontFollow else 0) ||| (if o.fanotify then inIsdir else 0)

theorem Inotifywatch.watchedEvents_eq (o : Opts) :
    watchedEvents o = (if o.events = 0 then inAllEvents else o.events) ||| addedEvents o := by
  unfold watchedEvents addedEvents
  dsimp only
  generalize (if o.events = 0 then inAllEvents else o.events) = events
  split <;> split <;> simp only [Int32.or_zero, Int32.zero_or, Int32.or_assoc]

/-- With options that are accepted, inotifywait asks for what they name. -/
def Inotifywait.CoversNamed (g : GetOpt) (w : World σ) : Prop :=
  ∀ o o' rest w', o.events = 0 → parseOpts g o w = .ok (some (o', rest), w') →
    eventArgs g.opts ≠ [] →
    watchedEvents o'.toOpts = namedEvents g.opts ||| addedEvents o'.toOpts

/-- With options that are accepted, inotifywatch asks for what they name. -/
def Inotifywatch.CoversNamed (g : GetOpt) (w : World σ) : Prop :=
  ∀ o o' rest w', o.events = 0 → parseOpts g o w = .ok (some (o', rest), w') →
    eventArgs g.opts ≠ [] →
    watchedEvents o'.toOpts = namedEvents g.opts ||| addedEvents o'.toOpts

theorem Inotifywait.coversNamed {g : GetOpt}
    (hright : ∀ a ∈ eventArgs g.opts, ¬ EmptyFirst (optText a)) (w : World σ) :
    CoversNamed g w := by
  intro o o' rest w' hzero hrun hne
  obtain ⟨o₁, w₁, w₂, heach, hcheck⟩ := parseCommandLine_ok hrun
  obtain ⟨hall, hunion⟩ := parseEach_events (fun o : CommandLine => o.events)
    (parseOpt_event g.help) (fun opt optarg o o' w w' hopt => parseOpt_other g.help hopt optarg o o' w w')
    hright heach
  have hevents : o'.events = namedEvents g.opts := by
    rw [checkOpts_accepts o₁ o' w₁ w₂ hcheck, hunion, hzero]
    rfl
  rw [watchedEvents_eq, origEvents, hevents, if_neg (namedEvents_ne_zero hne hall)]

theorem Inotifywatch.coversNamed {g : GetOpt}
    (hright : ∀ a ∈ eventArgs g.opts, ¬ EmptyFirst (optText a)) (w : World σ) :
    CoversNamed g w := by
  intro o o' rest w' hzero hrun hne
  obtain ⟨o₁, w₁, w₂, heach, hcheck⟩ := parseCommandLine_ok hrun
  obtain ⟨hall, hunion⟩ := parseEach_events (fun o : CommandLine => o.events)
    (parseOpt_event g.help) (fun opt optarg o o' w w' hopt => parseOpt_other g.help hopt optarg o o' w w')
    hright heach
  have hevents : o'.events = namedEvents g.opts := by
    rw [checkOpts_accepts o₁ o' w₁ w₂ hcheck, hunion, hzero]
    rfl
  rw [watchedEvents_eq, hevents, if_neg (namedEvents_ne_zero hne hall)]

/-- **The events asked for are those that are named**, argument by argument and for a whole command
    line of either tool, if in no argument the first element that is no event name is empty. -/
theorem event_options_iff (g : GetOpt) (w : World σ) :
    (∀ a ∈ eventArgs g.opts, ParsesRight a w) ∧ Inotifywait.CoversNamed g w ∧
        Inotifywatch.CoversNamed g w ↔
      ∀ a ∈ eventArgs g.opts, ¬ EmptyFirst (optText a) := by
  constructor
  · rintro ⟨hright, -, -⟩ a ha
    exact (parsesRight_iff a w).1 (hright a ha)
  · intro hright
    exact ⟨fun a ha => (parsesRight_iff a w).2 (hright a ha), Inotifywait.coversNamed hright w,
      Inotifywatch.coversNamed hright w⟩

/-- An empty element at the end of a list that is accepted: all events are asked for. -/
theorem open_comma_accepted :
    ∃ w', parseEvent (some (cstring (ascii "open,")))
        ({ lib := Inotifytools.new, os := {} } : World Desk) = .ok (some 0, w') ∧
      ¬ NamesEvents (ascii "open,") ∧
      ∃ o rest w'', Inotifywait.parseOpts { opts := [('e', some (cstring (ascii "open,")))] } {}
          ({ lib := Inotifytools.new, os := {} } : World Desk) = .ok (some (o, rest), w'') ∧
        Inotifywait.watchedEvents o.toOpts = inAllEvents := by
  have hparse : (parseEvent (some (cstring (ascii "open,")))).result
      ({ lib := Inotifytools.new, os := {} } : World Desk) = some (some 0) := by decide +kernel
  have hempty : ((ascii "open,").splitOn 0x2c).find? (fun e => (eventMask e).isNone) = some [] := by
    decide +kernel
  have hmask : ((Inotifywait.parseOpts { opts := [('e', some (cstring (ascii "open,")))] } {}).result
      ({ lib := Inotifytools.new, os := {} } : World Desk)).map
        (fun r => r.map fun r => Inotifywait.watchedEvents r.1.toOpts) = some (some inAllEvents) := by
    decide +kernel
  obtain ⟨r, hrun, hr⟩ := Option.map_eq_some_iff.1 hmask
  obtain ⟨⟨o, rest⟩, rfl, ho⟩ := Option.map_eq_some_iff.1 hr
  refine ⟨_, Prog.run_of_result hparse, ?_, o, rest, _, Prog.run_of_result hrun, ho⟩
  rw [namesEvents_iff, hempty]
  exact nofun

end InotifyTools
