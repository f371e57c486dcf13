import InotifyTools.Proofs.CsvRecords
import InotifyTools.Proofs.Feeding
import InotifyTools.Proofs.FormatExpansion
import InotifyTools.Proofs.FormatFailures
import InotifyTools.Proofs.Silence

set_option autoImplicit false

/-! # What inotifywait prints

With inotify, and unless it monitors recursively, `inotifywait` is a filter between the kernel and
`stdout`: it prints a line for every event that the filters let through and the options show, and
without `-m` the first event let through ends it. -/

namespace InotifyTools

open Relation

variable {σ α : Type}

/-! ## The transcript -/

namespace Inotifywait

/-- The format of a line. -/
def lineFormat (o : Opts) : Bytes := o.format.getD (ascii "%w %,e %f\n")

/-- The events, of those let through, that the program takes. -/
def consumed (o : Opts) (evs : List Event) : List Event := if o.monitor then evs else evs.take 1

/-- How the program ends after the events let through, behind which polls time out or not; `none` if
    it still waits. -/
def verdict (o : Opts) (evs : List Event) (timesOut : Bool) : Option Int32 :=
  match if o.monitor then none else evs.head? with
  | some ev => some (if watchedEvents o &&& ev.mask.toInt32 = 0 then exitFailure else exitSuccess)
  | none => if timesOut then some exitTimeout else none

variable [Sys σ]

/-- `text` is the line of an event: a record, or the expansion of the format at some time. -/
def Renders (o : Opts) (l : Inotifytools) (ev : Event) (text : Bytes) : Prop :=
  if o.csv then text = csvLine (l.store.eventPath ev) ev.mask
  else ∃ os : σ, expand (segments (l.store.eventPath ev) ev l.timefmt (tokens (lineFormat o)) os)
    = some text

/-- The line of an event can be printed: a record always; else there has to be a format without a
    lone `%`, `strftime` must not fail, and the line must have room. -/
def Printable (o : Opts) (l : Inotifytools) (ev : Event) : Prop :=
  o.csv = true ∨
    lineFormat o ≠ [] ∧ (lineFormat o).length ≤ maxStrlen ∧ .lone ∉ tokens (lineFormat o) ∧
      (∀ tf ∈ l.timefmt, ∀ os : σ, (Sys.strftimeNow tf os).1.isSome) ∧
      ∀ text, Renders (σ := σ) o l ev text → text.length < maxStrlen

end Inotifywait

/-! ## Printing -/

/-- A call that printing makes. -/
inductive PrintCall [Sys σ] : σ → σ → Prop
  | fwrite (st : Stream) (b : Bytes) (os : σ) : PrintCall os (Sys.fwrite st b os)
  | strftimeNow (f : CString) (os : σ) : PrintCall os (Sys.strftimeNow f os).2
  | flushAll (os : σ) : PrintCall os (Sys.flushAll os)

/-- What happened to the operating system from `w` to `w'` is that something was printed. -/
structure Talks [Sys σ] (w w' : World σ) : Prop where
  calls : ReflTransGen PrintCall w.os w'.os

section

variable [Sys σ] {w w' : World σ}

instance : Std.Refl (Talks (σ := σ)) := ⟨fun _ => ⟨.refl⟩⟩

instance : IsTrans (World σ) Talks := ⟨fun _ _ _ h h' => ⟨h.calls.trans h'.calls⟩⟩

theorem modifyLib_talks (f : Inotifytools → Inotifytools) :
    Prog.Keeps Talks (modifyLib f : M σ Unit) := .update fun _ => ⟨.refl⟩

theorem fwrite_talks (st : Stream) (b : Bytes) :
    Prog.Keeps Talks (exec (Sys.fwrite st b) : M σ Unit) := .update fun _ => ⟨.single (.fwrite _ _ _)⟩

theorem strftimeNow_talks (tf : CString) :
    Prog.Keeps Talks (call (Sys.strftimeNow tf) : M σ (Option Bytes)) :=
  .lift fun w => ⟨.single (.strftimeNow tf w.os)⟩

end

/-! ## The line of an event -/

section

variable [Sys σ] {w w' : World (Taped σ)} {ev : Event} {o : Inotifywait.Opts}

theorem snprintf_talks (h : Inotify w) {out : NString} {size : Int32} {fmt : Option Bytes}
    {ret : Int32 × NString} (hrun : snprintf out size ev fmt w = .ok (ret, w')) : Talks w w' :=
  snprintf_keeps modifyLib_talks strftimeNow_talks (fun path w₁ hpath => by
    cases hpath.symm.trans (filenameFromEvent_run h ev)
    exact Std.Refl.refl w) hrun

namespace Inotifywait

/-- A record is printed. -/
theorem outputEventCsv_talks (h : Inotify w) (hrun : outputEventCsv ev w = .ok ((), w')) :
    Talks w w' := by
  unfold outputEventCsv at hrun
  rw [Prog.bind_run_ok (filenameFromEvent_run h ev)] at hrun
  refine Prog.Keeps.bind (.ite (fwrite_talks _ _) (.pure _)) (fun _ => .bind ?_ fun _ => ?_) w () w' hrun
  · exact eventToStrSep_keeps modifyLib_talks _ _
  · exact .bind (fwrite_talks _ _) fun _ => .bind (fwrite_talks _ _) fun _ => fwrite_talks _ _

/-- An expansion is printed. -/
theorem printf_run (h : Inotify w) {fmt : Bytes} (hne : fmt ≠ []) (hlen : fmt.length ≤ maxStrlen)
    (hlone : .lone ∉ tokens fmt)
    (htime : ∀ tf ∈ w.lib.timefmt, ∀ os : Taped σ, (Sys.strftimeNow tf os).1.isSome)
    (hroom : ∀ (os : Taped σ) text, expand (segments (w.lib.store.eventPath ev) ev w.lib.timefmt
      (tokens fmt) os) = some text → text.length < maxStrlen) :
    ∃ (os : Taped σ) (text : Bytes) (ret : Int32) (w' : World (Taped σ)),
      expand (segments (w.lib.store.eventPath ev) ev w.lib.timefmt (tokens fmt) os) = some text ∧
      printf ev (some fmt) w = .ok (ret, w') ∧ w'.os.tape = w.os.tape ++ text ∧ Talks w w' := by
  have h' : Inotify w.withoutOut := ⟨h.initialized, h.mode, h.wellIndexed, h.plain⟩
  have hmax : (Int32.ofNat maxStrlen).toInt = 4096 := by decide
  have hstrlen : maxStrlen = 4096 := rfl
  obtain ⟨path, w₁, text, hpath, hexpand, hfits⟩ := snprintf_expands (w := w.withoutOut) h'.wellIndexed
    hne hlen hlone htime (by rw [hmax] : (Int32.ofNat maxStrlen).toInt ≤ 4096) ev
    (w.lib.printOut.getD NString.new)
  obtain ⟨rfl, rfl⟩ := Prod.mk.inj (Except.ok.inj (hpath.symm.trans (filenameFromEvent_run h' ev)))
  have hshort := hroom _ _ hexpand
  obtain ⟨ret, out, w₂, hrun, hbytes, -, hret⟩ := hfits (by omega)
  refine ⟨_, text, ret, { w₂ with lib := { w₂.lib with printOut := some out }
                                  os := if ret ≠ -1 then Sys.fwrite .stdout text w₂.os else w₂.os },
    hexpand, ?_, ?_, ?_⟩
  · unfold printf fprintfTo sprintf
    rw [getLib_bind, Prog.bind_run_ok (rfl : modifyLib _ w = .ok ((), w.withoutOut)),
      Prog.bind_run_ok hrun]
    dsimp only
    rw [hbytes]
    by_cases hfails : ret ≠ -1
    · rw [if_pos hfails, if_pos hfails]
      rfl
    · rw [if_neg hfails, if_neg hfails]
      rfl
  · have htape : w₂.os.tape = w.withoutOut.os.tape := (snprintf_mute _ _ _ _ _ _ _ hrun).tape
    by_cases hfails : ret ≠ -1
    · rw [if_pos hfails]
      exact congrArg (· ++ text) htape
    · have hempty : text = [] := by
        rw [not_not] at hfails
        rw [hfails, show (-1 : Int32).toInt = -1 from rfl] at hret
        exact List.eq_nil_of_length_eq_zero (by omega)
      rw [if_neg hfails, hempty, List.append_nil]
      exact htape
  · have hcalls := (snprintf_talks h' hrun).calls
    refine ⟨?_⟩
    by_cases hfails : ret ≠ -1
    · rw [if_pos hfails]
      exact hcalls.tail (.fwrite _ _ _)
    · rw [if_neg hfails]
      exact hcalls

/-- **The line of an event is printed.** -/
theorem outputEvent_run (h : Inotify w) (hp : Printable (σ := Taped σ) o w.lib ev) :
    ∃ text w', outputEvent o ev w = .ok ((), w') ∧ Renders (σ := Taped σ) o w.lib ev text ∧
      w'.os.tape = w.os.tape ++ text ∧ Talks w w' := by
  unfold outputEvent
  by_cases hcsv : o.csv = true
  · obtain ⟨w', hrun, htape⟩ := outputEventCsv_run (filenameFromEvent_run h ev)
    rw [if_pos hcsv]
    exact ⟨_, w', hrun, by rw [Renders, if_pos hcsv], htape, outputEventCsv_talks h hrun⟩
  · obtain ⟨hne, hlen, hlone, htime, hroom⟩ := hp.resolve_left hcsv
    have hrenders : ∀ text, Renders (σ := Taped σ) o w.lib ev text ↔ ∃ os : Taped σ,
        expand (segments (w.lib.store.eventPath ev) ev w.lib.timefmt (tokens (lineFormat o)) os)
          = some text := fun text => by rw [Renders, if_neg hcsv]
    obtain ⟨os, text, ret, w', hexpand, hrun, htape, htalks⟩ := printf_run h hne hlen hlone htime
      fun os text hos => hroom text ((hrenders text).2 ⟨os, hos⟩)
    rw [if_neg hcsv]
    exact ⟨text, w', (Prog.bind_run_ok hrun).trans rfl, (hrenders text).2 ⟨os, hexpand⟩, htape, htalks⟩

/-! ## A turn -/

/-- The lines of the events that are shown. -/
def Lines (o : Opts) (l : Inotifytools) (evs : List Event) (texts : List Bytes) : Prop :=
  List.Forall₂ (Renders (σ := Taped σ) o l) (evs.filter (shown o)) texts

theorem Lines.append {l : Inotifytools} {evs evs' : List Event} {texts texts' : List Bytes}
    (h : Lines (σ := σ) o l evs texts) (h' : Lines (σ := σ) o l evs' texts') :
    Lines (σ := σ) o l (evs ++ evs') (texts ++ texts') := by
  unfold Lines
  rw [List.filter_append]
  exact List.rel_append h h'

/-- What is done with an event when moves are not followed: its line is printed if it is shown. -/
theorem waitEvent_run (h : Inotify w) (hmove : ¬ (o.monitor = true ∧ o.recursive ≠ 0))
    (hp : shown o ev = true → Printable (σ := Taped σ) o w.lib ev) :
    ∃ (texts : List Bytes) (w' : World (Taped σ)),
      (∀ fuel, waitEvent fuel o {} ev w = .ok (if !o.monitor then .last ev else .again {}, w')) ∧
      Lines (σ := σ) o w.lib [ev] texts ∧ w'.os.tape = w.os.tape ++ texts.flatten ∧ Talks w w' ∧
      Effects ∅ w w' := by
  obtain ⟨texts, w₁, hout, hlines, htape, htalks⟩ : ∃ (texts : List Bytes) (w₁ : World (Taped σ)),
      (if shown o ev = true then outputEvent o ev else pure () : M (Taped σ) Unit) w = .ok ((), w₁) ∧
      Lines (σ := σ) o w.lib [ev] texts ∧ w₁.os.tape = w.os.tape ++ texts.flatten ∧ Talks w w₁ := by
    unfold Lines
    by_cases hs : shown o ev = true
    · obtain ⟨text, w₁, hrun, hrenders, htape, htalks⟩ := outputEvent_run h (hp hs)
      rw [if_pos hs, List.filter_cons_of_pos hs]
      exact ⟨[text], w₁, hrun, .cons hrenders .nil, by rw [htape, List.flatten_singleton], htalks⟩
    · rw [if_neg hs, List.filter_cons_of_neg hs]
      exact ⟨[], w, rfl, .nil, (List.append_nil _).symm, Std.Refl.refl _⟩
  have hprint : Sound ∅ (if shown o ev = true then outputEvent o ev else pure () : M (Taped σ) Unit) :=
    .ite (outputEvent_sound o ev) (.pure _)
  have he : Effects ∅ w w₁ := ((hprint w h.wellIndexed).ok hout).1
  by_cases hfs : o.filesystem = true
  · refine ⟨texts, w₁, fun fuel => ?_, hlines, htape, htalks, he⟩
    unfold waitEvent
    rw [Prog.bind_run_ok hout, if_pos hfs]
    rfl
  · refine ⟨texts, { w₁ with os := Sys.flushAll w₁.os }, fun fuel => ?_, hlines, htape,
      ⟨htalks.calls.tail (.flushAll _)⟩, he.trans (.quiet (.call _ (.flushAll _)))⟩
    have hhandle : MoveTracker.handle {} fuel ev (decide (o.monitor = true ∧ o.recursive ≠ 0))
        (watchedEvents o) (decide (o.quiet = 0)) (outputError o.syslog) w₁ = .ok ({}, w₁) := by
      unfold MoveTracker.handle
      rw [decide_eq_false hmove]
      rfl
    unfold waitEvent
    rw [Prog.bind_run_ok hout, if_neg hfs, Prog.bind_run_ok hhandle]
    rfl

/-! ## The loop -/

/-- The loop comes from `w` to `w'`: it returns `code` there, or goes on from there after `n` turns. -/
def Comes (o : Opts) (n : Nat) (code : Option Int32) (w w' : World (Taped σ)) : Prop :=
  ∃ fuel₀, ∀ fuel, fuel₀ ≤ fuel → waitLoop o (fuel + n) {} w =
    code.elim (waitLoop o fuel {} w') fun code => .ok (code, w')

theorem waitRound_event {w₁ : World (Taped σ)} (h : Returns w (.one o.timeout) (some ev) w₁) :
    ∃ fuel₀, ∀ fuel, fuel₀ ≤ fuel → waitRound fuel o {} w = waitEvent fuel o {} ev w₁ := by
  obtain ⟨fuel₀, hreturns⟩ := h
  refine ⟨fuel₀, fun fuel hfuel => ?_⟩
  unfold waitRound
  rw [nextEvent_one, Prog.bind_run_ok (hreturns fuel hfuel)]

theorem waitRound_idle (h : Idle (.one o.timeout) w w') :
    ∃ fuel₀, ∀ fuel, fuel₀ ≤ fuel → waitRound fuel o {} w = .ok (.exit exitTimeout, w') := by
  obtain ⟨⟨fuel₀, hreturns⟩, herror⟩ := h
  refine ⟨fuel₀, fun fuel hfuel => ?_⟩
  unfold waitRound
  rw [nextEvent_one, Prog.bind_run_ok (hreturns fuel hfuel)]
  dsimp only
  rw [getLib_bind, herror, if_pos rfl]
  rfl

/-- An event ends the program without `-m`. -/
theorem comes_last {w₁ w₂ : World (Taped σ)} (h : Returns w (.one o.timeout) (some ev) w₁)
    (hrun : ∀ fuel, waitEvent fuel o {} ev w₁ = .ok (.last ev, w₂)) :
    Comes o 1 (some (if watchedEvents o &&& ev.mask.toInt32 = 0 then exitFailure else exitSuccess))
      w w₂ := by
  obtain ⟨fuel₀, hround⟩ := waitRound_event h
  refine ⟨fuel₀, fun fuel hfuel => ?_⟩
  unfold waitLoop
  rw [Prog.bind_run_ok ((hround fuel hfuel).trans (hrun fuel))]
  rfl

/-- Another turn, and the way from there. -/
theorem Comes.again {w₁ w₂ : World (Taped σ)} {n : Nat} {code : Option Int32}
    (h : Returns w (.one o.timeout) (some ev) w₁)
    (hrun : ∀ fuel, waitEvent fuel o {} ev w₁ = .ok (.again {}, w₂)) (hcomes : Comes o n code w₂ w') :
    Comes o (n + 1) code w w' := by
  obtain ⟨fuel₀, hround⟩ := waitRound_event h
  obtain ⟨fuel₁, hcomes⟩ := hcomes
  refine ⟨max fuel₀ fuel₁, fun fuel hfuel => ?_⟩
  rw [← hcomes fuel (by omega), ← Nat.add_assoc]
  show waitLoop o (fuel + n + 1) {} w = _
  conv_lhs => unfold waitLoop
  rw [Prog.bind_run_ok ((hround (fuel + n) (by omega)).trans (hrun _))]

/-- A timeout ends the program. -/
theorem comes_timeout (h : Idle (.one o.timeout) w w') : Comes o 0 (some exitTimeout) w w' := by
  obtain ⟨fuel₀, hround⟩ := waitRound_idle h
  refine ⟨fuel₀ + 1, fun fuel hfuel => ?_⟩
  obtain ⟨fuel, rfl⟩ := Nat.exists_eq_add_of_le' (Nat.le_of_add_left_le hfuel)
  show waitLoop o (fuel + 1) {} w = _
  conv_lhs => unfold waitLoop
  rw [Prog.bind_run_ok (hround fuel (by omega))]
  rfl

end Inotifywait

end

/-! ## The whole transcript -/

section

variable [Sys σ] {w₀ w w' : World (Taped σ)} {o : Inotifywait.Opts} {timesOut : Bool}
  {q : List Record} {rss : List (List Record)}

/-- What is kept of a run. -/
def Taped.notes (t : Taped σ) : Bytes × Nat := (t.tape, t.requests)

theorem Enough.notes {fd n : Int32} {os os' : Taped σ} (h : Enough fd n os os') :
    os'.notes = os.notes := by
  induction h with
  | now => rfl
  | later _ _ _ ih => exact ih

theorem Polled.notes {fd : Int32} {timeout : Int} {n : Int32} {room : Nat} {os os' : Taped σ}
    {answer : Option Bytes} (h : Polled fd timeout n room os answer os') : os'.notes = os.notes := by
  cases h with
  | nothing => rfl
  | data _ henough _ _ _ => exact henough.notes

/-- Polling and reading print nothing, and ask for nothing. -/
theorem Polls.notes {fd : Int32} {c : Call} {os os' : Taped σ} (h : Polls fd c os os') :
    os'.notes = os.notes := by
  induction h with
  | refl => rfl
  | tail _ hanswer ih =>
      obtain ⟨answer, hanswer⟩ := hanswer
      exact (Polled.notes hanswer).trans ih

theorem Polls.tape {fd : Int32} {c : Call} {os os' : Taped σ} (h : Polls fd c os os') :
    os'.tape = os.tape := congrArg Prod.fst h.notes

namespace Inotifywait

/-- Reading and counting change no line. -/
theorem renders_congr {l l' : Inotifytools} (hpath : ∀ ev, l'.store.eventPath ev = l.store.eventPath ev)
    (htime : l'.timefmt = l.timefmt) : Renders (σ := Taped σ) o l' = Renders (σ := Taped σ) o l := by
  funext ev text
  unfold Renders
  rw [hpath, htime]

theorem printable_congr {l l' : Inotifytools}
    (hpath : ∀ ev, l'.store.eventPath ev = l.store.eventPath ev) (htime : l'.timefmt = l.timefmt) :
    Printable (σ := Taped σ) o l' = Printable (σ := Taped σ) o l := by
  funext ev
  unfold Printable
  rw [renders_congr hpath htime, htime]

/-- **The transcript of the loop.** -/
theorem transcript_of_awaits (hz : ¬ AnsweredZero (Taped σ)) (h₀ : Inotify w₀)
    (hmove : ¬ (o.monitor = true ∧ o.recursive ≠ 0))
    (h : Awaits (ReflTransGen PrintCall) (.one o.timeout) (fun _ => True)
      (TimesOut w₀.lib.fd (.one o.timeout) timesOut) w₀ w q rss) {evs : List Event}
    (hevs : w₀.passed (q ++ rss.flatten) = evs)
    (hp : ∀ ev ∈ evs, shown o ev = true → Printable (σ := Taped σ) o w₀.lib ev) :
    ∃ texts w', Lines (σ := σ) o w₀.lib (consumed o evs) texts ∧
      w'.os.tape = w.os.tape ++ texts.flatten ∧
      Comes o (consumed o evs).length (verdict o evs timesOut) w w' := by
  -- on the events let through: the next call returns the first of them, or the poll times out
  induction evs generalizing w q rss with
  | nil =>
      have hnothing : consumed o [] = [] := by
        unfold consumed
        split <;> rfl
      have hverdict : verdict o [] timesOut = if timesOut then some exitTimeout else none := by
        unfold verdict
        cases o.monitor <;> rfl
      rw [hnothing, hverdict]
      rcases h.next hz h₀ with ⟨ev, q', rss', w₁, hev, -⟩ | ⟨-, w₁, hawaits, hpolls, hsame⟩
      · rw [hevs] at hev
        cases hev
      · cases timesOut with
        | false => exact ⟨[], w, .nil, (List.append_nil _).symm, 0, fun _ _ => rfl⟩
        | true =>
            obtain ⟨os, hanswer⟩ := (hawaits.feeds _ .refl).2 rfl
            have hpolls' : Polls w₀.lib.fd (.one o.timeout) w.os os :=
              hpolls.tail ⟨_, hanswer⟩
            rw [← hawaits.effects.sameSettings.fd] at hanswer
            obtain ⟨w', ⟨hreturns, herror⟩, rfl⟩ :=
              idle_of_nothing (hawaits.inotify hz h₀) hawaits.holds hanswer
            exact ⟨[], w', .nil, by rw [hpolls'.tape]; exact (List.append_nil _).symm,
              comes_timeout ⟨hsame _ _ hreturns, herror⟩⟩
  | cons ev evs ih =>
      rcases h.next hz h₀ with ⟨ev', q', rss', w₁, hev, hreturns, hawaits, hpolls⟩ | ⟨hnone, -⟩
      · rw [hevs] at hev
        obtain ⟨rfl, hrest⟩ := List.cons.inj hev
        have hsame := hawaits.effects.sameSettings
        have hlines := renders_congr (σ := σ) (o := o) hsame.eventPath hsame.timefmt
        have hp₁ : shown o ev = true → Printable (σ := Taped σ) o w₁.lib ev := fun hs => by
          rw [printable_congr hsame.eventPath hsame.timefmt]
          exact hp ev List.mem_cons_self hs
        obtain ⟨texts, w₂, hrun, hfirst, htape, htalks, he⟩ :=
          waitEvent_run (hawaits.inotify hz h₀) hmove hp₁
        unfold Lines at hfirst
        rw [hlines] at hfirst
        rw [hpolls.tape] at htape
        cases hm : o.monitor with
        | false =>
            rw [hm] at hrun
            -- without `-m` the first event ends the program
            have hone : consumed o (ev :: evs) = [ev] := by
              unfold consumed
              rw [hm]
              rfl
            have hverdict : verdict o (ev :: evs) timesOut =
                some (if watchedEvents o &&& ev.mask.toInt32 = 0 then exitFailure else exitSuccess) := by
              unfold verdict
              rw [hm]
              rfl
            rw [hone, hverdict]
            exact ⟨texts, w₂, hfirst, htape, comes_last hreturns hrun⟩
        | true =>
            rw [hm] at hrun
            have hall : ∀ evs, consumed o evs = evs := fun evs => by
              unfold consumed
              rw [hm]
              rfl
            have hverdict : verdict o (ev :: evs) timesOut = verdict o evs timesOut := by
              unfold verdict
              rw [hm]
              rfl
            obtain ⟨texts', w', hlines', htape', hcomes⟩ := ih (hawaits.calm he htalks.calls)
              hrest.symm fun ev hev => hp ev (List.mem_cons_of_mem _ hev)
            rw [hall] at hlines' hcomes
            rw [hall, hverdict]
            have hfirst : Lines (σ := σ) o w₀.lib [ev] texts := hfirst
            refine ⟨texts ++ texts', w', hfirst.append hlines', ?_,
              hcomes.again hreturns hrun⟩
            rw [htape', htape, List.flatten_append, List.append_assoc]
      · rw [hevs] at hnone
        cases hnone

/-- What is known of a program that has set up its watches with inotify. -/
theorem prepared (hz : ¬ AnsweredZero (Taped σ)) (ho : o.fanotify = false) {args : List Bytes}
    {os : Taped σ} {fuel : Nat}
    (hprep : prepare fuel o args { lib := Inotifytools.new, os } = .ok (true, w)) :
    Inotify w ∧ w.lib.stream.firstByte = 0 := by
  rw [prepare_eq] at hprep
  obtain ⟨list, w₁, hlist, hrest⟩ := Prog.bind_ok hprep
  cases list with
  | none => cases hrest
  | some list =>
      have hw₁ : Inotify w₁ := (Tool.wait o).listed_inotify hz ho hlist
      have he : Effects {.watch} w₁ w :=
        ((establish_sound (S := {.watch}) rfl nofun fuel o list w₁ hw₁.wellIndexed).ok hrest).1
      refine ⟨hw₁.effects hz he nofun, ?_⟩
      obtain ⟨ok, w₂, hinit, hconf⟩ := Prog.bind_ok hlist
      rw [ho] at hinit
      have hw₂ := ((init_sound (S := Set.univ) trivial trivial trivial false o.filesystem _ _
        Store.wellIndexed_empty).ok hinit).1.wellIndexed Store.wellIndexed_empty
      cases ok with
      | false =>
          obtain ⟨_, _, -, hnone⟩ := Prog.bind_ok hconf
          cases hnone
      | true =>
          have he' : Effects {.config} w₂ w₁ :=
            ((configure_sound (S := {.config}) rfl o args w₂ hw₂).ok hconf).1
          rw [he.stream_eq nofun, he'.stream_eq nofun]
          exact init_firstByte hinit

/-- **What inotifywait prints, and how it ends.** With inotify, unless it monitors recursively, and
    while the kernel feeds it records whatever it prints: it prints the lines of the events that the
    filters let through and the options show, in order and nothing else; without `-m` only for the
    first event let through, which ends it, with success if its kind was asked for. -/
theorem transcript (hz : ¬ AnsweredZero (Taped σ)) (ho : o.fanotify = false)
    (hmove : ¬ (o.monitor = true ∧ o.recursive ≠ 0)) {args : List Bytes} {os : Taped σ} {fuel : Nat}
    (hprep : prepare fuel o args { lib := Inotifytools.new, os } = .ok (true, w))
    (hfeeds : Feeds (ReflTransGen PrintCall) w.lib.fd (.one o.timeout) (fun _ => True)
      (TimesOut w.lib.fd (.one o.timeout) timesOut) rss w.os)
    (hp : ∀ ev ∈ w.passed rss.flatten, shown o ev = true → Printable (σ := Taped σ) o w.lib ev) :
    ∃ texts w', Lines (σ := σ) o w.lib (consumed o (w.passed rss.flatten)) texts ∧
      w'.os.tape = w.os.tape ++ texts.flatten ∧
      Comes o (consumed o (w.passed rss.flatten)).length
        (verdict o (w.passed rss.flatten) timesOut) w w' := by
  obtain ⟨hw, hfirst⟩ := prepared hz ho hprep
  have hawaits : Awaits (ReflTransGen PrintCall) (.one o.timeout) (fun _ => True)
      (TimesOut w.lib.fd (.one o.timeout) timesOut) w w [] rss :=
    ⟨.refl w, ⟨.inl ⟨hfirst, rfl⟩, fun _ => hfirst⟩, hfeeds⟩
  exact transcript_of_awaits hz hw hmove hawaits rfl hp

end Inotifywait

end

/-! ## On the desk -/

/-- Without a time format, what a format stands for does not depend on the time. -/
theorem segments_untimed {σ τ : Type} [Sys σ] [Sys τ] (path : EventPath) (ev : Event) (ts : List Token)
    (os : σ) (os' : τ) : segments path ev none ts os = segments path ev none ts os' := by
  induction ts generalizing os os' with
  | nil => rfl
  | cons t ts ih => cases t <;> exact congrArg _ (ih _ _)

theorem not_answeredZero_taped [Sys σ] (h : ¬ AnsweredZero σ) : ¬ AnsweredZero (Taped σ) :=
  fun ⟨fd, p, mask, os, hzero⟩ => h ⟨fd, p, mask, os.os, hzero⟩

/-- A poll that finds a chunk to be read. -/
theorem answered_of_chunk [Sys σ] {fd : Int32} {c : Call} (hone : c.numEvents = 1) {rs : List Record}
    {os os' : σ} {n : Nat} (hne : rs ≠ []) (hcap : (encodeAll rs).length ≤ readCap)
    (hpoll : Sys.ppoll fd (polledFor c.timeout) os = (1, os))
    (hready : Sys.fionread fd os = ((0, UInt32.ofNat n), os)) (hle : (encodeAll rs).length ≤ n)
    (hlt : n < 2 ^ 32) (hread : Sys.read fd readCap os = (some (encodeAll rs), os')) :
    AnsweredWith fd c os (some rs) os' := by
  have hlong : eventSize ≤ (encodeAll rs).length := by
    obtain ⟨r, rs, rfl⟩ := List.exists_cons_of_ne_nil hne
    show eventSize ≤ (r.encode ++ encodeAll rs).length
    rw [List.length_append, r.length_encode]
    omega
  have hsize : eventSize = 16 := rfl
  have henough : Enough fd c.numEvents os os := by
    have hnow : Enough fd c.numEvents os (Sys.fionread fd os).2 := by
      refine .now os (by rw [hready]) ?_
      rw [hready, hone, UInt32.toNat_ofNat_of_lt' (by simpa using hlt)]
      show 16 * 1 ≤ n
      omega
    rwa [hready] at hnow
  have hbytes : encodeAll rs ≠ [] := fun h => by
    rw [h] at hlong
    exact absurd hlong (by decide)
  have hanswer : AnsweredWith fd c os (some rs) (Sys.read fd readCap os).2 := by
    refine .data ?_ ?_ (by rw [hread]) hbytes hcap
    · rw [hpoll]
      show (0 : Int32) < 1
      exact Int32.lt_iff_toInt_lt.2 (by decide)
    · rw [hpoll]
      exact henough
  rwa [hread] at hanswer

namespace Desk

theorem chunks_of_printCalls {d d' : Taped Desk} (h : ReflTransGen PrintCall d d') :
    d'.os.chunks = d.os.chunks := by
  induction h with
  | refl => rfl
  | tail _ hcall ih =>
      cases hcall with
      | fwrite | strftimeNow | flushAll => exact ih

theorem read_chunk {fd : Int32} {n : Nat} {d : Desk} {b : Bytes} {bs : List Bytes}
    (h : d.chunks = b :: bs) (hfits : b.length ≤ n) :
    Sys.read fd n d = (some b, { d with chunks := bs }) := by
  obtain ⟨_, _, _, _, chunks, _, _, _⟩ := d
  cases h
  show (some (b.take n), _) = _
  rw [List.take_of_length_le hfits]

/-- The desk feeds its chunks. -/
theorem feeds {fd : Int32} {c : Call} (hone : c.numEvents = 1) {rss : List (List Record)}
    {d : Taped Desk} (hchunks : d.os.chunks = rss.map encodeAll)
    (hfit : ∀ rs ∈ rss, rs ≠ [] ∧ (encodeAll rs).length ≤ readCap)
    (hall : (rss.map encodeAll).flatten.length < 2 ^ 32) :
    Feeds (ReflTransGen PrintCall) fd c (fun _ => True) (TimesOut fd c true) rss d := by
  induction rss generalizing d with
  | nil =>
      intro d₁ h
      have hempty : d₁.os.chunks = [] := (chunks_of_printCalls h).trans hchunks
      refine ⟨trivial, fun _ => ⟨_, .nothing d₁ ?_⟩⟩
      show (if d₁.os.chunks.isEmpty then (0 : Int32) else 1) = 0
      rw [hempty]
      rfl
  | cons rs rss ih =>
      intro d₁ h
      obtain ⟨hne, hcap⟩ := hfit rs List.mem_cons_self
      have hd₁ : d₁.os.chunks = encodeAll rs :: rss.map encodeAll := (chunks_of_printCalls h).trans hchunks
      simp only [List.map_cons, List.flatten_cons, List.length_append] at hall
      have hpoll : Sys.ppoll fd (polledFor c.timeout) d₁ = (1, d₁) := by
        show ((if d₁.os.chunks.isEmpty then (0 : Int32) else 1), d₁) = _
        rw [hd₁, List.isEmpty_cons, if_neg Bool.false_ne_true]
      have hready : Sys.fionread fd d₁ =
          ((0, UInt32.ofNat ((encodeAll rs).length + (rss.map encodeAll).flatten.length)), d₁) := by
        show ((0, UInt32.ofNat d₁.os.chunks.flatten.length), d₁) = _
        rw [hd₁, List.flatten_cons, List.length_append]
      have hread : Sys.read fd readCap d₁ =
          (some (encodeAll rs), { d₁ with os := { d₁.os with chunks := rss.map encodeAll } }) := by
        show Taped.pass (Sys.read fd readCap) d₁ = _
        unfold Taped.pass
        rw [read_chunk hd₁ hcap]
      refine ⟨trivial, _, answered_of_chunk hone hne hcap hpoll hready (by omega) (by omega) hread, ?_⟩
      exact ih rfl (fun rs hrs => hfit rs (List.mem_cons_of_mem _ hrs)) (by omega)

end Desk

namespace Inotifywait

theorem renders_untimed [Sys σ] {τ : Type} [Sys τ] {o : Opts} {l : Inotifytools} {ev : Event}
    {text : Bytes} (hcsv : o.csv = false) (htime : l.timefmt = none) (os' : τ)
    (h : Renders (σ := Taped σ) o l ev text) :
    expand (segments (l.store.eventPath ev) ev none (tokens (lineFormat o)) os') = some text := by
  unfold Renders at h
  rw [if_neg (by simp [hcsv])] at h
  obtain ⟨os, h⟩ := h
  rw [htime] at h
  rw [← h]
  exact congrArg _ (segments_untimed _ _ _ _ _)

/-- Without a time format the lines are given by the events. -/
theorem Lines.untimed [Sys σ] {τ : Type} [Sys τ] {o : Opts} {l : Inotifytools} {evs : List Event}
    {texts : List Bytes} (h : Lines (σ := σ) o l evs texts) (hcsv : o.csv = false)
    (htime : l.timefmt = none) (os' : τ) :
    texts.map some = (evs.filter (shown o)).map fun ev =>
      expand (segments (l.store.eventPath ev) ev none (tokens (lineFormat o)) os') := by
  unfold Lines at h
  generalize evs.filter (shown o) = evs at h ⊢
  induction h with
  | nil => rfl
  | cons hline _ ih => rw [List.map_cons, List.map_cons, ih, renders_untimed hcsv htime os' hline]

/-- The line of an event without a time format can be printed if it has room. -/
theorem printable_untimed [Sys σ] {τ : Type} [Sys τ] {o : Opts} {l : Inotifytools} {ev : Event}
    (hcsv : o.csv = false) (htime : l.timefmt = none) (hne : lineFormat o ≠ [])
    (hlen : (lineFormat o).length ≤ maxStrlen) (hlone : .lone ∉ tokens (lineFormat o)) (os' : τ)
    (hroom : ((expand (segments (l.store.eventPath ev) ev none (tokens (lineFormat o)) os')).getD
      []).length < maxStrlen) : Printable (σ := Taped σ) o l ev := by
  refine .inr ⟨hne, hlen, hlone, fun tf htf => ?_, fun text h => ?_⟩
  · rw [htime] at htf
    cases htf
  · rwa [renders_untimed hcsv htime os' h] at hroom

/-- `inotifywait -m -t 1 --exclude tmp d`, with three events in two reads. -/
theorem transcript_desk :
    let r₁ : Record := { wd := 1, mask := 2, cookie := 0, name := ascii "a" ++ [0, 0] }
    let r₂ : Record := { wd := 1, mask := 2, cookie := 0, name := ascii "tmp" ++ [0] }
    let r₃ : Record := { wd := 1, mask := 0x40, cookie := 7, name := ascii "b" ++ [0] }
    let os : Taped Desk :=
      { os := { dirs := [ascii "d"], chunks := [encodeAll [r₁, r₂], encodeAll [r₃]] } }
    let o : Opts := { monitor := true, timeout := 1, filters := { exc := some (ascii "tmp") } }
    let w := (prepare 9 o [ascii "d"]).after { lib := Inotifytools.new, os }
    ∃ w', w'.os.tape = w.os.tape ++ ascii "d/ MODIFY a\nd/ MOVED_FROM b\n" ∧
      Comes o 2 (some exitTimeout) w w' := by
  intro r₁ r₂ r₃ os o w
  let path (name : Bytes) : EventPath := { filename := ascii "d/", dirnamelen := 2, eventname := name }
  have hrun : ∀ v : World (Taped Desk),
      prepare 9 o [ascii "d"] { lib := Inotifytools.new, os } = .ok (true, v) →
      v.os.os.chunks = [encodeAll [r₁, r₂], encodeAll [r₃]] →
      v.passed [[r₁, r₂], [r₃]].flatten = [r₁.event, r₃.event] → v.lib.timefmt.isNone = true →
      v.lib.store.eventPath r₁.event = path (ascii "a") →
      v.lib.store.eventPath r₃.event = path (ascii "b") →
      ∃ w', w'.os.tape = v.os.tape ++ ascii "d/ MODIFY a\nd/ MOVED_FROM b\n" ∧
        Comes o 2 (some exitTimeout) v w' := by
    intro v hprep hchunks hpassed htime hfirst hsecond
    have hz : ¬ AnsweredZero (Taped Desk) := not_answeredZero_taped Desk.kernelWatches.not_answeredZero
    have hfeeds : Feeds (ReflTransGen PrintCall) v.lib.fd (.one o.timeout) (fun _ => True)
        (TimesOut v.lib.fd (.one o.timeout) true) [[r₁, r₂], [r₃]] v.os := by
      refine Desk.feeds rfl hchunks (List.forall_mem_cons.2 ⟨⟨by simp, by decide⟩, ?_⟩) (by decide)
      exact List.forall_mem_singleton.2 ⟨by simp, by decide⟩
    have hnone : v.lib.timefmt = none := Option.isNone_iff_eq_none.1 htime
    have hp : ∀ ev ∈ v.passed [[r₁, r₂], [r₃]].flatten, shown o ev = true →
        Printable (σ := Taped Desk) o v.lib ev := by
      rw [hpassed, List.forall_mem_cons, List.forall_mem_singleton]
      refine ⟨fun _ => ?_, fun _ => ?_⟩
      · exact printable_untimed rfl hnone (by decide) (by decide) (by decide +kernel) ({} : Desk)
          (by rw [hfirst]; decide +kernel)
      · exact printable_untimed rfl hnone (by decide) (by decide) (by decide +kernel) ({} : Desk)
          (by rw [hsecond]; decide +kernel)
    obtain ⟨texts, w', hlines, htape, hcomes⟩ := transcript hz rfl (by decide) hprep hfeeds hp
    rw [hpassed] at hlines hcomes
    have htexts := hlines.untimed rfl hnone ({} : Desk)
    have hall : consumed o [r₁.event, r₃.event] = [r₁.event, r₃.event] := rfl
    have hshown : [r₁.event, r₃.event].filter (shown o) = [r₁.event, r₃.event] := by decide +kernel
    rw [hall, hshown, List.map_cons, List.map_singleton, hfirst, hsecond] at htexts
    have hboth : texts = [ascii "d/ MODIFY a\n", ascii "d/ MOVED_FROM b\n"] :=
      List.map_injective_iff.2 (Option.some_injective _) (htexts.trans (by decide +kernel))
    rw [hboth] at htape
    exact ⟨w', htape, hcomes⟩
  exact hrun w (Prog.run_of_result (by decide +kernel)) (by decide +kernel) (by decide +kernel)
    (by decide +kernel) (by decide +kernel) (by decide +kernel)

end Inotifywait

end InotifyTools
