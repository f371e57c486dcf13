import InotifyTools.Proofs.Listening
import InotifyTools.Proofs.Unseen

set_option autoImplicit false

/-! # A kernel that feeds a program

The programs call `next_event` in a loop and print in between. The kernel is taken as a source of
records that does not mind what is printed: each call then returns the first of the records that the
filters let through. -/

namespace InotifyTools

open Relation

variable {σ : Type}

/-! ## What reading leaves alone -/

section

variable [Sys σ] {w w' : World σ}

/-- The names of the watches, the filters and the time format. -/
structure SameSettings (l l' : Inotifytools) : Prop where
  nameOf : ∀ wd, l'.store.nameOf wd = l.store.nameOf wd
  fd : l'.fd = l.fd
  regex : l'.regex = l.regex
  invertRegexp : l'.invertRegexp = l.invertRegexp
  recursiveWatch : l'.recursiveWatch = l.recursiveWatch
  timefmt : l'.timefmt = l.timefmt

theorem Effects.sameSettings (h : Effects Reading w w') : SameSettings w.lib w'.lib := by
  refine h.preserves (P := fun w' => SameSettings w.lib w'.lib) ?_
    ⟨fun _ => rfl, rfl, rfl, rfl, rfl, rfl⟩
  intro k w₁ w₂ hk he ih
  obtain ⟨hname, hfd, hre, hinv, hrec, htime⟩ := ih
  cases he with
  | scratch | call | stream | collecting => exact ⟨hname, hfd, hre, hinv, hrec, htime⟩
  | counted _ hv =>
      exact ⟨fun wd => (Store.nameOf_setStats hv _ wd).trans (hname wd), hfd, hre, hinv, hrec, htime⟩
  | _ => rcases hk with hk | hk | hk <;> cases hk

omit [Sys σ] in
theorem SameSettings.drops (h : SameSettings w.lib w'.lib) (ev : Event) :
    w'.lib.drops ev = w.lib.drops ev :=
  drops_congr h.regex h.invertRegexp h.recursiveWatch h.nameOf ev

omit [Sys σ] in
theorem SameSettings.eventPath (h : SameSettings w.lib w'.lib) (ev : Event) :
    w'.lib.store.eventPath ev = w.lib.store.eventPath ev := by
  unfold Store.eventPath
  rw [h.nameOf]

end

/-! ## Feeding -/

variable [Sys σ] {w₀ w w' : World σ} {R : σ → σ → Prop} {c : Call} {meanwhile ends : σ → Prop}
  {q : List Record} {rss : List (List Record)}

/-- As long as the program has only done of `R` since it last read, `meanwhile` holds, and when it polls it
    is answered with the next of the chunks `rss`. Behind the last of them `ends` holds. -/
def Feeds (R : σ → σ → Prop) (fd : Int32) (c : Call) (meanwhile ends : σ → Prop) :
    List (List Record) → σ → Prop
  | [], os => ∀ os₁, R os os₁ → meanwhile os₁ ∧ ends os₁
  | rs :: rss, os => ∀ os₁, R os os₁ → meanwhile os₁ ∧
      ∃ os₂, AnsweredWith fd c os₁ (some rs) os₂ ∧ Feeds R fd c meanwhile ends rss os₂

theorem Feeds.rel [IsTrans σ R] {fd : Int32} {os os' : σ} (h : Feeds R fd c meanwhile ends rss os)
    (hr : R os os') : Feeds R fd c meanwhile ends rss os' := by
  cases rss with
  | nil => exact fun os₁ h₁ => h os₁ (IsTrans.trans _ _ _ hr h₁)
  | cons rs rss => exact fun os₁ h₁ => h os₁ (IsTrans.trans _ _ _ hr h₁)

theorem Feeds.stays {fd : Int32} {os os' : σ} (h : Feeds R fd c meanwhile ends rss os)
    (hr : R os os') : meanwhile os' := by
  cases rss with
  | nil => exact (h os' hr).1
  | cons rs rss => exact (h os' hr).1

/-- The events, of those to come, that the filters of `w₀` let through. -/
def World.passed (w₀ : World σ) (rs : List Record) : List Event :=
  (rs.filter fun r => !w₀.lib.drops r.event).map Record.event

omit [Sys σ] in
theorem World.passed_append (w₀ : World σ) (rs rs' : List Record) :
    w₀.passed (rs ++ rs') = w₀.passed rs ++ w₀.passed rs' := by
  unfold World.passed
  rw [List.filter_append, List.map_append]

/-- `w` holds the records `q`, is fed the chunks `rss`, and has only read and counted since `w₀`. -/
structure Awaits (R : σ → σ → Prop) (c : Call) (meanwhile ends : σ → Prop) (w₀ w : World σ)
    (q : List Record) (rss : List (List Record)) : Prop where
  effects : Effects Reading w₀ w
  holds : Holds w.lib.stream q
  feeds : Feeds R w₀.lib.fd c meanwhile ends rss w.os

namespace Awaits

theorem inotify (h : Awaits R c meanwhile ends w₀ w q rss) (hz : ¬ AnsweredZero σ) (h₀ : Inotify w₀) :
    Inotify w :=
  h₀.effects hz h.effects (by rintro (h | h) <;> cases h)

/-- What only prints does not disturb. -/
theorem calm [IsTrans σ R] (h : Awaits R c meanwhile ends w₀ w q rss) (he : Effects ∅ w w')
    (hr : R w.os w'.os) : Awaits R c meanwhile ends w₀ w' q rss where
  effects := h.effects.trans (he.mono (Set.empty_subset _))
  holds := by
    rw [he.sameBooks.stream]
    exact h.holds
  feeds := h.feeds.rel hr

/-- A turn of the loop takes a record. -/
theorem take (hz : ¬ AnsweredZero σ) (h₀ : Inotify w₀) {r : Record} {os : σ}
    (he : Effects Reading w₀ w) (hserves : Serves w [c] (r :: q) os)
    (hfeeds : Feeds R w₀.lib.fd c meanwhile ends rss os) :
    ∃ fuel₀ w', (∀ fuel, fuel₀ ≤ fuel → eventRound fuel c.timeout c.numEvents w =
        .ok (if w₀.lib.drops r.event then .skip else .event, w')) ∧
      Awaits R c meanwhile ends w₀ w' q rss ∧ w'.os = os ∧ w'.lib.stream.currentEvent = r.event := by
  have hw : Inotify w := h₀.effects hz he (by rintro (h | h) <;> cases h)
  have hsame := he.sameSettings
  obtain ⟨fuel₀, w', hround, -, hholds, hos, hevent⟩ :=
    eventRound_run_record ⟨hw, hsame.fd, hsame.drops⟩ hserves
  have he' : Effects Reading w w' :=
    ((eventRound_reads hw fuel₀ c.timeout c.numEvents).ok (hround fuel₀ le_rfl)).1
  exact ⟨fuel₀, w', hround, ⟨he.trans he', hholds, hos ▸ hfeeds⟩, hos, hevent⟩

end Awaits

/-! ## The next event -/

/-- Polls and reads, as the call `c` makes them. -/
def Polls (fd : Int32) (c : Call) : σ → σ → Prop :=
  ReflTransGen fun os os' => ∃ answer, AnsweredWith fd c os answer os'

/-- The next call, made in `w` with the records `rs` to come: it returns the first event that the
    filters let through, or, when there is none, does what it does in a world where all is read. -/
def Next (R : σ → σ → Prop) (c : Call) (meanwhile ends : σ → Prop) (w₀ w : World σ) (rs : List Record) :
    Prop :=
  (∃ ev q rss w', w₀.passed rs = ev :: w₀.passed (q ++ rss.flatten) ∧ Returns w c (some ev) w' ∧
    Awaits R c meanwhile ends w₀ w' q rss ∧ Polls w₀.lib.fd c w.os w'.os) ∨
  w₀.passed rs = [] ∧ ∃ w', Awaits R c meanwhile ends w₀ w' [] [] ∧ Polls w₀.lib.fd c w.os w'.os ∧
    ∀ e w'', Returns w' c e w'' → Returns w c e w''

/-- A dropped record is not noticed. -/
theorem Next.skip {r : Record} {rs : List Record} (h : Next R c meanwhile ends w₀ w' rs)
    (hdrop : w₀.lib.drops r.event = true) (hi : w.lib.initialized = true)
    (hi' : w'.lib.initialized = true) {fuel₀ : Nat} (hround : ∀ fuel, fuel₀ ≤ fuel →
      eventRound fuel c.timeout c.numEvents w = .ok (.skip, w'))
    (hpolls : Polls w₀.lib.fd c w.os w'.os) : Next R c meanwhile ends w₀ w (r :: rs) := by
  have hpassed : w₀.passed (r :: rs) = w₀.passed rs := by
    unfold World.passed
    rw [List.filter_cons_of_neg (by simp [hdrop])]
  have hgoes : ∀ e w'', Returns w' c e w'' → Returns w c e w'' :=
    Turn.goes hi hi' ⟨fuel₀, hround⟩
  unfold Next
  rw [hpassed]
  rcases h with ⟨ev, q, rss, w'', hev, hreturns, hawaits, hpolls'⟩ | ⟨hnone, w'', hawaits, hpolls', hsame⟩
  · exact .inl ⟨ev, q, rss, w'', hev, hgoes _ _ hreturns, hawaits, hpolls.trans hpolls'⟩
  · exact .inr ⟨hnone, w'', hawaits, hpolls.trans hpolls', fun e v h => hgoes e v (hsame e v h)⟩

/-- A record let through is returned. -/
theorem Next.event {r : Record} (hpass : w₀.lib.drops r.event = false)
    (hi : w.lib.initialized = true) {fuel₀ : Nat} (hround : ∀ fuel, fuel₀ ≤ fuel →
      eventRound fuel c.timeout c.numEvents w = .ok (.event, w'))
    (hevent : w'.lib.stream.currentEvent = r.event) (h : Awaits R c meanwhile ends w₀ w' q rss)
    (hpolls : Polls w₀.lib.fd c w.os w'.os) :
    Next R c meanwhile ends w₀ w (r :: (q ++ rss.flatten)) := by
  refine .inl ⟨r.event, q, rss, w', ?_, .of_succ fuel₀ fun fuel hfuel => ?_, h, hpolls⟩
  · unfold World.passed
    rw [List.filter_cons_of_pos (by simp [hpass]), List.map_cons]
  · rw [nextEvents_event hi (hround fuel hfuel), hevent]

/-- **The next call.** -/
theorem Awaits.next [Std.Refl R] (hz : ¬ AnsweredZero σ) (h₀ : Inotify w₀)
    (h : Awaits R c meanwhile ends w₀ w q rss) : Next R c meanwhile ends w₀ w (q ++ rss.flatten) := by
  -- A record is taken, and the rest is left to the recursion.
  have hstep : ∀ {w : World σ} {r : Record} {q : List Record} {rss : List (List Record)} {os : σ},
      Effects Reading w₀ w → Serves w [c] (r :: q) os → Feeds R w₀.lib.fd c meanwhile ends rss os →
      Polls w₀.lib.fd c w.os os →
      (∀ {w' : World σ}, Awaits R c meanwhile ends w₀ w' q rss →
        Next R c meanwhile ends w₀ w' (q ++ rss.flatten)) →
      Next R c meanwhile ends w₀ w (r :: (q ++ rss.flatten)) := by
    intro w r q rss os he hserves hfeeds hpolls ih
    have hi : w.lib.initialized = true :=
      (h₀.effects hz he (by rintro (h | h) <;> cases h)).initialized
    obtain ⟨fuel₀, w', hround, hawaits, rfl, hevent⟩ := Awaits.take hz h₀ he hserves hfeeds
    cases hdrop : w₀.lib.drops r.event with
    | true =>
        rw [hdrop, if_pos rfl] at hround
        exact (ih hawaits).skip hdrop hi (hawaits.inotify hz h₀).initialized hround hpolls
    | false =>
        rw [hdrop, if_neg Bool.false_ne_true] at hround
        exact .event hdrop hi hround hevent hawaits hpolls
  induction rss generalizing q w with
  | nil =>
      induction q generalizing w with
      | nil => exact .inr ⟨rfl, w, h, .refl, fun _ _ h => h⟩
      | cons r q ih => exact hstep h.effects (.inl ⟨h.holds, rfl⟩) h.feeds .refl fun h => ih h
  | cons rs rss ihr =>
      induction q generalizing w with
      | nil =>
          obtain ⟨-, os, hanswer, hfeeds⟩ := h.feeds _ (Std.Refl.refl _)
          have hanswer' : AnsweredWith w.lib.fd c w.os (some rs) os := by
            rw [h.effects.sameSettings.fd]
            exact hanswer
          cases rs with
          | nil =>
              cases hanswer with
              | data _ _ _ hne => exact absurd rfl hne
          | cons r rs =>
              exact hstep h.effects (.inr ⟨h.holds, c, [], rfl, hanswer'⟩) hfeeds
                (.single ⟨_, hanswer⟩) fun h => ihr h
      | cons r q ih => exact hstep h.effects (.inl ⟨h.holds, rfl⟩) h.feeds .refl fun h => ih h

/-! ## When all is read -/

/-- Where all is read and a poll brings nothing, the call returns nothing. -/
theorem returns_nothing (hw : Inotify w) (hholds : Holds w.lib.stream [])
    (f : Inotifytools → Inotifytools) (hf : ∀ l, (f l).stream = l.stream) {os : σ}
    (hread : ∀ v : World σ, v.os = w.os → v.lib.fd = w.lib.fd → ∀ fuel,
      readEvents fuel c.timeout c.numEvents v = .ok (false, { lib := f v.lib, os })) :
    ∃ l w', l.error = 0 ∧ Returns w c none w' ∧ w'.lib = f l ∧ w'.os = os ∧
      Holds w'.lib.stream [] := by
  let w₁ : World σ := { w with lib := { w.lib with error := 0 } }
  obtain ⟨s, f', hrun, hfirst, -⟩ := bufferedEvent_run_empty (w := w₁) hholds.1
  have hround : ∀ fuel, eventRound fuel c.timeout c.numEvents w = .ok (.fail, _) := fun fuel =>
    (Prog.bind_run_ok (f := fun b : Bool => _) hrun).trans
      (Prog.bind_run_ok (hread (w₁.withStream s) rfl rfl fuel))
  have hzero : s.firstByte = 0 := hfirst.trans (hholds.2 rfl)
  refine ⟨_, _, rfl, .of_succ 0 fun fuel _ => nextEvents_fail hw.initialized (hround fuel), rfl, rfl, ?_⟩
  show Holds (f (w₁.withStream s).lib).stream []
  rw [hf]
  exact ⟨.inl ⟨hzero, rfl⟩, fun _ => hzero⟩

/-- From `w`, the call `c` returns nothing, and this is no error. -/
def Idle (c : Call) (w w' : World σ) : Prop := Returns w c none w' ∧ w'.lib.error = 0

/-- A poll times out, if `timesOut`. -/
def TimesOut (fd : Int32) (c : Call) (timesOut : Bool) (os : σ) : Prop :=
  timesOut = true → ∃ os', AnsweredWith fd c os none os'

/-- A poll that times out is no error. -/
theorem idle_of_nothing (hw : Inotify w) (hholds : Holds w.lib.stream []) {os : σ}
    (hanswer : AnsweredWith w.lib.fd c w.os none os) : ∃ w', Idle c w w' ∧ w'.os = os := by
  cases hanswer with
  | nothing hpoll =>
      let os := (Sys.ppoll w.lib.fd (polledFor c.timeout) w.os).2
      have hread : ∀ v : World σ, v.os = w.os → v.lib.fd = w.lib.fd → ∀ fuel,
          readEvents fuel c.timeout c.numEvents v = .ok (false, { lib := id v.lib, os }) := by
        intro v hvos hvfd fuel
        unfold os
        rw [← hvos, ← hvfd] at hpoll ⊢
        exact readEvents_run_timeout hpoll fuel c.numEvents
      obtain ⟨l, w', herror, hreturns, hlib, hos, -⟩ :=
        returns_nothing hw hholds id (fun _ => rfl) hread
      exact ⟨w', ⟨hreturns, by rw [hlib]; exact herror⟩, hos⟩

/-- A poll that fails leaves its errno, and nothing else. -/
theorem returns_of_failed_poll (hw : Inotify w) (hholds : Holds w.lib.stream [])
    (hpoll : (Sys.ppoll w.lib.fd (polledFor c.timeout) w.os).1 < 0) :
    let os := (Sys.ppoll w.lib.fd (polledFor c.timeout) w.os).2
    ∃ w', Returns w c none w' ∧ w'.lib.error = Sys.errno os ∧ w'.os = os ∧ Holds w'.lib.stream [] := by
  intro os
  let f (l : Inotifytools) : Inotifytools := { l with error := Sys.errno os }
  have hread : ∀ v : World σ, v.os = w.os → v.lib.fd = w.lib.fd → ∀ fuel,
      readEvents fuel c.timeout c.numEvents v = .ok (false, { lib := f v.lib, os }) := by
    intro v hvos hvfd fuel
    unfold f os polledFor at *
    rw [← hvos, ← hvfd] at hpoll ⊢
    unfold readEvents
    rw [getLib_bind, call_bind, if_pos hpoll]
    rfl
  obtain ⟨l, w', -, hreturns, hlib, hos, hholds'⟩ :=
    returns_nothing hw hholds f (fun _ => rfl) hread
  exact ⟨w', hreturns, by rw [hlib], hos, hholds'⟩

end InotifyTools
