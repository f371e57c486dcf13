import InotifyTools.Proofs.Blind
import InotifyTools.Proofs.Counting
import InotifyTools.Proofs.Tracker

set_option autoImplicit false

/-! # Filters and directory tracking

Two handles read the same events and follow the directories they report, one of them through a
filter. As long as the filter keeps nothing of a move from the tracker, both come to the same names. -/

namespace InotifyTools

variable {σ α : Type} [Sys σ] {w w' : World σ}

/-! ## One turn of the loop -/

/-- A turn of the loop up to the delivery of the event. -/
def takeRecord (fuel : Nat) (timeout : Int) (numEvents : Int32) : M σ (Option Int32) := do
  setError 0
  let buffered ← bufferedEvent
  let ready ← (if buffered then pure true else readEvents fuel timeout numEvents)
  if !ready then
    return none
  match ← decodeEvent fuel with
  | none => return none
  | some eventPid => do
      advance
      return some eventPid

/-- A turn takes a record and delivers it. -/
theorem eventRound_eq (fuel : Nat) (timeout : Int) (numEvents : Int32) :
    (eventRound fuel timeout numEvents : M σ Round) =
      takeRecord fuel timeout numEvents >>= fun pid => match pid with
        | none => pure .fail
        | some pid => deliver pid := by
  unfold eventRound takeRecord
  simp only [Prog.bind_assoc]
  refine congrArg _ (funext fun _ => congrArg _ (funext fun buffered => congrArg _
    (funext fun ready => ?_)))
  cases ready with
  | false => rfl
  | true =>
      show (decodeEvent fuel >>= _) = (decodeEvent fuel >>= _) >>= _
      rw [Prog.bind_assoc]
      refine congrArg _ (funext fun pid => ?_)
      cases pid with
      | none => rfl
      | some pid =>
          show (advance >>= fun _ => deliver pid) = (advance >>= fun _ => pure (some pid)) >>= _
          rw [Prog.bind_assoc]
          rfl

theorem takeRecord_blind (fuel : Nat) (timeout : Int) (numEvents : Int32) :
    Blind (takeRecord fuel timeout numEvents : M σ (Option Int32)) := by
  refine .bind (setError_blind 0) fun _ => .bind bufferedEvent_blind fun _ => ?_
  refine .bind (.ite (.pure _) (readEvents_blind _ _ _)) fun _ => .ite (.pure _) ?_
  refine .bind (decodeEvent_blind fuel) fun pid => ?_
  cases pid with
  | none => exact .pure _
  | some pid => exact .bind advance_blind fun _ => .pure _

/-- Taking a record moves the event stream, and may enter a watch for a new fid. -/
theorem takeRecord_enters (fuel : Nat) (timeout : Int) (numEvents : Int32) :
    Sound {.stream, .watch} (takeRecord fuel timeout numEvents : M σ (Option Int32)) := by
  have hs : Kind.stream ∈ ({.stream, .watch} : Set Kind) := .inl rfl
  have hwatch : Kind.watch ∈ ({.stream, .watch} : Set Kind) := .inr rfl
  have hl : Kind.lifecycle ∉ ({.stream, .watch} : Set Kind) := by rintro (h | h) <;> cases h
  refine .bind (setError_sound 0) fun _ => .bind (bufferedEvent_sound hs) fun _ => ?_
  refine .bind (.ite (.pure _) (readEvents_sound hs _ _ _)) fun _ => .ite (.pure _) ?_
  refine .bind (decodeEvent_sound hs hwatch hl fuel) fun pid => ?_
  cases pid with
  | none => exact .pure _
  | some pid => exact .bind (advance_sound hs) fun _ => .pure _

/-- With inotify, taking a record moves the event stream alone. -/
theorem takeRecord_sound (h : Inotify w) (fuel : Nat) (timeout : Int) (numEvents : Int32) :
    SoundAt {.stream} w (takeRecord fuel timeout numEvents) fun _ _ => True := by
  have hs : Kind.stream ∈ ({.stream} : Set Kind) := Set.mem_singleton _
  have hl : Kind.lifecycle ∉ ({.stream} : Set Kind) := nofun
  refine .bind h.wellIndexed (setError_sound 0 w h.wellIndexed) fun _ w₁ hw₁ he₁ _ => ?_
  refine .bind hw₁ (bufferedEvent_sound hs w₁ hw₁) fun buffered w₂ hw₂ he₂ _ => ?_
  refine .bind hw₂ (Sound.ite (.pure _) (readEvents_sound hs _ _ _) w₂ hw₂) fun ready w₃ hw₃ he₃ _ => ?_
  refine .ite (fun _ => .pure trivial) fun _ => ?_
  have hm : w₃.lib.fanotifyMode = false :=
    ((he₁.trans (he₂.trans he₃)).fanotifyMode_eq hl).trans h.mode
  refine .bind (Q := fun _ _ => True) hw₃ ?_ fun pid w₄ hw₄ _ _ => ?_
  · refine .step _ rfl (.single hs (.stream w₃ _)) (.getLib (.ite (fun hf => ?_) fun _ => ?_))
    · exact absurd (hm.symm.trans hf) (by decide)
    · exact .step _ rfl (.single hs (.stream _ _)) (.pure trivial)
  · cases pid with
    | none => exact .pure trivial
    | some pid => exact (Sound.bind (advance_sound hs) fun _ => .pure _).at hw₄

/-! ## Stored names -/

/-- The filters drop an event whose watch has its name stored. -/
def Inotifytools.hides (l : Inotifytools) (ev : Event) : Bool :=
  l.rejectsPath (l.eventPath ev) && !filterExempt l ev.mask

/-- An event is dropped, or counted and delivered. -/
theorem StoredNames.deliver_eq (h : StoredNames w) (pid : Int32) :
    deliver pid w =
      if w.lib.selfPid ≠ 0 ∧ w.lib.selfPid = pid then .ok (.skip, w)
      else if w.lib.hides w.lib.stream.currentEvent then .ok (.skip, w)
      else .ok (.event, w.delivered) := by
  rw [deliver_filtered (filterEvent_of_path (h.filenameFromEvent_run _))]
  rfl

/-- With inotify an event is dropped, or counted and delivered. -/
theorem deliver_eq (h : Inotify w) (pid : Int32) :
    deliver pid w =
      if w.lib.selfPid ≠ 0 ∧ w.lib.selfPid = pid then .ok (.skip, w)
      else if w.lib.drops w.lib.stream.currentEvent then .ok (.skip, w)
      else .ok (.event, w.delivered) := by
  rw [deliver_filtered (filterEvent_run h)]
  rfl

/-- The names stay where they are unless the handle is configured anew. -/
theorem StoredNames.effects (hz : ¬ AnsweredZero σ) {S : Set Kind} (h : StoredNames w)
    (he : Effects S w w') (hl : Kind.lifecycle ∉ S) (hc : Kind.config ∉ S) : StoredNames w' := by
  refine ⟨(he.initialized_eq hl).trans h.initialized, he.wellIndexed h.wellIndexed, ?_⟩
  rcases h.stored with ⟨hm, hp⟩ | hmark
  · have h' := Inotify.effects hz ⟨h.initialized, hm, h.wellIndexed, hp⟩ he hl
    exact .inl ⟨h'.mode, h'.plain⟩
  · exact .inr ((he.fanotifyMarkType_eq hc).trans hmark)

/-- The path of the directory an event is about, whose watch has its name stored. -/
def Inotifytools.dirpath (l : Inotifytools) (ev : Event) : Option Bytes :=
  let n := if ev.wd = 0 then [] else (l.store.nameOf ev.wd).getD []
  if n.isEmpty ∨ ev.mask.toInt32 &&& inIsdir = 0 then none
  else some (n ++ (if l.fanotifyMode then [] else ev.name) ++ [slash])

theorem StoredNames.dirpathFromEvent_eq (h : StoredNames w) (ev : Event) :
    dirpathFromEvent ev w = .ok (w.lib.dirpath ev, w) := by
  unfold dirpathFromEvent Inotifytools.dirpath
  rw [Prog.bind_run_ok (filenameFromWd_run h ev.wd)]
  dsimp only
  generalize (if ev.wd = 0 then [] else (w.lib.store.nameOf ev.wd).getD [] : Bytes) = n
  by_cases hn : n.isEmpty ∨ ev.mask.toInt32 &&& inIsdir = 0
  · rw [if_pos hn, if_pos hn]
    rfl
  · rw [if_neg hn, if_neg hn]
    rfl

/-- The path of the directory an event is about, with inotify. -/
def Store.dirpath (s : Store) (ev : Event) : Option Bytes :=
  let n := if ev.wd = 0 then [] else (s.nameOf ev.wd).getD []
  if n.isEmpty ∨ ev.mask.toInt32 &&& inIsdir = 0 then none else some (n ++ ev.name ++ [slash])

theorem Inotifytools.dirpath_inotify {l : Inotifytools} (hm : l.fanotifyMode = false) (ev : Event) :
    l.dirpath ev = l.store.dirpath ev := by
  unfold dirpath
  rw [hm]
  rfl

theorem dirpathFromEvent_eq (h : Inotify w) (ev : Event) :
    dirpathFromEvent ev w = .ok (w.lib.store.dirpath ev, w) := by
  rw [h.storedNames.dirpathFromEvent_eq, Inotifytools.dirpath_inotify h.mode]

/-! ## Events that change nothing -/

/-- A mask has neither of two flags. -/
theorem and_or_eq_zero {mask a b : Int32} : mask &&& (a ||| b) = 0 ↔ mask &&& a = 0 ∧ mask &&& b = 0 := by
  have hdistrib : mask &&& (a ||| b) = mask &&& a ||| mask &&& b := by
    rw [← Int32.toBitVec_inj]
    simp [BitVec.and_or_distrib_left]
  rw [hdistrib, Int32.or_eq_zero_iff]

/-- A watched directory moves away. -/
def Inotifytools.Departs (l : Inotifytools) (ev : Event) : Prop :=
  ev.mask.toInt32 &&& inMovedFrom ≠ 0 ∧ ∃ p, l.dirpath ev = some p ∧ l.store.wdOf p ≠ none

omit [Sys σ] in
theorem Alike.departs (h : Alike w w') (ev : Event) : w'.lib.Departs ev ↔ w.lib.Departs ev := by
  have hmode : w'.lib.fanotifyMode = w.lib.fanotifyMode := by
    obtain ⟨_, _, _, _, _, _, hlib, -⟩ := h.lib
    rw [hlib]
  have hpath : w'.lib.dirpath ev = w.lib.dirpath ev := by
    unfold Inotifytools.dirpath
    rw [h.store.nameOf, hmode]
  unfold Inotifytools.Departs
  simp only [hpath, h.store.wdOf]

/-- Nothing is done when no move is pending, no directory has come, and none that is watched has
    gone. -/
theorem MoveTracker.handle_idle (h : StoredNames w) {ev : Event}
    (hcomes : ¬ (ev.mask.toInt32 &&& inIsdir ≠ 0 ∧ ev.mask.toInt32 &&& (inCreate ||| inMovedTo) ≠ 0))
    (hgoes : ¬ w.lib.Departs ev) (fuel : Nat) (events : Int32) (announce : Bool)
    (out : List Piece → M σ Unit) :
    handle {} fuel ev true events announce out w = .ok ({}, w) := by
  have hpath := h.dirpathFromEvent_eq ev
  show follow {} fuel ev events announce out w = _
  unfold follow
  dsimp only
  by_cases hnew : ev.mask.toInt32 &&& inCreate ≠ 0 ∨
      (none : Option Bytes).isNone ∧ ev.mask.toInt32 &&& inMovedTo ≠ 0
  · -- a file has come: only directories are watched
    have hfile : ev.mask.toInt32 &&& inIsdir = 0 := by
      by_contra hdir
      refine hcomes ⟨hdir, fun hzero => ?_⟩
      rw [and_or_eq_zero] at hzero
      rcases hnew with hc | ⟨-, hm⟩
      · exact hc hzero.1
      · exact hm hzero.2
    have hnone : w.lib.dirpath ev = none := if_pos (.inr hfile)
    rw [if_pos hnew]
    unfold watchNew
    rw [hnone] at hpath
    rw [Prog.bind_run, Prog.bind_run_ok hpath]
    rfl
  · rw [if_neg hnew]
    by_cases hfrom : ev.mask.toInt32 &&& inMovedFrom ≠ 0
    · have hfound : (if (w.lib.dirpath ev).getD [] = [] then -1
          else (w.lib.store.wdOf ((w.lib.dirpath ev).getD [])).getD (-1) : Int32) = -1 := by
        cases hp : w.lib.dirpath ev with
        | none => rfl
        | some p =>
            have hunwatched : w.lib.store.wdOf p = none := by
              by_contra hwd
              exact hgoes ⟨hfrom, p, hp, hwd⟩
            rw [Option.getD_some, hunwatched]
            split <;> rfl
      rw [if_pos hfrom, Prog.bind_run_ok hpath, Prog.bind_run_ok (wdFromFilename_run h _), hfound]
      rfl
    · have hto : ¬ ev.mask.toInt32 &&& inMovedTo ≠ 0 := fun hto => hnew (.inr ⟨rfl, hto⟩)
      rw [if_neg hfrom, if_neg hto]
      rfl

/-! ## Two runs -/

omit [Sys σ] in
/-- Counting an event changes the counters alone. -/
theorem World.alike_delivered (hw : w.lib.store.WellIndexed) : Alike w w.delivered := by
  unfold World.delivered
  split
  · unfold Inotifytools.count
    split
    · exact ⟨⟨_, _, _, _, _, _, rfl, .refl _⟩, rfl⟩
    · next id hid =>
        obtain ⟨v, hv, -⟩ := hw.byWd _ _ hid
        refine ⟨⟨_, _, _, _, _, _, rfl, ?_⟩, rfl⟩
        rw [hv]
        refine ⟨rfl, rfl, rfl, rfl, rfl, fun i => ?_⟩
        show ((w.lib.store.watches.insert id _)[i]?).map Watch.uncounted = _
        rw [KeyedMap.lookup_insert]
        split
        · next he => rw [← he, hv]; rfl
        · rfl
  · exact ⟨⟨_, _, _, _, _, _, rfl, .refl _⟩, rfl⟩

/-- A handle without a filter, and one like it with a filter installed for recursive watching. -/
structure Filtered (w w' : World σ) : Prop where
  alike : Alike w w'
  names : StoredNames w
  names' : StoredNames w'
  unfiltered : w.lib.regex = none
  recursive : w'.lib.recursiveWatch ≠ 0

/-- What looks at no filter keeps the two handles alike. -/
theorem Filtered.run (hz : ¬ AnsweredZero σ) {S : Set Kind} (hl : Kind.lifecycle ∉ S)
    (hc : Kind.config ∉ S) {m : M σ α} (hb : Blind m) (h : Filtered w w')
    (hm : SoundAt S w m fun _ _ => True) (hm' : SoundAt S w' m fun _ _ => True) {a : α}
    {w₁ : World σ} (hrun : m w = .ok (a, w₁)) :
    ∃ w₁', m w' = .ok (a, w₁') ∧ Filtered w₁ w₁' := by
  obtain ⟨_, w₁', hrun', rfl, halike⟩ := hb.run h.alike hrun
  have he := (hm.ok hrun).1
  have he' := (hm'.ok hrun').1
  refine ⟨w₁', hrun', halike, h.names.effects hz he hl hc, h.names'.effects hz he' hl hc, ?_, ?_⟩
  · exact (congrArg Prod.fst (he.filter_eq hc)).trans h.unfiltered
  · rw [show w₁'.lib.recursiveWatch = w'.lib.recursiveWatch from
      congrArg (·.2.2) (he'.filter_eq hc)]
    exact h.recursive

omit [Sys σ] in
theorem World.delivered_filter (w : World σ) :
    w.delivered.lib.regex = w.lib.regex ∧ w.delivered.lib.recursiveWatch = w.lib.recursiveWatch := by
  unfold World.delivered Inotifytools.count
  split
  · split <;> exact ⟨rfl, rfl⟩
  · exact ⟨rfl, rfl⟩

omit [Sys σ] in
theorem Inotify.delivered (h : Inotify w) : Inotify w.delivered := by
  unfold World.delivered Inotifytools.count
  split
  · split
    · exact ⟨h.initialized, h.mode, h.wellIndexed, h.plain⟩
    · next id hid =>
        obtain ⟨v, hv, -⟩ := h.wellIndexed.byWd _ _ hid
        rw [hv]
        exact ⟨h.initialized, h.mode, h.wellIndexed.setStats hv _,
          h.plain.update { v with stats := v.stats.record w.lib.stream.currentEvent.mask } hv rfl rfl
            fun _ hi => hi⟩
  · exact h

omit [Sys σ] in
theorem StoredNames.delivered (h : StoredNames w) : StoredNames w.delivered := by
  rcases h.stored with ⟨hm, hp⟩ | hmark
  · exact (Inotify.delivered ⟨h.initialized, hm, h.wellIndexed, hp⟩).storedNames
  · unfold World.delivered Inotifytools.count
    split
    · split
      · exact ⟨h.initialized, h.wellIndexed, .inr hmark⟩
      · next id hid =>
          obtain ⟨v, hv, -⟩ := h.wellIndexed.byWd _ _ hid
          rw [hv]
          exact ⟨h.initialized, h.wellIndexed.setStats hv _, .inr hmark⟩
    · exact h

omit [Sys σ] in
/-- The event is counted on the handle without a filter. -/
theorem Filtered.delivered (h : Filtered w w') : Filtered w.delivered w' :=
  ⟨(World.alike_delivered h.names.wellIndexed).symm.trans h.alike, h.names.delivered, h.names',
    w.delivered_filter.1.trans h.unfiltered, h.recursive⟩

omit [Sys σ] in
/-- The event is counted on the handle with a filter. -/
theorem Filtered.delivered' (h : Filtered w w') : Filtered w w'.delivered := by
  refine ⟨h.alike.trans (World.alike_delivered h.names'.wellIndexed), h.names,
    h.names'.delivered, h.unfiltered, ?_⟩
  rw [w'.delivered_filter.2]
  exact h.recursive

/-- One turn of the loop of `next_events`, and the event it returns is handled. -/
def followTurn (fuel : Nat) (c : Call) (events : Int32) (announce : Bool)
    (out : List Piece → M σ Unit) (t : MoveTracker) : M σ (Round × MoveTracker) := do
  let round ← eventRound fuel c.timeout c.numEvents
  if round = .event then
    let t ← t.handle fuel (← getStream).currentEvent true events announce out
    return (round, t)
  return (round, t)

/-- The filter keeps nothing of a move from the tracker: an event that the process `pid` caused is
    dropped only while no move is pending, and is not that of a watched directory moving away. Events
    that the program causes itself do not come to the filter. -/
def Undisturbed (v : World σ) (pid : Int32) (t : MoveTracker) : Prop :=
  ¬ (v.lib.selfPid ≠ 0 ∧ v.lib.selfPid = pid) → v.lib.hides v.lib.stream.currentEvent = true →
    t.movedFrom = none ∧ ¬ v.lib.Departs v.lib.stream.currentEvent

/-- `out` prints, whatever the filters and the counters are. -/
structure PrintsBlind (out : List Piece → M σ Unit) : Prop where
  prints : Prints out
  blind : ∀ ps, Blind (out ps)

variable {out : List Piece → M σ Unit}

/-- An event that both handles return is handled alike. -/
theorem Filtered.handle (hz : ¬ AnsweredZero σ) (hout : PrintsBlind out) (h : Filtered w w')
    {t t₁ t₁' : MoveTracker} {fuel : Nat} {ev : Event} {events : Int32} {announce : Bool}
    {w₁ w₁' : World σ} (hrun : t.handle fuel ev true events announce out w = .ok (t₁, w₁))
    (hrun' : t.handle fuel ev true events announce out w' = .ok (t₁', w₁')) :
    Filtered w₁ w₁' ∧ t₁' = t₁ := by
  have hl : Kind.lifecycle ∉ ({.watch, .rename, .remove} : Set Kind) := by
    rintro (h | h | h) <;> cases h
  have hc : Kind.config ∉ ({.watch, .rename, .remove} : Set Kind) := by
    rintro (h | h | h) <;> cases h
  have hs := MoveTracker.handle_sound (.inl rfl) (.inr (.inl rfl)) (.inr (.inr rfl)) hl hout.prints t
    fuel ev true events announce
  obtain ⟨w₂, hrun₂, h₁⟩ := h.run hz hl hc
    (MoveTracker.handle_blind hout.blind t fuel ev true events announce)
    (hs w h.names.wellIndexed) (hs w' h.names'.wellIndexed) hrun
  cases hrun₂.symm.trans hrun'
  exact ⟨h₁, rfl⟩

/-- **A turn leaves the two handles alike** when the filter keeps nothing of a move from the
    tracker. -/
theorem Filtered.turn (hz : ¬ AnsweredZero σ) (hout : PrintsBlind out) (h : Filtered w w')
    {t t₁ t₁' : MoveTracker} {fuel : Nat} {c : Call} {events : Int32} {announce : Bool}
    {r r' : Round} {w₁ w₁' : World σ}
    (hrun : followTurn fuel c events announce out t w = .ok ((r, t₁), w₁))
    (hrun' : followTurn fuel c events announce out t w' = .ok ((r', t₁'), w₁'))
    (hok : ∀ pid v, takeRecord fuel c.timeout c.numEvents w' = .ok (some pid, v) →
      Undisturbed v pid t) : Filtered w₁ w₁' ∧ t₁' = t₁ := by
  obtain ⟨round, w₂, hround, hrest⟩ := Prog.bind_ok hrun
  obtain ⟨round', w₂', hround', hrest'⟩ := Prog.bind_ok hrun'
  rw [eventRound_eq] at hround hround'
  obtain ⟨pid, v, htake, hdeliver⟩ := Prog.bind_ok hround
  obtain ⟨pid', v', htake', hdeliver'⟩ := Prog.bind_ok hround'
  have hl : Kind.lifecycle ∉ ({.stream, .watch} : Set Kind) := by rintro (h | h) <;> cases h
  have hc : Kind.config ∉ ({.stream, .watch} : Set Kind) := by rintro (h | h) <;> cases h
  have hsound := takeRecord_enters (σ := σ) fuel c.timeout c.numEvents
  -- the filter is not looked at before the event is taken, so both handles take the same one
  obtain ⟨_, htake₂, hv⟩ := h.run hz hl hc (takeRecord_blind _ _ _)
    (hsound w h.names.wellIndexed) (hsound w' h.names'.wellIndexed) htake
  cases htake₂.symm.trans htake'
  cases pid with
  | none =>
      cases hdeliver
      cases hdeliver'
      cases hrest
      cases hrest'
      exact ⟨hv, rfl⟩
  | some pid =>
      have hok := hok pid v' htake'
      obtain ⟨_, _, _, _, _, _, hlib, -⟩ := hv.alike.lib
      have hself : v'.lib.selfPid = v.lib.selfPid := by rw [hlib]
      have hstream : v'.lib.stream = v.lib.stream := by rw [hlib]
      have hplain : v.lib.hides v.lib.stream.currentEvent = false := by
        unfold Inotifytools.hides Inotifytools.rejectsPath
        rw [hv.unfiltered]
        rfl
      change deliver pid v = _ at hdeliver
      change deliver pid v' = _ at hdeliver'
      rw [hv.names.deliver_eq] at hdeliver
      rw [hv.names'.deliver_eq, hself, hstream] at hdeliver'
      unfold Undisturbed at hok
      rw [hself, hstream] at hok
      by_cases hme : v.lib.selfPid ≠ 0 ∧ v.lib.selfPid = pid
      · -- neither handle delivers what the program itself has caused
        rw [if_pos hme] at hdeliver hdeliver'
        cases hdeliver
        cases hdeliver'
        cases hrest
        cases hrest'
        exact ⟨hv, rfl⟩
      · rw [if_neg hme, hplain] at hdeliver
        rw [if_neg hme] at hdeliver'
        cases hdeliver
        change (getStream >>= fun s => t.handle fuel s.currentEvent true events announce out >>=
          fun t => pure (Round.event, t)) v.delivered = _ at hrest
        rw [getStream_bind, v.delivered_stream] at hrest
        obtain ⟨t₂, w₃, hhandle, hpure⟩ := Prog.bind_ok hrest
        cases hpure
        by_cases hdropped : v'.lib.hides v.lib.stream.currentEvent = true
        · -- only the handle without the filter sees the event, and has nothing to do
          obtain ⟨hidle, hstays⟩ := hok hme hdropped
          have ht : t = {} := by
            cases t
            cases hidle
            rfl
          subst ht
          have hexempt : filterExempt v'.lib v.lib.stream.currentEvent.mask = false := by
            unfold Inotifytools.hides at hdropped
            simpa using (Bool.and_eq_true_iff.1 hdropped).2
          have hcomes : ¬ (v.lib.stream.currentEvent.mask.toInt32 &&& inIsdir ≠ 0 ∧
              v.lib.stream.currentEvent.mask.toInt32 &&& (inCreate ||| inMovedTo) ≠ 0) := by
            rw [filterExempt, decide_eq_false_iff_not] at hexempt
            exact fun hcomes => hexempt ⟨hv.recursive, hcomes⟩
          rw [hv.delivered.alike.departs] at hstays
          have hhandle' := MoveTracker.handle_idle hv.names.delivered hcomes hstays fuel events
            announce out
          rw [if_pos hdropped] at hdeliver'
          cases hdeliver'
          cases hrest'
          cases hhandle'.symm.trans hhandle
          exact ⟨hv.delivered, rfl⟩
        · -- both handles see the event
          rw [if_neg hdropped] at hdeliver'
          cases hdeliver'
          change (getStream >>= fun s => t.handle fuel s.currentEvent true events announce out >>=
            fun t => pure (Round.event, t)) v'.delivered = _ at hrest'
          rw [getStream_bind, v'.delivered_stream, hstream] at hrest'
          obtain ⟨t₂', w₃', hhandle', hpure⟩ := Prog.bind_ok hrest'
          cases hpure
          exact hv.delivered.delivered'.handle hz hout hhandle hhandle'

/-- The handle with a filter installed. -/
def World.withFilter (w : World σ) (re : Regex) (invert : Bool) (recursive : Int32) : World σ :=
  { w with lib :=
    { w.lib with regex := some re, invertRegexp := invert, recursiveWatch := recursive } }

/-- `Sides env ok events announce out w₀ w₀' t₀ w t w' t'`: from `w₀` and `w₀'` and the tracker `t₀`,
    two handles have made turn after turn, and have come to `w` and `w'` and the trackers `t` and
    `t'`. Their systems do the same while they are in the same state, and the worlds in which the second
    handle has taken its events satisfy `ok`. -/
inductive Sides (env : σ → σ → Prop) (ok : World σ → Int32 → MoveTracker → Prop) (events : Int32)
    (announce : Bool) (out : List Piece → M σ Unit) (w₀ w₀' : World σ) (t₀ : MoveTracker) :
    World σ → MoveTracker → World σ → MoveTracker → Prop
  | start : Sides env ok events announce out w₀ w₀' t₀ w₀ t₀ w₀' t₀
  | env {w w' : World σ} {t t' : MoveTracker} {os os' : σ}
      (h : Sides env ok events announce out w₀ w₀' t₀ w t w' t') (he : env w.os os)
      (he' : env w'.os os') (hsame : w'.os = w.os → os' = os) :
      Sides env ok events announce out w₀ w₀' t₀ { w with os } t { w' with os := os' } t'
  | turn {w w' w₁ w₁' : World σ} {t t' t₁ t₁' : MoveTracker} {fuel : Nat} {c : Call} {r r' : Round}
      (h : Sides env ok events announce out w₀ w₀' t₀ w t w' t')
      (hrun : followTurn fuel c events announce out t w = .ok ((r, t₁), w₁))
      (hrun' : followTurn fuel c events announce out t' w' = .ok ((r', t₁'), w₁'))
      (hok : ∀ pid v, takeRecord fuel c.timeout c.numEvents w' = .ok (some pid, v) → ok v pid t') :
      Sides env ok events announce out w₀ w₀' t₀ w₁ t₁ w₁' t₁'

/-- **Filters do not disturb directory tracking** while they keep nothing of a move from the tracker.
    From every state of a handle with inotify, or with fanotify marks on inodes, with and without a
    filter for recursive watching: if events are dropped only while no move is pending, and never those
    of watched directories moving away, then after every run both handles find the same names. -/
theorem filters_keep_tracking {env : σ → σ → Prop} (hz : ¬ AnsweredZero σ) {w₀ : World σ}
    (h : Reachable env w₀) (hi : w₀.lib.initialized = true)
    (hm : w₀.lib.fanotifyMode = false ∨ w₀.lib.fanotifyMarkType = fanMarkInode)
    (hre : w₀.lib.regex = none) {re : Regex} {invert : Bool} {recursive : Int32}
    (hrec : recursive ≠ 0) {events : Int32} {announce : Bool} (hout : PrintsBlind out)
    {t₀ t t' : MoveTracker}
    (hrun : Sides env Undisturbed events announce out w₀ (w₀.withFilter re invert recursive) t₀
      w t w' t') :
    t' = t ∧ ∀ wd, ∃ n, filenameFromWd wd w = .ok (n, w) ∧ filenameFromWd wd w' = .ok (n, w') := by
  have h₀ : StoredNames w₀ := ⟨hi, h.wellIndexed, hm.imp_left fun hm => ⟨hm, h.plain hz hi hm⟩⟩
  have hsides : Filtered w w' ∧ t' = t := by
    induction hrun with
    | start =>
        exact ⟨⟨⟨⟨_, _, _, _, _, _, rfl, .refl _⟩, rfl⟩, h₀,
          ⟨h₀.initialized, h₀.wellIndexed, h₀.stored⟩, hre, hrec⟩, rfl⟩
    | env _ _ _ hsame ih =>
        obtain ⟨hf, rfl⟩ := ih
        exact ⟨⟨⟨hf.alike.lib, hsame hf.alike.os⟩,
          ⟨hf.names.initialized, hf.names.wellIndexed, hf.names.stored⟩,
          ⟨hf.names'.initialized, hf.names'.wellIndexed, hf.names'.stored⟩,
          hf.unfiltered, hf.recursive⟩, rfl⟩
    | turn _ hrun hrun' hok ih =>
        obtain ⟨hf, rfl⟩ := ih
        exact hf.turn hz hout hrun hrun' hok
  obtain ⟨hf, rfl⟩ := hsides
  refine ⟨rfl, fun wd => ⟨_, filenameFromWd_run hf.names wd, ?_⟩⟩
  rw [filenameFromWd_run hf.names' wd, hf.alike.store.nameOf]

/-! ## A moved directory on the desk -/

namespace Desk

/-- The directory "d/a" has become "d/b". -/
def moved (d : Desk) : Desk :=
  let rename (p : Bytes) : Bytes := if p = ascii "d/a" then ascii "d/b" else p
  { d with dirs := d.dirs.map rename, watched := d.watched.map fun e => (e.1, e.2.1, rename e.2.2) }

/-- The directories "d/" and "d/a/" are watched; the latter is about to be moved to "d/b/", and then the
    kernel reports `rs`. -/
def moving (rs : List Record) : World Desk :=
  let gone : Record := { wd := 1, mask := 0x40000040, cookie := 7, name := ascii "a" ++ [0] }
  let come : Record := { wd := 1, mask := 0x40000080, cookie := 7, name := ascii "b" ++ [0] }
  World.after 9 { lib := Inotifytools.new
                  os := { dirs := [ascii "d", ascii "d/a"]
                          chunks := (gone :: come :: rs).map Record.encode } }
    [.init false false 0, .watchFiles [ascii "d", ascii "d/a"] 2]

/-- The file "tmp" in the moved directory is modified. -/
def modifiedTmp : Record := { wd := 2, mask := 2, cookie := 0, name := ascii "tmp" ++ [0] }

/-- A turn that asks for one event. -/
def followOne (t : MoveTracker) : M Desk (Round × MoveTracker) :=
  followTurn 9 Desk.call 2 false (fun _ => pure ()) t

/-- The worlds after the move and two turns. -/
def twoTurns (w : World Desk) (t : MoveTracker) : World Desk :=
  (followOne t).after ((followOne {}).after { w with os := moved w.os })

/-- The world in which the next event is taken. -/
def taken (w : World Desk) : World Desk := (takeRecord 9 call.timeout call.numEvents).after w

/-- Whether the filter hides the next event. -/
def hidesNext (w : World Desk) : Bool := (taken w).lib.hides (taken w).lib.stream.currentEvent

end Desk

/-- An event that the filter lets through disturbs nothing. -/
theorem undisturbed_of_kept {v : World σ} {pid : Int32} (t : MoveTracker) {fuel : Nat} {c : Call}
    (hkept : let u := (takeRecord fuel c.timeout c.numEvents).after w
      u.lib.hides u.lib.stream.currentEvent = false)
    (htake : takeRecord fuel c.timeout c.numEvents w = .ok (some pid, v)) : Undisturbed v pid t := by
  intro _ hhides
  rw [← Prog.after_of_ok htake] at hhides
  cases hkept.symm.trans hhides

/-- Nor does one that is not of a move, while none is pending. -/
theorem undisturbed_of_idle {v : World σ} {pid : Int32} {fuel : Nat} {c : Call}
    (hmask : ((takeRecord fuel c.timeout c.numEvents).after w).lib.stream.currentEvent.mask.toInt32 &&&
      inMovedFrom = 0)
    (htake : takeRecord fuel c.timeout c.numEvents w = .ok (some pid, v)) : Undisturbed v pid {} := by
  rw [Prog.after_of_ok htake] at hmask
  exact fun _ _ => ⟨rfl, fun hdeparts => hdeparts.1 hmask⟩

/-- Two handles follow the move, and the filter of the second drops what comes behind it. -/
theorem Desk.sides_of_results {w v : World Desk} {t : MoveTracker}
    (h₁ : (followOne {}).result { w with os := moved w.os } = some (.event, t))
    (h₁' : (followOne {}).result { v with os := moved v.os } = some (.event, t))
    (hkept₁ : hidesNext { v with os := moved v.os } = false)
    (h₂ : (followOne t).result ((followOne {}).after { w with os := moved w.os }) = some (.event, {}))
    (h₂' : (followOne t).result ((followOne {}).after { v with os := moved v.os }) =
      some (.event, {}))
    (hkept₂ : hidesNext ((followOne {}).after { v with os := moved v.os }) = false)
    (h₃ : (followOne {}).result (twoTurns w t) = some (.event, {}))
    (h₃' : (followOne {}).result (twoTurns v t) = some (.skip, {}))
    (hmask : (taken (twoTurns v t)).lib.stream.currentEvent.mask.toInt32 &&& inMovedFrom = 0) :
    Sides (fun d d' => d' = d.moved) Undisturbed 2 false (fun _ => pure ()) w v {}
      ((followOne {}).after (twoTurns w t)) {} ((followOne {}).after (twoTurns v t)) {} :=
  have hmoved : Sides (fun d d' => d' = d.moved) Undisturbed 2 false (fun _ => pure ()) w v {}
      { w with os := moved w.os } {} { v with os := moved v.os } {} :=
    .env .start rfl rfl fun h => congrArg moved h
  .turn (.turn (.turn hmoved (Prog.run_of_result h₁) (Prog.run_of_result h₁')
    fun _ _ => undisturbed_of_kept _ hkept₁) (Prog.run_of_result h₂) (Prog.run_of_result h₂')
    fun _ _ => undisturbed_of_kept _ hkept₂) (Prog.run_of_result h₃) (Prog.run_of_result h₃')
    fun _ _ => undisturbed_of_idle hmask

/-- A watched directory is moved, which both handles follow; then a file in it is modified, and the
    filter drops the event. -/
theorem filters_keep_tracking_desk :
    let w := Desk.moving [Desk.modifiedTmp]
    let w' := w.withFilter (Desk.occurs (ascii "tmp")) false 1
    let t : MoveTracker := { movedFrom := some (ascii "d/a/") }
    let v := (Desk.followOne {}).after (Desk.twoTurns w t)
    let v' := (Desk.followOne {}).after (Desk.twoTurns w' t)
    (Desk.followOne {}).result (Desk.twoTurns w t) = some (.event, {}) ∧
      (Desk.followOne {}).result (Desk.twoTurns w' t) = some (.skip, {}) ∧
      v.lib.store.nameOf 2 = some (ascii "d/b/") ∧
      ∃ n, filenameFromWd 2 v = .ok (n, v) ∧ filenameFromWd 2 v' = .ok (n, v') := by
  have hreach : Reachable (fun d d' : Desk => d' = d.moved) (Desk.moving [Desk.modifiedTmp]) :=
    ⟨_, World.run_after _ 9 _ _⟩
  have hsides := Desk.sides_of_results (w := Desk.moving [Desk.modifiedTmp])
    (t := { movedFrom := some (ascii "d/a/") })
    (v := (Desk.moving [Desk.modifiedTmp]).withFilter (Desk.occurs (ascii "tmp")) false 1)
    (by decide +kernel) (by decide +kernel) (by decide +kernel) (by decide +kernel)
    (by decide +kernel) (by decide +kernel) (by decide +kernel) (by decide +kernel)
    (by decide +kernel)
  exact ⟨by decide +kernel, by decide +kernel, by decide +kernel,
    (filters_keep_tracking Desk.kernelWatches.not_answeredZero hreach (by decide +kernel)
      (.inl (by decide +kernel)) rfl (by decide) ⟨fun _ => .pure (), fun _ => .pure ()⟩ hsides).2 2⟩

/-! ## A move that the filter hides -/

/-- The filter drops the event of "d/a" moving away: the watch keeps its name where it gets the new
    one without the filter. -/
theorem hidden_move_disturbs :
    let w := Desk.moving []
    let w' := w.withFilter (Desk.occurs (ascii "a")) false 1
    let v := Desk.twoTurns w { movedFrom := some (ascii "d/a/") }
    let v' := Desk.twoTurns w' {}
    Sides (fun d d' => d' = d.moved) (fun _ _ _ => True) 2 false (fun _ => pure ()) w w' {} v {} v' {} ∧
      2 ∈ Desk.live v.os v.lib.fd ∧ 2 ∈ Desk.live v'.os v'.lib.fd ∧
      v.lib.store.nameOf 2 = some (ascii "d/b/") ∧ v'.lib.store.nameOf 2 = some (ascii "d/a/") := by
  intro w w' v v'
  have h₁ := Prog.run_of_result (m := Desk.followOne {}) (s := { w with os := w.os.moved })
    (a := (.event, { movedFrom := some (ascii "d/a/") })) (by decide +kernel)
  have h₁' := Prog.run_of_result (m := Desk.followOne {}) (s := { w' with os := w'.os.moved })
    (a := (.skip, {})) (by decide +kernel)
  have h₂ := Prog.run_of_result (m := Desk.followOne { movedFrom := some (ascii "d/a/") })
    (s := (Desk.followOne {}).after { w with os := w.os.moved }) (a := (.event, {})) (by decide +kernel)
  have h₂' := Prog.run_of_result (m := Desk.followOne {})
    (s := (Desk.followOne {}).after { w' with os := w'.os.moved }) (a := (.event, {}))
    (by decide +kernel)
  exact ⟨.turn (.turn (.env .start rfl rfl fun h => congrArg Desk.moved h) h₁ h₁' fun _ _ _ => trivial)
    h₂ h₂' fun _ _ _ => trivial, ⟨by decide +kernel, ascii "d/b", by decide +kernel⟩,
    ⟨by decide +kernel, ascii "d/b", by decide +kernel⟩, by decide +kernel, by decide +kernel⟩

end InotifyTools
