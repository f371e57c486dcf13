import InotifyTools.Proofs.Decoding

set_option autoImplicit false

/-! # Counting events

The counters of a watch are the tally of the events returned for it since they were last reset, and
the totals are the tally of all that were counted. -/

namespace InotifyTools

open KeyedMap

/-! ## Tallies -/

namespace WatchStats

/-- Whether the counter for `event` counts an event: 0 counts them all. -/
def counts (event : Int32) (ev : Event) : Bool :=
  event = 0 ∨ ev.mask.toInt32 &&& event ≠ 0

/-- The counters after some events. -/
def tally (evs : List Event) : WatchStats := evs.foldl (fun s ev => s.record ev.mask) {}

theorem tally_concat (evs : List Event) (ev : Event) :
    tally (evs ++ [ev]) = (tally evs).record ev.mask := by
  simp [tally]

/-- Recording an event adds 1 to the counters that count it. -/
theorem get_record (s : WatchStats) (event : Int32) (ev : Event) :
    (s.record ev.mask).get event
      = (s.get event).map fun c => if counts event ev then c + 1 else c := by
  have hcounter : ∀ (flag : Int32) (c : UInt32) (x y : Option UInt32), flag ≠ 0 →
      y = x.map (fun c => if counts event ev then c + 1 else c) →
      (if event = flag then some (if ev.mask.toInt32 &&& flag ≠ 0 then c + 1 else c) else y)
        = (if event = flag then some c else x).map fun c => if counts event ev then c + 1 else c := by
    intro flag c x y hne hrest
    by_cases he : event = flag
    · subst he
      rw [if_pos rfl, if_pos rfl, Option.map_some]
      simp [counts, hne]
    · rw [if_neg he, if_neg he, hrest]
  unfold get record
  iterate 13 refine hcounter _ _ _ _ (by decide) ?_
  by_cases hzero : event = 0
  · rw [if_pos hzero, if_pos hzero, Option.map_some]
    simp [counts, hzero]
  · rw [if_neg hzero, if_neg hzero, Option.map_none]

/-- All counters start at 0. -/
theorem get_new (event : Int32) :
    ({} : WatchStats).get event = (({} : WatchStats).get event).map fun _ => 0 := by
  have hcounter : ∀ (flag : Int32) (x : Option UInt32), x = x.map (fun _ => 0) →
      (if event = flag then some (0 : UInt32) else x)
        = (if event = flag then some (0 : UInt32) else x).map fun _ => 0 := by
    intro flag x hrest
    by_cases he : event = flag
    · rw [if_pos he, Option.map_some]
    · rw [if_neg he, ← hrest]
  unfold get
  iterate 14 refine hcounter _ _ ?_
  rfl

/-- **A counter is the number of events it counts**, modulo 2^32. -/
theorem get_tally (evs : List Event) (event : Int32) :
    (tally evs).get event
      = (({} : WatchStats).get event).map fun _ => UInt32.ofNat (evs.countP (counts event)) := by
  induction evs using List.reverseRecOn with
  | nil => exact get_new event
  | append_singleton evs ev ih =>
      rw [tally_concat, get_record, ih, Option.map_map]
      refine congrArg (Option.map · _) (funext fun _ => ?_)
      simp only [Function.comp_apply, List.countP_append, List.countP_singleton]
      split
      · rw [UInt32.ofNat_add]
        rfl
      · simp

/-- A counter that exists. -/
def Counted (event : Int32) : Prop := (({} : WatchStats).get event).isSome

instance (event : Int32) : Decidable (Counted event) := inferInstanceAs (Decidable (_ = true))

theorem Counted.get_tally {event : Int32} (h : Counted event) (evs : List Event) :
    (tally evs).get event = some (UInt32.ofNat (evs.countP (counts event))) := by
  obtain ⟨c, hc⟩ := Option.isSome_iff_exists.1 h
  rw [WatchStats.get_tally, hc, Option.map_some]

end WatchStats

variable {σ : Type} {w w' : World σ}

/-! ## When an event is counted -/

/-- `l` with the event `ev` counted, if its descriptor is indexed. -/
def Inotifytools.count (l : Inotifytools) (ev : Event) : Inotifytools :=
  match l.store.byWd[ev.wd]? with
  | none => l
  | some id =>
      { l with
        store := match l.store.watches[id]? with
          | some v => l.store.setStats id v (v.stats.record ev.mask)
          | none => l.store
        totals := l.totals.record ev.mask }

/-- The world after a call has delivered the current event. -/
def World.delivered (w : World σ) : World σ :=
  if w.lib.collectStats then { w with lib := w.lib.count w.lib.stream.currentEvent } else w

theorem recordStats_eq (ev : Event) (w : World σ) :
    recordStats ev.wd ev.mask w = .ok ((), { w with lib := w.lib.count ev }) := by
  unfold recordStats Inotifytools.count
  rw [Prog.bind_run_ok (rfl : watchFromWd ev.wd w = .ok (w.lib.store.byWd[ev.wd]?, w))]
  cases w.lib.store.byWd[ev.wd]? <;> rfl

variable [Sys σ]

/-- A sound first step. -/
theorem wp_bind_sound {α β : Type} {S : Set Kind} {x : M σ α} {f : α → M σ β}
    {P : β → World σ → Prop} (hx : Sound S x) (hw : w.lib.store.WellIndexed)
    (hf : ∀ a w', w'.lib.store.WellIndexed → Effects S w w' → Prog.wp Tolerated (f a) P w') :
    Prog.wp Tolerated (x >>= f) P w :=
  (Prog.wp_bind ..).2 (Prog.wp.mono (hx w hw) fun a w' h => hf a w' (h.1.wellIndexed hw) h.1)

/-- What happens between two deliveries counts nothing. -/
abbrev Uncounted (w w' : World σ) : Prop := Effects {.stream, .watch} w w'

/-- What a turn that ends in `round` counts. -/
def Counts (w : World σ) (round : Round) (w' : World σ) : Prop :=
  match round with
  | .event => ∃ w₁, Uncounted w w₁ ∧ w' = w₁.delivered
  | _ => Uncounted w w'

omit [Sys σ] in
/-- What is done with an event that is not dropped. -/
theorem deliverCounted_run (w : World σ) :
    (do
      let l ← getLib
      (if l.collectStats then recordStats l.stream.currentEvent.wd l.stream.currentEvent.mask
      else pure ())
      return Round.event : M σ Round) w = .ok (.event, w.delivered) := by
  rw [getLib_bind]
  unfold World.delivered
  by_cases hcollect : w.lib.collectStats = true
  · rw [if_pos hcollect, if_pos hcollect, Prog.bind_run_ok (recordStats_eq _ w)]
    rfl
  · rw [if_neg hcollect, if_neg hcollect]
    rfl

/-- An event is dropped, or counted and delivered. -/
theorem deliver_filtered {v v' : World σ} {dropped : Bool} (hf : filterEvent v = .ok (dropped, v'))
    (pid : Int32) : deliver pid v =
      if v.lib.selfPid ≠ 0 ∧ v.lib.selfPid = pid then .ok (.skip, v)
      else if dropped then .ok (.skip, v')
      else .ok (.event, v'.delivered) := by
  unfold deliver
  rw [getLib_bind]
  by_cases hself : v.lib.selfPid ≠ 0 ∧ v.lib.selfPid = pid
  · rw [if_pos hself, if_pos hself]
    rfl
  · rw [if_neg hself, if_neg hself, Prog.bind_run_ok hf]
    cases dropped with
    | true => rfl
    | false => exact deliverCounted_run v'

theorem deliver_counts {w₀ : World σ} (hw₀ : w₀.lib.store.WellIndexed) (h : Uncounted w₀ w)
    (pid : Int32) : Prog.wp Tolerated (deliver pid) (Counts w₀) w := by
  unfold deliver
  refine (Prog.wp_bind ..).2 (Prog.wp_ite (fun _ => h) fun _ => ?_)
  refine wp_bind_sound (S := ∅) filterEvent_sound (h.wellIndexed hw₀) fun dropped w₁ hw₁ he => ?_
  have h₁ : Uncounted w₀ w₁ := h.trans (he.mono (Set.empty_subset _))
  cases dropped with
  | true => exact h₁
  | false =>
      refine Prog.wp_of_run (fun round w' hok => ?_) fun e herr => ?_
      · cases (deliverCounted_run w₁).symm.trans hok
        exact ⟨w₁, h₁, rfl⟩
      · cases (deliverCounted_run w₁).symm.trans herr

/-- A turn counts the event it delivers, and nothing else. -/
theorem eventRound_counts {w₀ : World σ} (hw₀ : w₀.lib.store.WellIndexed) (h : Uncounted w₀ w)
    (fuel : Nat) (timeout : Int) (n : Int32) :
    Prog.wp Tolerated (eventRound fuel timeout n) (Counts w₀) w := by
  have hs : Kind.stream ∈ ({.stream, .watch} : Set Kind) := .inl rfl
  have hwatch : Kind.watch ∈ ({.stream, .watch} : Set Kind) := .inr rfl
  have hl : Kind.lifecycle ∉ ({.stream, .watch} : Set Kind) := by rintro (h | h) <;> cases h
  unfold eventRound
  refine wp_bind_sound (S := {.stream, .watch}) (setError_sound 0) (h.wellIndexed hw₀) fun _ w₁ hw₁ he₁ => ?_
  refine wp_bind_sound (bufferedEvent_sound hs) hw₁ fun buffered w₂ hw₂ he₂ => ?_
  refine wp_bind_sound (.ite (.pure _) (readEvents_sound hs _ _ _)) hw₂ fun ready w₃ hw₃ he₃ => ?_
  have h₃ : Uncounted w₀ w₃ := h.trans (he₁.trans (he₂.trans he₃))
  refine Prog.wp_ite (fun _ => h₃) fun _ => ?_
  refine wp_bind_sound (decodeEvent_sound hs hwatch hl fuel) hw₃ fun pid w₄ hw₄ he₄ => ?_
  cases pid with
  | none => exact h₃.trans he₄
  | some pid =>
      refine wp_bind_sound (advance_sound hs) hw₄ fun _ w₅ hw₅ he₅ => ?_
      exact deliver_counts hw₀ (h₃.trans (he₄.trans he₅)) pid

theorem nextEventsLoop_counts {w₀ : World σ} (hw₀ : w₀.lib.store.WellIndexed) (h : Uncounted w₀ w)
    (timeout : Int) (n : Int32) (fuel : Nat) :
    Prog.wp Tolerated (nextEventsLoop timeout n fuel)
      (fun b w' => Counts w₀ (if b then .event else .fail) w') w := by
  induction fuel generalizing w with
  | zero => exact (nofun : Fault.outOfFuel ≠ .missingWatch)
  | succ fuel ih =>
      unfold nextEventsLoop
      refine (Prog.wp_bind ..).2 (Prog.wp.mono (eventRound_counts hw₀ h fuel timeout n)
        fun round w' hc => ?_)
      cases round with
      | fail => exact hc
      | event => exact hc
      | skip => exact ih hc

omit [Sys σ] in
/-- Counting changes the counters alone. -/
theorem World.delivered_stream (w : World σ) : w.delivered.lib.stream = w.lib.stream := by
  unfold delivered Inotifytools.count
  split
  · split <;> rfl
  · rfl

/-- A call counts the event it returns, and nothing else. -/
theorem nextEvents_counts (hw : w.lib.store.WellIndexed) (fuel : Nat) (timeout : Int) (n : Int32) :
    Prog.wp Tolerated (nextEvents fuel timeout n) (fun e w' => match e with
      | none => Uncounted w w'
      | some ev => ∃ w₁, Uncounted w w₁ ∧ w' = w₁.delivered ∧ ev = w₁.lib.stream.currentEvent) w := by
  have hraw : Prog.wp Tolerated (nextEventsRaw fuel timeout n)
      (fun b w' => Counts w (if b then .event else .fail) w') w := by
    unfold nextEventsRaw
    refine wp_bind_sound (S := {.stream, .watch}) assertInit_sound hw fun _ w₁ hw₁ he₁ => ?_
    refine wp_bind_sound (S := {.stream, .watch}) (niceassert_sound _ _ _ _) hw₁ fun _ w₂ _ he₂ => ?_
    have h₂ : Uncounted w w₂ := he₁.trans he₂
    exact Prog.wp_ite (fun _ => h₂) fun _ => nextEventsLoop_counts hw h₂ timeout n fuel
  unfold nextEvents
  refine (Prog.wp_bind ..).2 (Prog.wp.mono hraw fun b w' hc => ?_)
  cases b with
  | false => exact hc
  | true =>
      obtain ⟨w₁, h₁, rfl⟩ := hc
      exact ⟨w₁, h₁, rfl, congrArg EventStream.currentEvent w₁.delivered_stream⟩

/-! ## What leaves the counters alone -/

/-- An entry by descriptor and the counters of its watch are as before an effect that is not about
    counters, or the entry is new and its counters are 0. -/
theorem Effect.indexed_stats {k : Kind} (he : Effect k w w') (hk : k ≠ .stats)
    (hw : w.lib.store.WellIndexed) {wd : Int32} {id : Nat} {v' : Watch}
    (hid : w'.lib.store.byWd[wd]? = some id) (hv' : w'.lib.store.watches[id]? = some v') :
    (w.lib.store.byWd[wd]? = some id ∧
        ∃ v, w.lib.store.watches[id]? = some v ∧ v.stats = v'.stats) ∨
      w.lib.store.nextId ≤ id ∧ v'.stats = {} := by
  have hinsert : ∀ v : Watch, v.stats = {} → (w.lib.store.insert v).byWd[wd]? = some id →
      (w.lib.store.insert v).watches[id]? = some v' →
      (w.lib.store.byWd[wd]? = some id ∧
        ∃ v, w.lib.store.watches[id]? = some v ∧ v.stats = v'.stats) ∨
      w.lib.store.nextId ≤ id ∧ v'.stats = {} := by
    intro v hstats hid hv'
    have hwatch : w.lib.store.nextId = id ∧ v = v' ∨ w.lib.store.watches[id]? = some v' := by
      simp only [Store.insert] at hv'
      split at hv'
      · rw [lookup_insert] at hv'
        split at hv'
        · next he =>
            cases hv'
            exact .inl ⟨he, rfl⟩
        · exact .inr hv'
      · exact .inr hv'
    rcases hwatch with ⟨rfl, rfl⟩ | hwatch
    · exact .inr ⟨le_refl _, hstats⟩
    · rcases Store.insertIfNew_eq hid with ⟨rfl, -⟩ | hid
      · rw [hw.nextId_free] at hwatch
        cases hwatch
      · exact .inl ⟨hid, v', hwatch, rfl⟩
  cases he with
  | scratch | call | config | stream | counter | refused | kept | notOpened =>
      exact .inl ⟨hid, v', hv', rfl⟩
  | created _ _ _ _ _ hstats => exact hinsert _ hstats hid hv'
  | marked _ _ _ _ _ hstats => exact hinsert _ hstats hid hv'
  | watched _ _ _ _ _ hstats => exact hinsert _ hstats hid hv'
  | @renamed _ i v hv _ n =>
      refine .inl ⟨hid, ?_⟩
      change (w.lib.store.watches.insert i { v with filename := n })[id]? = some v' at hv'
      rw [lookup_insert] at hv'
      split at hv'
      · next he =>
          cases hv'
          exact ⟨v, he ▸ hv, rfl⟩
      · exact ⟨v', hv', rfl⟩
  | counted | collecting => exact absurd rfl hk
  | removed => exact .inl ⟨Store.erase_eq hid, v', Store.erase_eq hv', rfl⟩
  | opened | closed => simp [Store.clear, Store.clearIndexes] at hid

/-- Not while events are counted, and not while the instance is opened or closed. -/
abbrev Uncounting : Set Kind := {k | k ≠ .stats ∧ k ≠ .lifecycle}

omit [Sys σ] in
theorem streamWatch_uncounting : ({.stream, .watch} : Set Kind) ⊆ Uncounting := by
  rintro k (rfl | rfl) <;> exact ⟨nofun, nofun⟩

theorem Effects.indexed_stats (he : Effects Uncounting w w') (hw : w.lib.store.WellIndexed)
    {wd : Int32} {id : Nat} {v' : Watch} (hid : w'.lib.store.byWd[wd]? = some id)
    (hv' : w'.lib.store.watches[id]? = some v') :
    (w.lib.store.byWd[wd]? = some id ∧
        ∃ v, w.lib.store.watches[id]? = some v ∧ v.stats = v'.stats) ∨
      w.lib.store.nextId ≤ id ∧ v'.stats = {} := by
  induction he generalizing id v' with
  | refl => exact .inl ⟨hid, v', hv', rfl⟩
  | @tail w₁ w₂ hrun he ih =>
      obtain ⟨k, hk, he⟩ := he
      have h₁ := Effects.integrity hrun hw
      have hstats : k ≠ .stats := by
        rcases hk with rfl | hk
        · exact nofun
        · exact hk.1
      rcases he.indexed_stats hstats h₁.1 hid hv' with ⟨hid₁, v₁, hv₁, heq⟩ | ⟨hnew, hzero⟩
      · rcases ih hid₁ hv₁ with ⟨hid₀, v, hv, heq'⟩ | ⟨hnew, hzero⟩
        · exact .inl ⟨hid₀, v, hv, heq'.trans heq⟩
        · exact .inr ⟨hnew, heq ▸ hzero⟩
      · exact .inr ⟨h₁.2.nextId.trans hnew, hzero⟩

/-- Whether events are counted, and the totals. -/
theorem Effects.totals_eq (he : Effects Uncounting w w') :
    (w'.lib.collectStats, w'.lib.totals) = (w.lib.collectStats, w.lib.totals) := by
  refine he.same (fun w => (w.lib.collectStats, w.lib.totals)) fun k w₁ w₂ hk he => ?_
  cases he with
  | counted | collecting => exact absurd rfl (hk.resolve_left nofun).1
  | _ => rfl

/-! ## Before counting starts -/

/-- Until events are counted all counters of indexed watches are 0. -/
def Fresh (w : World σ) : Prop :=
  w.lib.collectStats = false → ∀ (wd : Int32) (id : Nat) (v : Watch),
    w.lib.store.byWd[wd]? = some id → w.lib.store.watches[id]? = some v → v.stats = {}

theorem Effect.fresh {k : Kind} (he : Effect k w w') (hw : w.lib.store.WellIndexed)
    (h : Fresh w) : Fresh w' := by
  intro hoff wd id v hid hv
  by_cases hk : k = .stats
  · subst hk
    cases he with
    | counted _ _ hcoll => exact absurd (hcoll.symm.trans hoff) (by decide)
    | collecting _ _ _ hnone =>
        rw [hnone hoff wd] at hid
        cases hid
  · have hcoll : w'.lib.collectStats = w.lib.collectStats := by
      cases he with
      | counted | collecting => exact absurd rfl hk
      | _ => rfl
    rcases he.indexed_stats hk hw hid hv with ⟨hid', v', hv', heq⟩ | ⟨-, hzero⟩
    · exact heq.symm.trans (h (hcoll.symm.trans hoff) wd id v' hid' hv')
    · exact hzero

theorem Effects.fresh {S : Set Kind} (he : Effects S w w') (hw : w.lib.store.WellIndexed)
    (h : Fresh w) : Fresh w' :=
  (he.preserves (P := fun w => w.lib.store.WellIndexed ∧ Fresh w)
    (fun _ _ _ _ he h => ⟨(he.integrity h.1).1, he.fresh h.1 h.2⟩) ⟨hw, h⟩).2

omit [Sys σ] in
theorem fresh_new (os : σ) : Fresh { lib := Inotifytools.new, os } := by
  intro _ wd id v hid
  simp [Inotifytools.new, Store.empty] at hid

theorem Reachable.fresh {env : σ → σ → Prop} (h : Reachable env w) : Fresh w := by
  obtain ⟨os, hrun⟩ := h
  exact (Run.preserves (P := fun w => w.lib.store.WellIndexed ∧ Fresh w)
    (fun _ _ _ he h => ⟨(he.integrity h.1).1, he.fresh h.1 h.2⟩) (fun _ _ _ h => h) hrun
    Store.wellIndexed_empty ⟨Store.wellIndexed_empty, fresh_new os⟩).2

/-! ## Resetting -/

namespace Store

variable {s : Store}

omit [Sys σ] in
theorem byWd_resetStats (s : Store) (ids : List Nat) : (s.resetStats ids).byWd = s.byWd := by
  induction ids generalizing s with
  | nil => rfl
  | cons id ids ih =>
      refine (ih _).trans ?_
      dsimp only
      split <;> rfl

omit [Sys σ] in
/-- The counters of the watches `ids` are 0 afterwards, those of others as before. -/
theorem watches_resetStats (s : Store) (ids : List Nat) (id : Nat) :
    (s.resetStats ids).watches[id]? =
      (s.watches[id]?).map fun v => if id ∈ ids then { v with stats := {} } else v := by
  induction ids generalizing s with
  | nil => simp [resetStats]
  | cons i ids ih =>
      refine (ih _).trans ?_
      dsimp only
      cases hv : s.watches[i]? with
      | none =>
          by_cases he : id = i
          · subst he
            simp [hv]
          · simp [he]
      | some v =>
          show ((s.watches.insert i _)[id]?).map _ = _
          rw [lookup_insert]
          by_cases he : i = id
          · subst he
            simp [hv]
          · have hne : id ≠ i := Ne.symm he
            simp [he, hne]

end Store

/-! ## Runs -/

/-- The events returned for each descriptor since its entry was made or counting started, and the
    events returned for descriptors that were indexed. -/
structure Tally where
  byWd : Int32 → List Event
  all : List Event

namespace Tally

/-- Nothing has been returned. -/
def empty : Tally := ⟨fun _ => [], []⟩

/-- From `w` to `w'`: a descriptor that is entered anew starts with nothing. -/
def after (t : Tally) (w w' : World σ) : Tally :=
  { t with byWd := fun wd =>
      if w'.lib.store.byWd[wd]? = w.lib.store.byWd[wd]? then t.byWd wd else [] }

/-- `ev` is returned, the descriptors indexed being those of `w`. -/
def returned (t : Tally) (w : World σ) (ev : Event) : Tally where
  byWd wd := if wd = ev.wd then t.byWd wd ++ [ev] else t.byWd wd
  all := if w.lib.store.byWd[ev.wd]?.isSome then t.all ++ [ev] else t.all

end Tally

/-- Operations that return no events, do not reset the counters and do not close the instance. -/
def Op.Uncounted : Op → Prop
  | .nextEvents .. | .initializeStats | .cleanup => False
  | _ => True

/-- `Tallied env w t`: counting was started on an initialised handle; since it was last reset, the
    events `t` have been returned, and the handle has come to `w`. -/
inductive Tallied (env : σ → σ → Prop) : World σ → Tally → Prop
  | start {w w' : World σ} (h : Reachable env w) (hi : w.lib.initialized = true)
      (hrun : initializeStats w = .ok ((), w')) : Tallied env w' .empty
  | reset {w w' : World σ} {t : Tally} (h : Tallied env w t)
      (hrun : initializeStats w = .ok ((), w')) : Tallied env w' .empty
  | op {w w' : World σ} {t : Tally} {fuel : Nat} {o : Op} (h : Tallied env w t) (ho : o.Uncounted)
      (hrun : o.run fuel w = .ok ((), w')) : Tallied env w' (t.after w w')
  | env {w : World σ} {t : Tally} {os : σ} (h : Tallied env w t) (he : env w.os os) :
      Tallied env { w with os } t
  | nothing {w w' : World σ} {t : Tally} {fuel : Nat} {timeout : Int} {n : Int32}
      (h : Tallied env w t) (hrun : nextEvents fuel timeout n w = .ok (none, w')) :
      Tallied env w' (t.after w w')
  | event {w w' : World σ} {t : Tally} {fuel : Nat} {timeout : Int} {n : Int32} {ev : Event}
      (h : Tallied env w t) (hrun : nextEvents fuel timeout n w = .ok (some ev, w')) :
      Tallied env w' ((t.after w w').returned w' ev)

/-- The counters are the tallies of what has been returned. -/
structure CountsReturned (w : World σ) (t : Tally) : Prop where
  initialized : w.lib.initialized = true
  collecting : w.lib.collectStats = true
  wellIndexed : w.lib.store.WellIndexed
  stats : ∀ (wd : Int32) (id : Nat) (v : Watch), w.lib.store.byWd[wd]? = some id →
    w.lib.store.watches[id]? = some v → v.stats = WatchStats.tally (t.byWd wd)
  totals : w.lib.totals = WatchStats.tally t.all
  sublist : ∀ wd : Int32, w.lib.store.byWd[wd]?.isSome → (t.byWd wd).Sublist t.all

/-- Starting or resetting, all counters are 0. -/
theorem initializeStats_counts (hi : w.lib.initialized = true) (hw : w.lib.store.WellIndexed)
    (hfresh : Fresh w) (hrun : initializeStats w = .ok ((), w')) : CountsReturned w' .empty := by
  have hw' := ((initializeStats_sound (S := {.stats}) rfl w hw).ok hrun).1.wellIndexed hw
  unfold initializeStats at hrun
  rw [Prog.bind_run_ok (assertInit_run hi)] at hrun
  cases hrun
  refine ⟨hi, rfl, hw', fun wd id v hid hv => ?_, rfl, fun wd _ => List.nil_sublist _⟩
  dsimp only at hid hv
  by_cases hcoll : w.lib.collectStats = true
  · rw [if_pos hcoll, Store.byWd_resetStats] at hid
    rw [if_pos hcoll, Store.watches_resetStats] at hv
    obtain ⟨u, -, rfl⟩ := Option.map_eq_some_iff.1 hv
    rw [if_pos ((KeyedMap.mem_values _ _).2 ⟨wd, hid⟩)]
    rfl
  · rw [if_neg hcoll] at hid hv
    exact hfresh (by simpa using hcoll) wd id v hid hv

/-- Until an event is delivered each tally is kept, or starts again with its entry. -/
theorem CountsReturned.after {t : Tally} (h : CountsReturned w t) (he : Effects Uncounting w w') :
    CountsReturned w' (t.after w w') := by
  have hsame := he.totals_eq
  have hl : Kind.lifecycle ∉ Uncounting := fun h => h.2 rfl
  refine ⟨(he.initialized_eq hl).trans h.initialized, (congrArg Prod.fst hsame).trans h.collecting,
    he.wellIndexed h.wellIndexed, fun wd id v hid hv => ?_,
    (congrArg Prod.snd hsame).trans h.totals, fun wd hwd => ?_⟩
  · show v.stats = WatchStats.tally (if _ then _ else _)
    rcases he.indexed_stats h.wellIndexed hid hv with ⟨hid', u, hu, heq⟩ | ⟨hnew, hzero⟩
    · rw [if_pos (hid.trans hid'.symm), ← heq]
      exact h.stats wd id u hid' hu
    · have hne : w'.lib.store.byWd[wd]? ≠ w.lib.store.byWd[wd]? := by
        intro heq
        obtain ⟨u, hu, -⟩ := h.wellIndexed.byWd wd id (heq.symm.trans hid)
        have := h.wellIndexed.idLt id u hu
        omega
      rw [if_neg hne, hzero]
      rfl
  · show (if _ then _ else _ : List Event).Sublist t.all
    split
    · next heq => exact h.sublist wd (heq ▸ hwd)
    · exact List.nil_sublist _

omit [Sys σ] in
theorem Inotifytools.count_byWd (l : Inotifytools) (ev : Event) :
    (l.count ev).store.byWd = l.store.byWd := by
  unfold count
  split
  · rfl
  · dsimp only
    split <;> rfl

omit [Sys σ] in
/-- A delivered event enters the tallies of its descriptor and of all. -/
theorem CountsReturned.returned {t : Tally} (h : CountsReturned w t) :
    CountsReturned w.delivered (t.returned w w.lib.stream.currentEvent) := by
  unfold World.delivered
  rw [if_pos h.collecting]
  generalize w.lib.stream.currentEvent = ev
  cases hid : w.lib.store.byWd[ev.wd]? with
  | none =>
      -- an event without a watch is not counted
      have hsame : w.lib.count ev = w.lib := by
        unfold Inotifytools.count
        rw [hid]
      rw [hsame]
      have hother : ∀ (wd : Int32) (i : Nat), w.lib.store.byWd[wd]? = some i → wd ≠ ev.wd := by
        rintro wd i hi rfl
        rw [hid] at hi
        cases hi
      refine ⟨h.initialized, h.collecting, h.wellIndexed, fun wd i v hi hv => ?_, ?_, fun wd hwd => ?_⟩
      · simp only [Tally.returned, if_neg (hother wd i hi)]
        exact h.stats wd i v hi hv
      · simp only [Tally.returned, hid]
        exact h.totals
      · obtain ⟨i, hi⟩ := Option.isSome_iff_exists.1 hwd
        simp only [Tally.returned, if_neg (hother wd i hi), hid]
        exact h.sublist wd hwd
  | some id =>
      obtain ⟨v, hv, hwd⟩ := h.wellIndexed.byWd _ _ hid
      have hcount : w.lib.count ev = { w.lib with
          store := w.lib.store.setStats id v (v.stats.record ev.mask)
          totals := w.lib.totals.record ev.mask } := by
        unfold Inotifytools.count
        rw [hid]
        dsimp only
        rw [hv]
      rw [hcount]
      refine ⟨h.initialized, h.collecting, h.wellIndexed.setStats hv _, fun wd i u hi hu => ?_, ?_,
        fun wd hwd => ?_⟩
      · change (w.lib.store.watches.insert id _)[i]? = some u at hu
        change w.lib.store.byWd[wd]? = some i at hi
        rw [lookup_insert] at hu
        simp only [Tally.returned]
        by_cases he : id = i
        · -- one watch has one descriptor
          subst he
          obtain ⟨v', hv', hwd'⟩ := h.wellIndexed.byWd _ _ hi
          cases hv.symm.trans hv'
          have hwds : wd = ev.wd := (Option.some_inj.1 (hwd'.symm.trans hwd))
          subst hwds
          rw [if_pos rfl] at hu ⊢
          cases hu
          rw [WatchStats.tally_concat, ← h.stats _ _ _ hid hv]
        · have hne : wd ≠ ev.wd := by
            rintro rfl
            exact he (Option.some_inj.1 (hid.symm.trans hi))
          rw [if_neg he] at hu
          rw [if_neg hne]
          exact h.stats wd i u hi hu
      · simp only [Tally.returned, hid, Option.isSome_some, if_true]
        rw [WatchStats.tally_concat, h.totals]
      · have hsub := h.sublist wd hwd
        simp only [Tally.returned, hid, Option.isSome_some, if_true]
        split
        · exact hsub.append (List.Sublist.refl _)
        · exact hsub.trans (List.sublist_append_left _ _)

/-- Operations that return no events leave the counters alone. -/
theorem Op.Uncounted.effects {fuel : Nat} {o : Op} (ho : o.Uncounted)
    (hi : w.lib.initialized = true) (hw : w.lib.store.WellIndexed)
    (hrun : o.run fuel w = .ok ((), w')) : Effects Uncounting w w' := by
  have he := ((o.run_sound_kinds fuel w hw).ok hrun).1
  cases o with
  | nextEvents | initializeStats | cleanup => exact ho.elim
  | init fanotify watchFilesystem verbose =>
      -- the handle is initialised, so this does nothing
      have hsame : InotifyTools.init fanotify watchFilesystem verbose w = .ok (true, w) := by
        unfold InotifyTools.init
        rw [getLib_bind, if_pos hi]
        rfl
      have hrun' := Prog.bind_run_ok (f := fun _ => (pure () : M σ Unit)) hsame
      cases hrun'.symm.trans hrun
      exact .refl w
  | _ =>
      refine he.mono fun k hk => ?_
      cases hk
      try exact ⟨nofun, nofun⟩

/-- **The counters are the tallies in every run.** -/
theorem Tallied.counts {env : σ → σ → Prop} {t : Tally} (h : Tallied env w t) :
    CountsReturned w t := by
  induction h with
  | start h hi hrun => exact initializeStats_counts hi h.wellIndexed h.fresh hrun
  | reset _ hrun ih =>
      refine initializeStats_counts ih.initialized ih.wellIndexed (fun hoff => ?_) hrun
      exact absurd (ih.collecting.symm.trans hoff) (by decide)
  | op _ ho hrun ih => exact ih.after (ho.effects ih.initialized ih.wellIndexed hrun)
  | env _ _ ih => exact ⟨ih.initialized, ih.collecting, ih.wellIndexed, ih.stats, ih.totals, ih.sublist⟩
  | @nothing w w' t fuel timeout n _ hrun ih =>
      have he := (nextEvents_counts ih.wellIndexed fuel timeout n).ok hrun
      exact ih.after (he.mono streamWatch_uncounting)
  | @event w w' t fuel timeout n ev _ hrun ih =>
      obtain ⟨w₁, he, rfl, rfl⟩ := (nextEvents_counts ih.wellIndexed fuel timeout n).ok hrun
      have h₁ := ih.after (he.mono streamWatch_uncounting)
      have hindex : w₁.delivered.lib.store.byWd = w₁.lib.store.byWd := by
        unfold World.delivered
        split
        · exact Inotifytools.count_byWd _ _
        · rfl
      have hsame : (t.after w w₁.delivered).returned w₁.delivered w₁.lib.stream.currentEvent
          = (t.after w w₁).returned w₁ w₁.lib.stream.currentEvent := by
        simp only [Tally.after, Tally.returned, hindex]
      rw [hsame]
      exact h₁.returned

/-! ## What the operations return -/

section Returned

variable {t : Tally}

/-- The value of a counter, as it is returned. -/
def WatchStats.counted (evs : List Event) (event : Int32) : Int32 :=
  (UInt32.ofNat (evs.countP (counts event))).toInt32

omit [Sys σ] in
theorem CountsReturned.getStatByWd_run (h : CountsReturned w t) {wd : Int32}
    (hwd : w.lib.store.byWd[wd]?.isSome) {event : Int32} (he : WatchStats.Counted event) :
    getStatByWd wd event w = .ok (WatchStats.counted (t.byWd wd) event, w) := by
  obtain ⟨id, hid⟩ := Option.isSome_iff_exists.1 hwd
  obtain ⟨v, hv, -⟩ := h.wellIndexed.byWd _ _ hid
  unfold getStatByWd
  rw [getLib_bind, if_neg (by simp [h.collecting]),
    Prog.bind_run_ok (rfl : watchFromWd wd w = .ok (w.lib.store.byWd[wd]?, w)), hid]
  dsimp only
  rw [Prog.bind_run_ok (watch_run hv), h.stats wd id v hid hv, he.get_tally]
  rfl

omit [Sys σ] in
theorem CountsReturned.getStatTotal_run (h : CountsReturned w t) {event : Int32}
    (he : WatchStats.Counted event) :
    getStatTotal event w = .ok (WatchStats.counted t.all event, w) := by
  unfold getStatTotal
  rw [getLib_bind, if_neg (by simp [h.collecting]), h.totals, he.get_tally]
  rfl

omit [Sys σ] in
/-- The rows of the table are the indexed watches with their tallies. -/
theorem CountsReturned.rows (h : CountsReturned w t) (sortEvent : Int32) :
    ∃ rows, watchesSortedByEvent sortEvent w = .ok (rows, w) ∧
      ∀ row ∈ rows, ∃ wd : Int32, w.lib.store.byWd[wd]?.isSome ∧
        row.2 = WatchStats.tally (t.byWd wd) := by
  obtain ⟨vs, hvs, hmem⟩ := watchesOf_run (watches_of_byWd h.wellIndexed)
  have hrun : ∃ before, watchesSortedByEvent sortEvent w =
      .ok ((vs.mergeSort before).map fun p => (p.1, p.2.stats), w) := by
    unfold watchesSortedByEvent
    generalize (if sortEvent = -1 then _ else _ : Int32 × Bool) = order
    refine ⟨sortsBefore order.1 order.2, ?_⟩
    show (getLib >>= _) w = _
    rw [getLib_bind, Prog.bind_run_ok hvs]
    rfl
  obtain ⟨before, hrun⟩ := hrun
  refine ⟨_, hrun, fun row hrow => ?_⟩
  obtain ⟨⟨id, v⟩, hp, rfl⟩ := List.mem_map.1 hrow
  obtain ⟨hid, hv⟩ := hmem _ (List.mem_mergeSort.1 hp)
  obtain ⟨wd, hwd⟩ := (KeyedMap.mem_values _ _).1 hid
  exact ⟨wd, hwd ▸ rfl, h.stats wd id v hwd hv⟩

end Returned

/-- **Statistics count exactly the returned events.** In every run since the counters were last reset:
    for an indexed descriptor each counter is the number of events returned with that descriptor since
    its entry was made or the counters were reset, and each total is the number of events returned
    for descriptors that were indexed; so when fewer than 2^32 were, a total of 0 leaves nothing but
    zeros in its column. -/
theorem statistics_count_returned {env : σ → σ → Prop} {t : Tally} (h : Tallied env w t)
    {event : Int32} (he : WatchStats.Counted event) :
    (∀ wd : Int32, w.lib.store.byWd[wd]?.isSome →
        getStatByWd wd event w = .ok (WatchStats.counted (t.byWd wd) event, w)) ∧
      getStatTotal event w = .ok (WatchStats.counted t.all event, w) ∧
      (t.all.length < 2 ^ 32 → getStatTotal event w = .ok (0, w) → ∀ sortEvent : Int32,
        ∃ rows, watchesSortedByEvent sortEvent w = .ok (rows, w) ∧
          ∀ row ∈ rows, row.2.get event = some 0) := by
  have hc := h.counts
  refine ⟨fun wd hwd => hc.getStatByWd_run hwd he, hc.getStatTotal_run he,
    fun hfew hzero sortEvent => ?_⟩
  obtain ⟨rows, hrun, hrows⟩ := hc.rows sortEvent
  refine ⟨rows, hrun, fun row hrow => ?_⟩
  obtain ⟨wd, hwd, hrow⟩ := hrows row hrow
  rw [hc.getStatTotal_run he] at hzero
  have hcount : t.all.countP (WatchStats.counts event) = 0 := by
    have hle := List.countP_le_length (p := WatchStats.counts event) (l := t.all)
    have hval : WatchStats.counted t.all event = 0 := congrArg Prod.fst (Except.ok.inj hzero)
    have hnat := congrArg Int32.toUInt32 hval
    rw [WatchStats.counted, UInt32.toUInt32_toInt32] at hnat
    have hnat := congrArg UInt32.toNat hnat
    rw [UInt32.toNat_ofNat_of_lt' (by simpa using lt_of_le_of_lt hle hfew)] at hnat
    exact hnat
  have hle := (hc.sublist wd hwd).countP_le (p := WatchStats.counts event)
  have hnone : (t.byWd wd).countP (WatchStats.counts event) = 0 := Nat.le_zero.1 (hcount ▸ hle)
  rw [hrow, he.get_tally, hnone]
  rfl

/-! ## A run -/

theorem Tallied.opRun {env : σ → σ → Prop} {t : Tally} (h : Tallied env w t) (fuel : Nat) (o : Op)
    (ho : o.Uncounted) (hrun : (o.run fuel).result w = some ()) :
    Tallied env (w.after fuel [o]) (t.after w (w.after fuel [o])) :=
  .op h ho (World.after_of_result fuel o (runFor_unit _).symm hrun)

theorem Tallied.eventRun {env : σ → σ → Prop} {t : Tally} (h : Tallied env w t) (fuel : Nat)
    (timeout : Int) (n : Int32) {ev : Event}
    (hrun : (nextEvents fuel timeout n).result w = some (some ev)) :
    Tallied env (w.after fuel [.nextEvents timeout n])
      ((t.after w (w.after fuel [.nextEvents timeout n])).returned
        (w.after fuel [.nextEvents timeout n]) ev) :=
  .event h (World.after_of_result fuel (.nextEvents timeout n) rfl hrun)

namespace Desk

def modified (wd : Int32) : Record := { wd, mask := 2, cookie := 0, name := [] }

/-- Two files are watched, the first of which is modified, then the second, then the first. -/
def twoFiles : World Desk :=
  World.after 9
    { lib := Inotifytools.new
      os := { chunks := [encodeAll [modified 1], encodeAll [modified 2], encodeAll [modified 1]] } }
    [.init false false 0, .watchFiles [ascii "f", ascii "g"] 2]

/-- Counting has been started. -/
def counted : World Desk := twoFiles.after 9 [.initializeStats]

/-- The first file was modified, the second renamed and modified; the watch of the first is gone. -/
def removed : World Desk :=
  (((counted.after 9 [.nextEvents (-1) 1]).after 9 [.setFilenameByWd 2 (ascii "h")]).after 9
    [.nextEvents (-1) 1]).after 9 [.removeWatchByWd 1]

/-- The kernel's numbers have come round. -/
def comeRound : World Desk := { removed with os := { removed.os with nextWd := 1 } }

/-- The first file was watched again and modified. -/
def recounted : World Desk := (comeRound.after 9 [.watchFiles [ascii "f"] 2]).after 9 [.nextEvents (-1) 1]

end Desk

/-- Two files are modified, one of them is renamed, and the watch of the other is removed and set up
    again under its old number, before it is modified once more; nothing is opened. -/
theorem statistics_count_returned_desk :
    let w := Desk.recounted
    getStatByWd 1 inModify w = .ok (1, w) ∧ getStatByWd 2 inModify w = .ok (1, w) ∧
      getStatTotal inModify w = .ok (3, w) ∧
      ∃ rows, watchesSortedByEvent 0 w = .ok (rows, w) ∧ ∀ row ∈ rows, row.2.get inOpen = some 0 := by
  have hreach : Reachable Desk.Forgets Desk.twoFiles := ⟨_, World.run_after _ _ _ _⟩
  have h₀ : Tallied Desk.Forgets Desk.counted _ :=
    .start hreach (by decide +kernel)
      (World.after_of_result 9 .initializeStats (runFor_unit _).symm (by decide +kernel))
  have h₁ := h₀.eventRun 9 (-1) 1 (by decide +kernel : _ = some (some (Desk.modified 1).event))
  have h₂ := h₁.opRun 9 (.setFilenameByWd 2 (ascii "h")) trivial (by decide +kernel)
  have h₃ := h₂.eventRun 9 (-1) 1 (by decide +kernel : _ = some (some (Desk.modified 2).event))
  have h₄ : Tallied Desk.Forgets Desk.removed _ :=
    h₃.opRun 9 (.removeWatchByWd 1) trivial (by decide +kernel)
  -- the number of the removed watch is given again
  have h₅ : Tallied Desk.Forgets Desk.comeRound _ := .env h₄ (fun _ h => h)
  have h₆ := h₅.opRun 9 (.watchFiles [ascii "f"] 2) trivial (by decide +kernel)
  obtain ⟨t, h, hfirst, hsecond, hall, hopened, hfew⟩ : ∃ t, Tallied Desk.Forgets Desk.recounted t ∧
      WatchStats.counted (t.byWd 1) inModify = 1 ∧ WatchStats.counted (t.byWd 2) inModify = 1 ∧
      WatchStats.counted t.all inModify = 3 ∧ WatchStats.counted t.all inOpen = 0 ∧
      t.all.length < 2 ^ 32 :=
    ⟨_, h₆.eventRun 9 (-1) 1 (by decide +kernel : _ = some (some (Desk.modified 1).event)),
      by decide +kernel⟩
  obtain ⟨hwd, htotal, -⟩ := statistics_count_returned h
    (by decide : WatchStats.Counted inModify)
  obtain ⟨-, hopen, hzero⟩ := statistics_count_returned h
    (by decide : WatchStats.Counted inOpen)
  have hone := hwd 1 (by decide +kernel)
  have htwo := hwd 2 (by decide +kernel)
  rw [hfirst] at hone
  rw [hsecond] at htwo
  rw [hall] at htotal
  rw [hopened] at hopen
  exact ⟨hone, htwo, htotal, hzero hfew hopen 0⟩

end InotifyTools
