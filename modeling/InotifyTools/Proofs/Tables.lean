import InotifyTools.Proofs.Sorting
import InotifyTools.Implementation.Alarmed
import InotifyTools.Proofs.Transcripts

set_option autoImplicit false

/-! # What inotifywatch prints

With inotify, and unless it follows moves, `inotifywatch` sums up what the kernel sends: each table it
prints counts the events that the filters have let through by then, the last one all of them. -/

namespace InotifyTools

open Relation

variable {σ α β : Type}

/-! ## Tables -/

namespace Inotifywatch

/-- How many of the events the counter for `event` has counted; 0 where there is no such counter. -/
def count (evs : List Event) (event : Int32) : UInt32 :=
  if WatchStats.Counted event then UInt32.ofNat (evs.countP (WatchStats.counts event)) else 0

/-- The events of a watch. -/
def eventsOf (wd : Int32) (evs : List Event) : List Event := evs.filter (·.wd = wd)

/-- The columns that have something to show. -/
def columnsFor (o : Opts) (evs : List Event) : List (Int32 × String × Nat) :=
  columns.filter fun c => c.1 &&& watchedEvents o ≠ 0 ∧ (o.zero ≠ 0 ∨ count evs c.1 ≠ 0)

def heading (shown : List (Int32 × String × Nat)) : Bytes :=
  cat (.text "total  " :: shown.flatMap fun c => [.text c.2.1, .text "  "]) ++
    cat [.text "filename\n"]

/-- The line of a watch with its events, if it has something to show. -/
def line (o : Opts) (shown : List (Int32 × String × Nat)) (name : Bytes) (evs : List Event) : Bytes :=
  if o.zero = 0 ∧ count evs 0 = 0 then []
  else cat (cell (count evs 0) 5 :: shown.map fun c => cell (count evs c.1) c.2.2) ++
    cat [.bytes name, .text "\n"]

/-- The watch `a` comes before `b`: it has the smaller count, or with `desc` the larger one, or the
    same count and the smaller descriptor. -/
def Before (key : Int32) (desc : Bool) (evs : List Event) (a b : Int32) : Prop :=
  (if desc then count (eventsOf b evs) key < count (eventsOf a evs) key
    else count (eventsOf a evs) key < count (eventsOf b evs) key) ∨
  count (eventsOf a evs) key = count (eventsOf b evs) key ∧ a < b

/-- The rows are the watches with their names, in the order of a sort key. -/
structure Ordered (sort : Int32) (names : Int32 → Option Bytes) (evs : List Event)
    (rows : List (Int32 × Bytes)) : Prop where
  mem : ∀ wd n, (wd, n) ∈ rows ↔ names wd = some n
  pairwise : rows.Pairwise fun a b => Before (decoded sort).1 (!(decoded sort).2) evs a.1 b.1

/-- The table of some events: nothing if no watch has any, or else a line for each watch. -/
def Table (o : Opts) (names : Int32 → Option Bytes) (evs : List Event) (text : Bytes) : Prop :=
  let known := evs.filter fun ev => (names ev.wd).isSome
  if count known 0 = 0 then text = []
  else ∃ rows, Ordered o.sort names evs rows ∧
    text = heading (columnsFor o known) ++
      rows.flatMap fun r => line o (columnsFor o known) r.2 (eventsOf r.1 evs)

end Inotifywatch

/-! ## What is counted -/

section

variable [Sys σ] {w w' : World σ} {names : Int32 → Option Bytes} {evs : List Event}

/-- The events as they are counted, by the names of the watches. -/
def Tally.of (names : Int32 → Option Bytes) (evs : List Event) : Tally where
  byWd wd := Inotifywatch.eventsOf wd evs
  all := evs.filter fun ev => (names ev.wd).isSome

omit [Sys σ] in
/-- Another event is counted. -/
theorem Tally.of_returned (hindexed : ∀ wd : Int32, w.lib.store.byWd[wd]?.isSome = (names wd).isSome)
    (evs : List Event) (ev : Event) :
    (Tally.of names evs).returned w ev = Tally.of names (evs ++ [ev]) := by
  unfold Tally.returned Tally.of Inotifywatch.eventsOf
  dsimp only
  rw [hindexed]
  congr 1
  · funext wd
    by_cases he : wd = ev.wd
    · rw [if_pos he, List.filter_append, List.filter_cons_of_pos (by simp [he])]
      rfl
    · rw [if_neg he, List.filter_append, List.filter_cons_of_neg (by simp [Ne.symm he]),
        List.filter_nil, List.append_nil]
  · split
    · next hsome => simp [hsome]
    · next hnone => simp [hnone]

/-- Reading with inotify leaves the watches where they are. -/
theorem Effects.byWd_eq (h : Effects Reading w w') : w'.lib.store.byWd = w.lib.store.byWd := by
  refine h.same (fun w => w.lib.store.byWd) fun k w₁ w₂ hk he => ?_
  cases he with
  | scratch | call | stream | collecting | counted => rfl
  | _ => rcases hk with hk | hk | hk <;> cases hk

/-- The counters of `w` have counted the events `evs`, the watches having the names `names`. -/
structure SumsUp (names : Int32 → Option Bytes) (w : World σ) (evs : List Event) : Prop where
  inotify : Inotify w
  named : ∀ wd, w.lib.store.nameOf wd = names wd
  counts : CountsReturned w (Tally.of names evs)

namespace SumsUp

omit [Sys σ] in
/-- Printing counts nothing. -/
theorem prints (h : SumsUp names w evs) (os : σ) : SumsUp names { w with os } evs :=
  ⟨⟨h.inotify.initialized, h.inotify.mode, h.inotify.wellIndexed, h.inotify.plain⟩, h.named,
    h.counts.initialized, h.counts.collecting, h.counts.wellIndexed, h.counts.stats, h.counts.totals,
    h.counts.sublist⟩

omit [Sys σ] in
theorem indexed (h : SumsUp names w evs) (wd : Int32) :
    w.lib.store.byWd[wd]?.isSome = (names wd).isSome := by
  rw [← h.named]
  cases hid : w.lib.store.byWd[wd]? with
  | none =>
      rw [Store.nameOf_none hid]
      rfl
  | some id =>
      obtain ⟨v, -, -, hn⟩ := h.inotify.wellIndexed.found_wd hid
      rw [hn]
      rfl

omit [Sys σ] in
theorem after_eq (t : Tally) (h : w'.lib.store.byWd = w.lib.store.byWd) : t.after w w' = t := by
  unfold Tally.after
  rw [h]
  simp only [if_true]

/-- A call only reads. -/
theorem reads (hz : ¬ AnsweredZero σ) (h : SumsUp names w evs) {c : Call} {e : Option Event}
    (hreturns : Returns w c e w') : Effects Reading w w' ∧ Inotify w' := by
  obtain ⟨fuel, hrun⟩ := hreturns
  have he := ((nextEvents_reads hz h.inotify fuel c.timeout c.numEvents).ok (hrun fuel le_rfl)).1
  exact ⟨he, h.inotify.effects hz he (by rintro (h | h) <;> cases h)⟩

/-- A call counts the event it returns. -/
theorem returned (hz : ¬ AnsweredZero σ) (h : SumsUp names w evs) {c : Call} {ev : Event}
    (hreturns : Returns w c (some ev) w') : SumsUp names w' (evs ++ [ev]) := by
  obtain ⟨he, hw'⟩ := h.reads hz hreturns
  obtain ⟨fuel, hrun⟩ := hreturns
  have hnamed : ∀ wd, w'.lib.store.nameOf wd = names wd := fun wd =>
    (he.sameSettings.nameOf wd).trans (h.named wd)
  obtain ⟨w₁, he₁, rfl, rfl⟩ :=
    (nextEvents_counts h.inotify.wellIndexed fuel c.timeout c.numEvents).ok (hrun fuel le_rfl)
  have hindex : w₁.delivered.lib.store.byWd = w₁.lib.store.byWd := by
    unfold World.delivered
    split
    · exact Inotifytools.count_byWd _ _
    · rfl
  have hsame : w₁.lib.store.byWd = w.lib.store.byWd := hindex.symm.trans he.byWd_eq
  have h₁ := h.counts.after (he₁.mono streamWatch_uncounting)
  rw [after_eq _ hsame] at h₁
  have hcounts := h₁.returned
  rw [Tally.of_returned (hsame ▸ h.indexed)] at hcounts
  exact ⟨hw', hnamed, hcounts⟩

/-- A call that returns nothing counts nothing. -/
theorem idle (hz : ¬ AnsweredZero σ) (h : SumsUp names w evs) {c : Call}
    (hreturns : Returns w c none w') : SumsUp names w' evs := by
  obtain ⟨he, hw'⟩ := h.reads hz hreturns
  obtain ⟨fuel, hrun⟩ := hreturns
  have he₁ := (nextEvents_counts h.inotify.wellIndexed fuel c.timeout c.numEvents).ok (hrun fuel le_rfl)
  have h₁ := h.counts.after (he₁.mono streamWatch_uncounting)
  rw [after_eq _ he.byWd_eq] at h₁
  exact ⟨hw', fun wd => (he.sameSettings.nameOf wd).trans (h.named wd), h₁⟩

end SumsUp

end

/-! ## Counters -/

namespace Inotifywatch

variable {evs : List Event} {event : Int32}

theorem get_tally_getD (evs : List Event) (event : Int32) :
    ((WatchStats.tally evs).get event).getD 0 = count evs event := by
  unfold count
  split
  · next h =>
      rw [h.get_tally]
      rfl
  · next h =>
      rw [WatchStats.get_tally]
      cases hnew : ({} : WatchStats).get event with
      | none => rfl
      | some c => exact absurd (show WatchStats.Counted event by rw [WatchStats.Counted, hnew]; rfl) h

theorem counted_eq_zero (h : WatchStats.Counted event) :
    WatchStats.counted evs event = 0 ↔ count evs event = 0 := by
  unfold WatchStats.counted count
  rw [if_pos h]
  constructor
  · intro hzero
    rw [← UInt32.toUInt32_toInt32 (UInt32.ofNat _), hzero]
    rfl
  · intro hzero
    rw [hzero]
    rfl

theorem columns_counted : ∀ c ∈ columns, WatchStats.Counted c.1 := by decide +kernel

end Inotifywatch

/-! ## Printing a table -/

/-- A call that printing on request makes. -/
inductive ReportCall [Sys σ] : σ → σ → Prop
  | fwrite (st : Stream) (b : Bytes) (os : σ) : ReportCall os (Sys.fwrite st b os)
  | printNow (os : σ) : ReportCall os (Sys.printNow os).2
  | done (os : σ) : ReportCall os (Sys.done os).2

section

variable [Sys σ]

/-- From `os` to `os'`, the program was asked for statistics `n` times and has printed `text`. -/
structure Emits (os os' : Taped σ) (n : Nat) (text : Bytes) : Prop where
  tape : os'.tape = os.tape ++ text
  requests : os'.requests = os.requests + n

omit [Sys σ] in
theorem Emits.of_notes {os os' : Taped σ} (h : os'.notes = os.notes) : Emits os os' 0 [] :=
  ⟨(congrArg Prod.fst h).trans (List.append_nil _).symm, congrArg Prod.snd h⟩

omit [Sys σ] in
theorem Emits.trans {os os' os'' : Taped σ} {n n' : Nat} {text text' : Bytes}
    (h : Emits os os' n text) (h' : Emits os' os'' n' text') :
    Emits os os'' (n + n') (text ++ text') where
  tape := by rw [h'.tape, h.tape, List.append_assoc]
  requests := by rw [h'.requests, h.requests, Nat.add_assoc]

omit [Sys σ] in
theorem Emits.of_left {os os' os'' : Taped σ} {n : Nat} {text : Bytes} (h : Emits os' os'' n text)
    (hnotes : os'.notes = os.notes) : Emits os os'' n text where
  tape := h.tape.trans (congrArg (·.1 ++ text) hnotes)
  requests := h.requests.trans (congrArg (·.2 + n) hnotes)

/-- From `w`, `m` returns `a`, has printed `text` and has done nothing else. -/
def Writes (w : World (Taped σ)) (m : M (Taped σ) α) (a : α) (text : Bytes) : Prop :=
  ∃ os, m w = .ok (a, { w with os }) ∧ Emits w.os os 0 text ∧ ReflTransGen ReportCall w.os os

namespace Writes

variable {w : World (Taped σ)} {m : M (Taped σ) α} {a : α} {text : Bytes}

theorem pure (a : α) : Writes w (Pure.pure a) a [] := ⟨w.os, rfl, .of_notes rfl, .refl⟩

/-- What is told next is told from where the first has led. -/
theorem next (hm : Writes w m a text) : ∃ os, ∀ {β : Type} {f : α → M (Taped σ) β} {b : β}
    {text' : Bytes}, Writes { w with os } (f a) b text' → Writes w (m >>= f) b (text ++ text') := by
  obtain ⟨os, hrun, hemits, hcalls⟩ := hm
  refine ⟨os, fun ⟨os', hrun', hemits', hcalls'⟩ => ?_⟩
  exact ⟨os', (Prog.bind_run_ok hrun).trans hrun', hemits.trans hemits', hcalls.trans hcalls'⟩

theorem bind {f : α → M (Taped σ) β} {b : β} {text' : Bytes} (hm : Writes w m a text)
    (hf : ∀ os, Writes { w with os } (f a) b text') : Writes w (m >>= f) b (text ++ text') := by
  obtain ⟨os, hnext⟩ := hm.next
  exact hnext (hf os)

/-- What only looks. -/
theorem look {f : α → M (Taped σ) β} {b : β} (hm : m w = .ok (a, w)) (hf : Writes w (f a) b text) :
    Writes w (m >>= f) b text := by
  obtain ⟨os, hrun, hemits, hcalls⟩ := hf
  exact ⟨os, (Prog.bind_run_ok hm).trans hrun, hemits, hcalls⟩

theorem cprint (ps : List Piece) : Writes w (InotifyTools.cprint ps) () (cat ps) :=
  ⟨Sys.fwrite .stdout (cat ps) w.os, rfl, ⟨rfl, rfl⟩, .single (.fwrite _ _ _)⟩

theorem ceprint (ps : List Piece) : Writes w (InotifyTools.ceprint ps) () [] :=
  ⟨Sys.fwrite .stderr (cat ps) w.os, rfl, .of_notes rfl, .single (.fwrite _ _ _)⟩

end Writes

end

section

variable [Sys σ] {w : World (Taped σ)} {names : Int32 → Option Bytes} {evs : List Event}
  {o : Inotifywatch.Opts}

theorem filenameFromWatch_run (h : Inotify w) {id : Nat} {v : Watch}
    (hid : w.lib.store.byWd[v.wd]? = some id) (hv : w.lib.store.watches[id]? = some v) :
    filenameFromWatch id w = .ok (v.filename.bytes, w) := by
  have hfid : v.fid = none := h.plain id v (.inl ⟨_, hid⟩) hv
  have hrun : filenameFromWatchId id w = .ok (v.filename, w) := by
    unfold filenameFromWatchId
    rw [Prog.bind_run_ok (watch_run hv), hfid]
    rfl
  have hcontains : w.lib.store.watches.contains id = true := by
    rw [Std.TreeMap.contains_eq_isSome_getElem?, hv]
    rfl
  unfold filenameFromWatch
  rw [getLib_bind, if_neg (by simp [hcontains]), Prog.bind_run_ok hrun]
  rfl

namespace Inotifywatch

omit [Sys σ] in
theorem shownColumns_run (h : SumsUp names w evs) {cs : List (Int32 × String × Nat)}
    (hcs : ∀ c ∈ cs, WatchStats.Counted c.1) :
    shownColumns o cs w = .ok (cs.filter fun c => c.1 &&& watchedEvents o ≠ 0 ∧
      (o.zero ≠ 0 ∨ count (Tally.of names evs).all c.1 ≠ 0), w) := by
  induction cs with
  | nil => rfl
  | cons c cs ih =>
      obtain ⟨hc, hcs⟩ := List.forall_mem_cons.1 hcs
      unfold shownColumns
      rw [Prog.bind_run_ok (h.counts.getStatTotal_run hc), Prog.bind_run_ok (ih hcs), List.filter_cons]
      simp only [Ne, counted_eq_zero hc, decide_eq_true_eq]
      rfl

omit [Sys σ] in
/-- The watches that are listed have their names and their tallies. -/
theorem listed_tally (h : SumsUp names w evs) {p : Nat × Watch} (hp : p ∈ w.lib.store.listed) :
    names p.2.wd = some p.2.filename.bytes ∧
      ∀ event, countOf event p.2.stats = count (eventsOf p.2.wd evs) event := by
  obtain ⟨hid, hv⟩ := (mem_listed h.inotify.wellIndexed).1 hp
  refine ⟨?_, fun event => ?_⟩
  · rw [← h.named]
    unfold Store.nameOf
    rw [hid, Option.bind_some, hv]
    rfl
  · have hstats : p.2.stats = WatchStats.tally (eventsOf p.2.wd evs) := h.counts.stats _ _ _ hid hv
    rw [countOf, hstats, get_tally_getD]

omit [Sys σ] in
/-- The rows of a table. -/
theorem ordered_of_listed (h : SumsUp names w evs) {sort : Int32} {ws : List (Nat × Watch)}
    (hperm : ws.Perm w.lib.store.listed)
    (hsorted : ws.Pairwise (Precedes (countOf (decoded sort).1) (!(decoded sort).2))) :
    Ordered sort names evs (ws.map fun p => (p.2.wd, p.2.filename.bytes)) where
  mem wd n := by
    rw [List.mem_map]
    constructor
    · rintro ⟨p, hp, heq⟩
      cases heq
      exact (listed_tally h (hperm.mem_iff.1 hp)).1
    · intro hn
      have hindexed : w.lib.store.byWd[wd]?.isSome := by
        rw [h.indexed, hn]
        rfl
      obtain ⟨id, hid⟩ := Option.isSome_iff_exists.1 hindexed
      obtain ⟨v, hv, rfl, -⟩ := h.inotify.wellIndexed.found_wd hid
      have hp : (id, v) ∈ w.lib.store.listed := (mem_listed h.inotify.wellIndexed).2 ⟨hid, hv⟩
      have hname := (listed_tally h hp).1
      rw [hn] at hname
      cases hname
      exact ⟨(id, v), hperm.mem_iff.2 hp, rfl⟩
  pairwise := by
    refine List.pairwise_map.2 (hsorted.imp_of_mem fun {p q} hp hq hpq => ?_)
    have hcount := (listed_tally h (hperm.mem_iff.1 hp)).2
    have hcount' := (listed_tally h (hperm.mem_iff.1 hq)).2
    unfold Precedes at hpq
    unfold Before
    rwa [hcount, hcount'] at hpq

/-- The lines of the watches are printed. -/
theorem printRows_writes (h : SumsUp names w evs) (shown : List (Int32 × String × Nat))
    {ws : List (Nat × Watch)} (hws : ∀ p ∈ ws, p ∈ w.lib.store.listed) :
    Writes w (printRows o shown (ws.map fun p => (p.1, p.2.stats))) ()
      (ws.flatMap fun p => line o shown p.2.filename.bytes (eventsOf p.2.wd evs)) := by
  induction ws generalizing w with
  | nil => exact .pure ()
  | cons p ws ih =>
      obtain ⟨hp, hws⟩ := List.forall_mem_cons.1 hws
      obtain ⟨hid, hv⟩ := (mem_listed h.inotify.wellIndexed).1 hp
      have hget : ∀ event, (p.2.stats.get event).getD 0 = count (eventsOf p.2.wd evs) event :=
        (listed_tally h hp).2
      have htotal : p.2.stats.total = count (eventsOf p.2.wd evs) 0 := hget 0
      rw [List.map_cons, List.flatMap_cons]
      unfold printRows
      refine Writes.bind (a := ()) ?_ fun os => ih (h.prints os) hws
      unfold line
      rw [htotal]
      by_cases hnone : o.zero = 0 ∧ count (eventsOf p.2.wd evs) 0 = 0
      · rw [if_pos hnone, if_pos hnone]
        exact .pure ()
      · rw [if_neg hnone, if_neg hnone]
        simp only [hget]
        refine (Writes.cprint _).bind fun os => ?_
        exact .look (filenameFromWatch_run (h.prints os).inotify hid hv) (.cprint _)

/-- **A table is printed.** -/
theorem printInfo_writes (h : SumsUp names w evs) :
    ∃ text, Table o names evs text ∧ Writes w (printInfo o) exitSuccess text := by
  have hzero : WatchStats.Counted 0 := by decide
  have htotal := h.counts.getStatTotal_run hzero
  -- without events there is no table, only a line on `stderr`
  by_cases hnone : count (Tally.of names evs).all 0 = 0
  · refine ⟨[], if_pos hnone |>.mpr rfl, .look htotal ?_⟩
    rw [if_pos ((counted_eq_zero hzero).2 hnone)]
    exact (Writes.ceprint _).bind fun _ => .pure _
  · have hsome : ¬ WatchStats.counted (Tally.of names evs).all 0 = 0 := fun hz =>
      hnone ((counted_eq_zero hzero).1 hz)
    let shown := columnsFor o (Tally.of names evs).all
    obtain ⟨os₁, hfirst⟩ := (Writes.cprint (w := w)
      (.text "total  " :: shown.flatMap fun c => [.text c.2.1, .text "  "])).next
    obtain ⟨os₂, hsecond⟩ := (Writes.cprint (w := { w with os := os₁ }) [.text "filename\n"]).next
    have h₂ := (h.prints os₁).prints os₂
    obtain ⟨ws, hrun, hperm, hsorted⟩ := watchesSortedByEvent_run h₂.inotify.wellIndexed o.sort
    have hrows := Writes.bind (f := fun _ => Pure.pure exitSuccess)
      (printRows_writes (o := o) h₂ shown fun p hp => hperm.mem_iff.1 hp) fun _ => .pure _
    refine ⟨heading shown ++ (ws.map fun p => (p.2.wd, p.2.filename.bytes)).flatMap fun r =>
      line o shown r.2 (eventsOf r.1 evs), ?_, .look htotal ?_⟩
    · exact (if_neg hnone).mpr ⟨_, ordered_of_listed h₂ hperm hsorted, rfl⟩
    · rw [List.append_nil] at hrows
      rw [if_neg hsome, heading, List.append_assoc, List.flatMap_map]
      exact .look (shownColumns_run h columns_counted) (hfirst (hsecond (.look hrun hrows)))

end Inotifywatch

end

/-! ## What is printed on the way -/

namespace Inotifywatch

/-- `Told o names evs₀ evs n text`: while the events counted were first `evs₀`, then more, and at last
    `evs`, statistics were asked for `n` times, and each time a table of the events counted by then was
    printed, and an empty line. -/
inductive Told (o : Opts) (names : Int32 → Option Bytes) (evs₀ : List Event) :
    List Event → Nat → Bytes → Prop
  | start : Told o names evs₀ evs₀ 0 []
  | event {evs : List Event} {n : Nat} {text : Bytes} (ev : Event)
      (h : Told o names evs₀ evs n text) : Told o names evs₀ (evs ++ [ev]) n text
  | request {evs : List Event} {n : Nat} {text t : Bytes} (h : Told o names evs₀ evs n text)
      (ht : Table o names evs t) : Told o names evs₀ evs (n + 1) (text ++ (t ++ cat [.text "\n"]))

variable {o : Opts} {names : Int32 → Option Bytes} {evs₀ evs₁ evs₂ : List Event}

theorem Told.trans {n₁ n₂ : Nat} {t₁ t₂ : Bytes} (h₁ : Told o names evs₀ evs₁ n₁ t₁)
    (h₂ : Told o names evs₁ evs₂ n₂ t₂) : Told o names evs₀ evs₂ (n₁ + n₂) (t₁ ++ t₂) := by
  induction h₂ with
  | start =>
      rw [List.append_nil]
      exact h₁
  | event ev _ ih => exact .event ev ih
  | request _ ht ih =>
      rw [← List.append_assoc]
      exact .request ih ht

end Inotifywatch

/-! ## Turns -/

section

variable [Sys σ] {w₀ w w₁ w₂ w' w'' : World σ} {o : Inotifywatch.Opts}

namespace Inotifywatch

/-- The turn from `w` has come to `w'`, where it asks whether to go on. -/
def Wakes (o : Opts) (w w' : World σ) : Prop :=
  ∃ fuel₀, ∀ fuel, fuel₀ ≤ fuel → watchRound fuel o {} w = watchAgain {} w'

/-- After some turns the loop goes on from `w'`. -/
def Leads (o : Opts) (w w' : World σ) : Prop :=
  ∃ n fuel₀, ∀ fuel, fuel₀ ≤ fuel → watchLoop o (fuel + n) {} w = watchLoop o fuel {} w'

/-- The loop is left with `code`, in `w'`. -/
def Finishes (o : Opts) (w : World σ) (code : Int32) (w' : World σ) : Prop :=
  ∃ fuel₀, ∀ fuel, fuel₀ ≤ fuel → watchLoop o fuel {} w = .ok (code, w')

theorem Leads.refl (w : World σ) : Leads o w w := ⟨0, 0, fun _ _ => rfl⟩

theorem Leads.trans (h : Leads o w w') (h' : Leads o w' w'') : Leads o w w'' := by
  obtain ⟨n, fuel₀, h⟩ := h
  obtain ⟨m, fuel₁, h'⟩ := h'
  refine ⟨m + n, max fuel₀ fuel₁, fun fuel hfuel => ?_⟩
  rw [← Nat.add_assoc, h (fuel + m) (by omega), h' fuel (by omega)]

theorem Leads.finishes {code : Int32} (h : Leads o w w') (h' : Finishes o w' code w'') :
    Finishes o w code w'' := by
  obtain ⟨n, fuel₀, h⟩ := h
  obtain ⟨fuel₁, h'⟩ := h'
  refine ⟨max fuel₀ fuel₁ + n, fun fuel hfuel => ?_⟩
  obtain ⟨k, rfl⟩ := Nat.exists_eq_add_of_le' (Nat.le_of_add_left_le hfuel)
  rw [h k (by omega), h' k (by omega)]

/-- An event wakes the program. -/
theorem wakes_of_event (hrec : o.recursive = 0) {ev : Event} (h₁ : checkPrintNow o w = .ok ((), w₁))
    (hreturns : Returns w₁ (.one blockingTimeout) (some ev) w₂)
    (h₂ : checkPrintNow o w₂ = .ok ((), w')) : Wakes o w w' := by
  obtain ⟨fuel₀, hreturns⟩ := hreturns
  refine ⟨fuel₀, fun fuel hfuel => ?_⟩
  have hevent : watchEvent fuel o {} ev w' = .ok ({}, w') := by
    unfold watchEvent MoveTracker.handle
    rw [hrec]
    split <;> rfl
  unfold watchRound
  rw [Prog.bind_run_ok h₁, nextEvent_one, Prog.bind_run_ok (hreturns fuel hfuel), Prog.bind_run_ok h₂]
  exact Prog.bind_run_ok hevent

/-- A signal wakes the program. -/
theorem wakes_of_interrupt (h₁ : checkPrintNow o w = .ok ((), w₁))
    (hreturns : Returns w₁ (.one blockingTimeout) none w₂)
    (h₂ : checkPrintNow o w₂ = .ok ((), w')) (herror : w'.lib.error = eintr) : Wakes o w w' := by
  obtain ⟨fuel₀, hreturns⟩ := hreturns
  refine ⟨fuel₀, fun fuel hfuel => ?_⟩
  unfold watchRound
  rw [Prog.bind_run_ok h₁, nextEvent_one, Prog.bind_run_ok (hreturns fuel hfuel), Prog.bind_run_ok h₂]
  dsimp only
  rw [getLib_bind, herror]
  rfl

/-- The program goes on unless a signal has asked it to leave. -/
theorem Wakes.leads (h : Wakes o w w') (hdone : (Sys.done w'.os).1 = false) :
    Leads o w { w' with os := (Sys.done w'.os).2 } := by
  obtain ⟨fuel₀, h⟩ := h
  refine ⟨1, fuel₀, fun fuel hfuel => ?_⟩
  have hagain : watchAgain {} w' = .ok (.again {}, { w' with os := (Sys.done w'.os).2 }) := by
    unfold watchAgain
    rw [call_bind, hdone]
    rfl
  show (watchRound fuel o {} >>= _) w = _
  rw [Prog.bind_run_ok ((h fuel hfuel).trans hagain)]

/-- Else it prints a last table. -/
theorem Wakes.finishes (h : Wakes o w w') (hdone : (Sys.done w'.os).1 = true) {code : Int32}
    (hinfo : printInfo o { w' with os := (Sys.done w'.os).2 } = .ok (code, w'')) :
    Finishes o w code w'' := by
  obtain ⟨fuel₀, h⟩ := h
  refine ⟨fuel₀ + 1, fun fuel hfuel => ?_⟩
  obtain ⟨fuel, rfl⟩ := Nat.exists_eq_add_of_le' (Nat.le_of_add_left_le hfuel)
  have hagain : watchAgain {} w' = .ok (.finish, { w' with os := (Sys.done w'.os).2 }) := by
    unfold watchAgain
    rw [call_bind, hdone]
    rfl
  show (watchRound fuel o {} >>= _) w = _
  rw [Prog.bind_run_ok ((h fuel (by omega)).trans hagain)]
  exact hinfo

end Inotifywatch

end

/-! ## Sessions -/

section

variable [Sys σ] {w₀ w : World (Taped σ)} {o : Inotifywatch.Opts} {q : List Record}
  {rss : List (List Record)} {names : Int32 → Option Bytes} {evs before : List Event}
  {ends next : Taped σ → Prop} {c : Call}

/-- No signal has asked the program to leave. -/
def Working (os : σ) : Prop := (Sys.done os).1 = false

/-- A signal has. -/
def Leaving (os : σ) : Prop := ∀ os', ReflTransGen ReportCall os os' → (Sys.done os').1 = true

/-- A signal interrupts the poll, and then `next` holds. -/
def Interrupts (fd : Int32) (c : Call) (next : σ → Prop) (os : σ) : Prop :=
  let r := Sys.ppoll fd (polledFor c.timeout) os
  r.1 < 0 ∧ Sys.errno r.2 = Inotifywatch.eintr ∧ next r.2

/-- The kernel feeds the chunks of each session, at the end of which a signal interrupts the poll; the
    last signal asks the program to leave. -/
def Sessions (fd : Int32) (c : Call) : List (List Record) → List (List (List Record)) → σ → Prop
  | rss, [] => Feeds (ReflTransGen ReportCall) fd c Working (Interrupts fd c Leaving) rss
  | rss, rss' :: rest =>
      Feeds (ReflTransGen ReportCall) fd c Working (Interrupts fd c (Sessions fd c rss' rest)) rss

theorem Sessions.rel {fd : Int32} {os os' : σ} {rest : List (List (List Record))}
    (h : Sessions fd c rss rest os) (hcalls : ReflTransGen ReportCall os os') :
    Sessions fd c rss rest os' := by
  cases rest with
  | nil => exact Feeds.rel h hcalls
  | cons rss' rest => exact Feeds.rel h hcalls

theorem Sessions.stays {fd : Int32} {os os' : σ} {rest : List (List (List Record))}
    (h : Sessions fd c rss rest os) (hcalls : ReflTransGen ReportCall os os') : Working os' := by
  cases rest with
  | nil => exact Feeds.stays h hcalls
  | cons rss' rest => exact Feeds.stays h hcalls

namespace Inotifywatch

/-- Asking whether statistics are asked for. -/
theorem emits_printNow (os : Taped σ) :
    Emits os (Sys.printNow os).2 (if (Sys.printNow os).1 then 1 else 0) [] where
  tape := (List.append_nil _).symm
  requests := by
    show (if (Sys.printNow os.os).1 then os.requests + 1 else os.requests) =
      os.requests + if (Sys.printNow os.os).1 then 1 else 0
    split <;> rfl

/-- What is asked for is printed. -/
theorem checkPrintNow_run (h : SumsUp names w evs) :
    ∃ os n text, checkPrintNow o w = .ok ((), { w with os }) ∧ Told o names evs evs n text ∧
      Emits w.os os n text ∧ ReflTransGen ReportCall w.os os ∧ Effects ∅ w { w with os } := by
  let os₁ := (Sys.printNow w.os).2
  have hcall : ReflTransGen ReportCall w.os os₁ := .single (.printNow _)
  have hemits := emits_printNow w.os
  have heffects : ∀ {os}, checkPrintNow o w = .ok ((), { w with os }) → Effects ∅ w { w with os } :=
    fun hrun => ((checkPrintNow_sound o w h.inotify.wellIndexed).ok hrun).1
  cases hasked : (Sys.printNow w.os).1 with
  | false =>
      have hrun : checkPrintNow o w = .ok ((), { w with os := os₁ }) := by
        unfold checkPrintNow
        rw [call_bind, hasked]
        rfl
      rw [hasked] at hemits
      exact ⟨os₁, 0, [], hrun, .start, hemits, hcall, heffects hrun⟩
  | true =>
      obtain ⟨text, htable, hinfo⟩ := printInfo_writes (o := o) (h.prints os₁)
      obtain ⟨os₂, hrun₂, hemits₂, hcalls₂⟩ := Writes.bind (f := fun _ => cprint [.text "\n"]) hinfo
        fun _ => .cprint _
      have hrun : checkPrintNow o w = .ok ((), { w with os := os₂ }) := by
        unfold checkPrintNow
        rw [call_bind, hasked]
        exact hrun₂
      rw [hasked] at hemits
      exact ⟨os₂, 1, _, hrun, .request .start htable, hemits.trans hemits₂, hcall.trans hcalls₂,
        heffects hrun⟩

/-- The events that are fed are counted, one in each turn. -/
theorem session_counted (hz : ¬ AnsweredZero (Taped σ)) (h₀ : Inotify w₀) (hrec : o.recursive = 0)
    (h : Awaits (ReflTransGen ReportCall) (.one blockingTimeout) Working ends w₀ w q rss)
    (hsum : SumsUp names w before) (hevs : w₀.passed (q ++ rss.flatten) = evs) :
    ∃ w' q' rss' n text, Told o names before (before ++ evs) n text ∧ Emits w.os w'.os n text ∧
      Awaits (ReflTransGen ReportCall) (.one blockingTimeout) Working ends w₀ w' q' rss' ∧
      w₀.passed (q' ++ rss'.flatten) = [] ∧ SumsUp names w' (before ++ evs) ∧ Leads o w w' := by
  -- on the events let through: a turn counts the next, after and before printing what is asked for
  induction evs generalizing w q rss before with
  | nil =>
      rw [List.append_nil]
      exact ⟨w, q, rss, 0, [], .start, .of_notes rfl, h, hevs, hsum, .refl w⟩
  | cons ev evs ih =>
      obtain ⟨os₁, n₁, t₁, hrun₁, htold₁, hemits₁, hcalls₁, he₁⟩ := checkPrintNow_run (o := o) hsum
      have h₁ := h.calm he₁ hcalls₁
      rcases h₁.next hz h₀ with ⟨ev', q', rss', w₂, hev, hreturns, h₂, hpolls⟩ | ⟨hnone, -⟩
      · rw [hevs] at hev
        obtain ⟨rfl, hrest⟩ := List.cons.inj hev
        have hsum₂ : SumsUp names w₂ (before ++ [ev]) := (hsum.prints os₁).returned hz hreturns
        obtain ⟨os₂, n₂, t₂, hrun₂, htold₂, hemits₂, hcalls₂, he₂⟩ := checkPrintNow_run (o := o) hsum₂
        let os₃ := (Sys.done os₂).2
        have hleads : Leads o w { w₂ with os := os₃ } :=
          (wakes_of_event hrec hrun₁ hreturns hrun₂).leads (h₂.feeds.stays hcalls₂)
        have he₃ : Effects ∅ w₂ { w₂ with os := os₃ } := he₂.trans (.quiet (.call _ (.done os₂)))
        have h₃ := h₂.calm he₃ (hcalls₂.tail (.done os₂))
        obtain ⟨w', q', rss', n₃, t₃, htold₃, hemits₃, h', hnone, hsum', hleads'⟩ :=
          ih h₃ (hsum₂.prints os₃) hrest.symm
        rw [List.append_assoc, List.singleton_append] at htold₃ hsum'
        have hturn : Emits w.os os₂ (n₁ + n₂) (t₁ ++ t₂) :=
          hemits₁.trans (hemits₂.of_left hpolls.notes)
        exact ⟨w', q', rss', n₁ + n₂ + n₃, t₁ ++ t₂ ++ t₃,
          ((htold₁.event ev).trans htold₂).trans htold₃, hturn.trans (hemits₃.of_left rfl), h', hnone,
          hsum', hleads.trans hleads'⟩
      · rw [hevs] at hnone
        cases hnone

/-- When all that was fed is counted, a signal interrupts the next poll. -/
theorem session_interrupted (hz : ¬ AnsweredZero (Taped σ)) (h₀ : Inotify w₀)
    (h : Awaits (ReflTransGen ReportCall) (.one blockingTimeout) Working
      (Interrupts w₀.lib.fd (.one blockingTimeout) next) w₀ w q rss)
    (hnone : w₀.passed (q ++ rss.flatten) = []) (hsum : SumsUp names w evs) :
    ∃ w' os n text, Told o names evs evs n text ∧ Emits w.os w'.os n text ∧ Wakes o w w' ∧
      SumsUp names w' evs ∧ next os ∧ ReflTransGen ReportCall os w'.os ∧ Effects Reading w₀ w' ∧
      Holds w'.lib.stream [] := by
  obtain ⟨os₁, n₁, t₁, hrun₁, htold₁, hemits₁, hcalls₁, he₁⟩ := checkPrintNow_run (o := o) hsum
  have h₁ := h.calm he₁ hcalls₁
  rcases h₁.next hz h₀ with ⟨ev, q', rss', w₂, hev, -⟩ | ⟨-, w₂, h₂, hpolls, hsame⟩
  · rw [hnone] at hev
    cases hev
  · obtain ⟨hpoll, herrno, hnext⟩ := (h₂.feeds _ .refl).2
    rw [← h₂.effects.sameSettings.fd] at hpoll herrno hnext
    obtain ⟨w₃, hreturns, herror, hos, hholds⟩ :=
      returns_of_failed_poll (h₂.inotify hz h₀) h₂.holds hpoll
    have hreturns₁ := hsame _ _ hreturns
    have hsum₁ := hsum.prints os₁
    have hsum₃ := hsum₁.idle hz hreturns₁
    obtain ⟨os₄, n₂, t₂, hrun₂, htold₂, hemits₂, hcalls₂, he₂⟩ := checkPrintNow_run (o := o) hsum₃
    have hempty : ∀ {v v' : World (Taped σ)}, Effects ∅ v v' → Effects Reading v v' := fun h =>
      h.mono (Set.empty_subset _)
    have he : Effects Reading w₀ { w₃ with os := os₄ } :=
      (h.effects.trans (hempty he₁)).trans ((hsum₁.reads hz hreturns₁).1.trans (hempty he₂))
    have hnotes : w₃.os.notes = os₁.notes := by
      rw [hos]
      exact hpolls.notes
    exact ⟨{ w₃ with os := os₄ }, _, n₁ + n₂, t₁ ++ t₂, htold₁.trans htold₂,
      hemits₁.trans (hemits₂.of_left hnotes),
      wakes_of_interrupt hrun₁ hreturns₁ hrun₂ (herror.trans herrno), hsum₃.prints os₄, hnext,
      hos ▸ hcalls₂, he, hholds⟩

/-- **The tables of the loop.** -/
theorem tables_of_awaits (hz : ¬ AnsweredZero (Taped σ)) (h₀ : Inotify w₀) (hrec : o.recursive = 0)
    {rest : List (List (List Record))} (he : Effects Reading w₀ w) (hholds : Holds w.lib.stream q)
    (hfeeds : Sessions w₀.lib.fd (.one blockingTimeout) rss rest w.os) (hsum : SumsUp names w before)
    (hevs : w₀.passed (q ++ (rss :: rest).flatten.flatten) = evs) :
    ∃ w' n text table, Told o names before (before ++ evs) n text ∧
      Table o names (before ++ evs) table ∧ Emits w.os w'.os n (text ++ table) ∧
      Finishes o w exitSuccess w' := by
  -- on the sessions: the last signal asks to leave, those before it do not
  induction rest generalizing w q rss before evs with
  | nil =>
      rw [List.flatten_singleton] at hevs
      obtain ⟨w₁, q', rss', n₁, t₁, htold₁, hemits₁, h₁, hnone, hsum₁, hleads⟩ :=
        session_counted hz h₀ hrec ⟨he, hholds, hfeeds⟩ hsum hevs
      obtain ⟨w₂, os, n₂, t₂, htold₂, hemits₂, hwakes, hsum₂, hnext, hcalls, -, -⟩ :=
        session_interrupted hz h₀ h₁ hnone hsum₁
      obtain ⟨table, htable, os₃, hinfo, hemits₃, -⟩ :=
        printInfo_writes (o := o) (hsum₂.prints (Sys.done w₂.os).2)
      exact ⟨_, n₁ + n₂, t₁ ++ t₂, table, htold₁.trans htold₂, htable,
        (hemits₁.trans hemits₂).trans (hemits₃.of_left rfl),
        hleads.finishes (hwakes.finishes (hnext _ hcalls) hinfo)⟩
  | cons rss' rest ih =>
      rw [List.flatten_cons, List.flatten_append, ← List.append_assoc, World.passed_append] at hevs
      obtain ⟨w₁, q₁, rss₁, n₁, t₁, htold₁, hemits₁, h₁, hnone, hsum₁, hleads⟩ :=
        session_counted hz h₀ hrec ⟨he, hholds, hfeeds⟩ hsum rfl
      obtain ⟨w₂, os, n₂, t₂, htold₂, hemits₂, hwakes, hsum₂, hnext, hcalls, he₂, hholds₂⟩ :=
        session_interrupted hz h₀ h₁ hnone hsum₁
      let os₃ := (Sys.done w₂.os).2
      have he₃ : Effects Reading w₀ { w₂ with os := os₃ } :=
        he₂.trans (.quiet (.call _ (.done w₂.os)))
      obtain ⟨w', n₃, t₃, table, htold₃, htable, hemits₃, hfinishes⟩ :=
        ih he₃ hholds₂ (hnext.rel (hcalls.tail (.done _))) (hsum₂.prints os₃) rfl
      rw [List.nil_append, List.append_assoc, hevs] at htold₃ htable
      have hemits : Emits w.os w'.os (n₁ + n₂ + n₃) (t₁ ++ t₂ ++ (t₃ ++ table)) :=
        (hemits₁.trans hemits₂).trans (hemits₃.of_left rfl)
      rw [← List.append_assoc] at hemits
      exact ⟨w', n₁ + n₂ + n₃, t₁ ++ t₂ ++ t₃, table, (htold₁.trans htold₂).trans htold₃, htable, hemits,
        (hleads.trans (hwakes.leads (hnext.stays hcalls))).finishes hfinishes⟩

end Inotifywatch

end

/-! ## Before the loop -/

/-- A program that, if it returns true, ends with `last`. -/
def EndsWith {σ : Type} [Sys σ] (S : Set Kind) (last : M σ Unit) (m : M σ Bool) : Prop :=
  ∀ w w', w.lib.store.WellIndexed → m w = .ok (true, w') →
    ∃ w₁, Effects S w w₁ ∧ last w₁ = .ok ((), w')

section

variable [Sys σ] {S : Set Kind} {last : M σ Unit} {w w' : World σ}

namespace EndsWith

theorem refuse : EndsWith S last (pure false) := fun _ _ _ h => nomatch h

theorem here : EndsWith S last (last >>= fun _ => pure true) := by
  intro w w' _ hrun
  obtain ⟨_, w₁, hlast, hrest⟩ := Prog.bind_ok hrun
  cases hrest
  exact ⟨w, .refl w, hlast⟩

theorem bind {x : M σ α} {f : α → M σ Bool} (hx : Sound S x) (hf : ∀ a, EndsWith S last (f a)) :
    EndsWith S last (x >>= f) := by
  intro w w' hw hrun
  obtain ⟨a, w₁, hfirst, hrest⟩ := Prog.bind_ok hrun
  have he := ((hx w hw).ok hfirst).1
  obtain ⟨w₂, he', hlast⟩ := hf a w₁ w' (he.wellIndexed hw) hrest
  exact ⟨w₂, he.trans he', hlast⟩

theorem ite {p : Prop} [Decidable p] {m n : M σ Bool} (hm : EndsWith S last m)
    (hn : EndsWith S last n) : EndsWith S last (if p then m else n) := by
  split
  · exact hm
  · exact hn

end EndsWith

namespace Inotifywatch

/-- The last thing done before the loop is to start counting. -/
theorem establish_ends (hw : Kind.watch ∈ S) (hl : Kind.lifecycle ∉ S) (fuel : Nat) (o : Opts)
    (list : FileList) : EndsWith S initializeStats (establish fuel o list : M σ Bool) := by
  refine .ite (.bind (ceprint_sound _) fun _ => .refuse) (.bind (ceprint_sound _) fun _ => ?_)
  refine .bind (watchList_sound hw hl (fun _ => .exec fun os => .fwrite _ _ os) (fun f => ?_)
    (fun f => ?_) _ _ _ _ _ _ _) fun _ => .ite .refuse ?_
  · exact .ite (ceprint_sound _) (.ite (ceprint_sound _) (.pure _))
  · exact .ite (ceprint_sound _) (.pure _)
  · refine .bind getNumWatches_sound fun _ => .bind (.ite (ceprint_sound _) (.pure _)) fun _ => ?_
    refine .bind (ceprint_sound _) fun _ => .ite (.bind (ceprint_sound _) fun _ => .refuse) ?_
    exact .bind (.ite (ceprint_sound _) (.pure _)) fun _ => .here

/-- Listing the files reads no records. -/
theorem listed_firstByte {o : Opts} (ho : o.fanotify = false) {args : List Bytes} {os : σ}
    {list : FileList} (hrun : listed o args { lib := Inotifytools.new, os } = .ok (some list, w)) :
    w.lib.stream.firstByte = 0 := by
  obtain ⟨ok, w₁, hinstall, hrest⟩ := Prog.bind_ok hrun
  have he₁ : Effects {.config} _ w₁ :=
    ((Filters.install_sound (S := {.config}) rfl _ _ _ Store.wellIndexed_empty).ok hinstall).1
  cases ok with
  | false => cases hrest
  | true =>
      obtain ⟨ok, w₂, hinit, hrest⟩ := Prog.bind_ok hrest
      cases ok with
      | false =>
          obtain ⟨_, _, -, hnone⟩ := Prog.bind_ok hrest
          cases hnone
      | true =>
          rw [ho] at hinit
          have hw₁ := he₁.wellIndexed Store.wellIndexed_empty
          have hw₂ := ((init_sound (S := Set.univ) trivial trivial trivial false o.filesystem _ _
            hw₁).ok hinit).1.wellIndexed hw₁
          have he₂ : Effects ∅ w₂ w := ((constructPathList_sound _ _ _ hw₂).ok hrest).1
          rw [he₂.stream_eq nofun]
          refine init_run_firstByte ((he₁.initialized_eq nofun).trans rfl) ?_ hinit
          rw [he₁.stream_eq nofun]
          rfl

/-- What is known of a program that has started counting with inotify. -/
theorem prepared_sums (hz : ¬ AnsweredZero σ) {o : Opts} (ho : o.fanotify = false)
    {args : List Bytes} {os : σ} {fuel : Nat}
    (hprep : prepare fuel o args { lib := Inotifytools.new, os } = .ok (true, w)) :
    SumsUp w.lib.store.nameOf w [] ∧ w.lib.stream.firstByte = 0 := by
  rw [prepare_eq] at hprep
  obtain ⟨list, w₁, hlist, hrest⟩ := Prog.bind_ok hprep
  cases list with
  | none => cases hrest
  | some list =>
      have hw₁ : Inotify w₁ := (Tool.watch o).listed_inotify hz ho hlist
      have he₁ := ((listed_sound (S := Set.univ) trivial trivial trivial o args _
        Store.wellIndexed_empty).ok hlist).1
      obtain ⟨w₂, he₂, hstart⟩ :=
        establish_ends (S := {.watch}) rfl nofun fuel o list w₁ w hw₁.wellIndexed hrest
      have hw₂ : Inotify w₂ := hw₁.effects hz he₂ nofun
      have he₃ : Effects {.stats} w₂ w :=
        ((initializeStats_sound (S := {.stats}) rfl w₂ hw₂.wellIndexed).ok hstart).1
      have hfresh : Fresh w₂ := he₂.fresh hw₁.wellIndexed
        (he₁.fresh Store.wellIndexed_empty (fresh_new os))
      refine ⟨⟨hw₂.effects hz he₃ nofun, fun _ => rfl,
        initializeStats_counts hw₂.initialized hw₂.wellIndexed hfresh hstart⟩, ?_⟩
      rw [he₃.stream_eq nofun, he₂.stream_eq nofun]
      exact listed_firstByte ho hlist

end Inotifywatch

end

/-! ## The whole program -/

section

variable [Sys σ] {w : World (Taped σ)} {o : Inotifywatch.Opts} {rss : List (List Record)}
  {rest : List (List (List Record))}

namespace Inotifywatch

/-- **What inotifywatch prints, and how it ends.** With inotify, unless it follows moves, and while the
    kernel feeds it records and interrupts it by signals whatever it prints: for each request it prints
    a table that counts the events let through by then, and when it is asked to leave the table of all
    of them, and succeeds. -/
theorem tables (hz : ¬ AnsweredZero (Taped σ)) (ho : o.fanotify = false) (hrec : o.recursive = 0)
    {args : List Bytes} {os : Taped σ} {fuel : Nat}
    (hprep : prepare fuel o args { lib := Inotifytools.new, os } = .ok (true, w))
    (hfeeds : Sessions w.lib.fd (.one blockingTimeout) rss rest w.os) :
    ∃ w' n text table,
      Told o w.lib.store.nameOf [] (w.passed (rss :: rest).flatten.flatten) n text ∧
      Table o w.lib.store.nameOf (w.passed (rss :: rest).flatten.flatten) table ∧
      Emits w.os w'.os n (text ++ table) ∧ Finishes o w exitSuccess w' := by
  obtain ⟨hsum, hfirst⟩ := prepared_sums hz ho hprep
  have hholds : Holds w.lib.stream [] := ⟨.inl ⟨hfirst, rfl⟩, fun _ => hfirst⟩
  exact tables_of_awaits hz hsum.inotify hrec (.refl w) hholds hfeeds hsum rfl

end Inotifywatch

end

/-! ## With signals -/

section

variable [Sys σ] {n m : Nat} {w w' : World σ} {o : Inotifywatch.Opts}

namespace Inotifywatch

theorem watchLoop_extends (h : n ≤ m) (moves : MoveTracker) :
    Prog.Extends (watchLoop o n moves : M σ Int32) (watchLoop o m moves) := by
  have hround : ∀ {n m : Nat}, n ≤ m → ∀ moves : MoveTracker,
      Prog.Extends (watchRound n o moves : M σ WatchRound) (watchRound m o moves) := by
    intro n m h moves
    refine .next fun _ => .bind (nextEvents_extends h _ _) fun event => .next fun _ => ?_
    cases event with
    | none => exact .refl _
    | some event => exact .first (.ite (.refl _) (MoveTracker.handle_extends h _ _ _ _ _ _))
  induction n generalizing m moves with
  | zero => exact .fault _ _
  | succ n ih =>
      obtain ⟨m, rfl⟩ := Nat.exists_eq_add_of_le' (Nat.le_of_add_left_le h)
      refine .bind (hround (by omega) _) fun round => ?_
      cases round with
      | exit | finish => exact .refl _
      | again moves => exact ih (by omega) moves

/-- What a run with some fuel leaves, the program leaves. -/
theorem Finishes.of_result {code : Int32} (h : Finishes o w code w')
    (hrun : (watchLoop o n {}).result w = some code) : w' = (watchLoop o n {}).after w := by
  obtain ⟨fuel₀, h⟩ := h
  have hn := watchLoop_extends (Nat.le_max_right fuel₀ n) {} _ _ (Prog.run_of_result hrun)
  exact (Prod.mk.inj (Except.ok.inj ((h _ (Nat.le_max_left _ _)).symm.trans hn))).2

end Inotifywatch

end

namespace Alarmed

def modifiedFile : Record := { wd := 1, mask := 2, cookie := 0, name := ascii "a" ++ [0, 0] }

def modifiedTmp : Record := { wd := 1, mask := 2, cookie := 0, name := ascii "tmp" ++ [0] }

def movedFile : Record := { wd := 1, mask := 0x40, cookie := 7, name := ascii "b" ++ [0] }

/-- Printing and asking for signals touches neither the queue nor the signals to come. -/
structure Undisturbed (a a' : Alarmed) : Prop where
  chunks : a'.desk.chunks = a.desk.chunks
  signals : a'.signals = a.signals
  done : a'.done = a.done

theorem undisturbed {d d' : Taped Alarmed} (h : ReflTransGen ReportCall d d') :
    Undisturbed d.os d'.os := by
  induction h with
  | refl => exact ⟨rfl, rfl, rfl⟩
  | tail _ hcall ih =>
      cases hcall with
      | fwrite | printNow | done => exact ⟨ih.chunks, ih.signals, ih.done⟩

/-- Chunks that can be read. -/
structure Fits (rss : List (List Record)) : Prop where
  chunk : ∀ rs ∈ rss, rs ≠ [] ∧ (encodeAll rs).length ≤ readCap
  all : (rss.map encodeAll).flatten.length < 2 ^ 32

/-- What can be read is fed. -/
theorem feeds {fd : Int32} {c : Call} (hone : c.numEvents = 1) {rss : List (List Record)}
    {ends : Taped Alarmed → Prop} {d : Taped Alarmed} (hchunks : d.os.desk.chunks = rss.map encodeAll)
    (hdone : d.os.done = false) (hfits : Fits rss)
    (hends : ∀ d' : Taped Alarmed, d'.os.desk.chunks = [] → d'.os.signals = d.os.signals →
      d'.os.done = false → ends d') :
    Feeds (ReflTransGen ReportCall) fd c Working ends rss d := by
  induction rss generalizing d with
  | nil =>
      intro d₁ h
      have h₁ := undisturbed h
      exact ⟨h₁.done.trans hdone, hends d₁ (h₁.chunks.trans hchunks) h₁.signals (h₁.done.trans hdone)⟩
  -- what is read stands in the first chunk; the rest is not touched
  | cons rs rss ih =>
      intro d₁ h
      have h₁ := undisturbed h
      obtain ⟨hne, hcap⟩ := hfits.chunk rs List.mem_cons_self
      have hall := hfits.all
      have hd₁ : d₁.os.desk.chunks = encodeAll rs :: rss.map encodeAll := h₁.chunks.trans hchunks
      simp only [List.map_cons, List.flatten_cons, List.length_append] at hall
      have hpoll : Sys.ppoll fd (polledFor c.timeout) d₁ = (1, d₁) := by
        show Taped.pass (fun _ => Alarmed.ppoll d₁.os) d₁ = _
        unfold Taped.pass Alarmed.ppoll
        rw [hd₁, List.isEmpty_cons, if_neg Bool.false_ne_true]
      have hready : Sys.fionread fd d₁ =
          ((0, UInt32.ofNat ((encodeAll rs).length + (rss.map encodeAll).flatten.length)), d₁) := by
        show ((0, UInt32.ofNat d₁.os.desk.chunks.flatten.length), d₁) = _
        rw [hd₁, List.flatten_cons, List.length_append]
      have hread : Sys.read fd readCap d₁ = (some (encodeAll rs), { d₁ with
          os := { d₁.os with desk := { d₁.os.desk with chunks := rss.map encodeAll } } }) := by
        show Taped.pass (Alarmed.pass (Sys.read fd readCap)) d₁ = _
        unfold Taped.pass Alarmed.pass
        rw [Desk.read_chunk hd₁ hcap]
      refine ⟨h₁.done.trans hdone, _,
        answered_of_chunk hone hne hcap hpoll hready (by omega) (by omega) hread, ?_⟩
      exact ih rfl (h₁.done.trans hdone)
        ⟨fun rs hrs => hfits.chunk rs (List.mem_cons_of_mem _ hrs), by omega⟩
        fun d' hd' hs' => hends d' hd' (hs'.trans h₁.signals)

/-- When nothing can be read, the next signal interrupts the poll. -/
theorem interrupts {fd : Int32} {c : Call} {next : Taped Alarmed → Prop} {d : Taped Alarmed}
    {s : Signal} {chunks : List Bytes} {signals : List (Signal × List Bytes)}
    (hempty : d.os.desk.chunks = []) (hsignals : d.os.signals = (s, chunks) :: signals)
    (hnext : next { d with os := { d.os with desk := { d.os.desk with chunks }, signals
                                             errno := 4 }.raise s }) : Interrupts fd c next d := by
  have hpoll : Sys.ppoll fd (polledFor c.timeout) d = (-1, { d with
      os := { d.os with desk := { d.os.desk with chunks }, signals, errno := 4 }.raise s }) := by
    show Taped.pass (fun _ => Alarmed.ppoll d.os) d = _
    unfold Taped.pass Alarmed.ppoll
    rw [hempty, List.isEmpty_nil, if_pos rfl, hsignals]
  unfold Interrupts
  rw [hpoll]
  exact ⟨(by decide : (-1 : Int32) < 0), by cases s <;> rfl, hnext⟩

/-- A desk that asks for a table after each session but the last, and then to leave. -/
theorem sessions {fd : Int32} {c : Call} (hone : c.numEvents = 1) {rss : List (List Record)}
    {rest : List (List (List Record))} {d : Taped Alarmed}
    (hchunks : d.os.desk.chunks = rss.map encodeAll) (hsignals : d.os.signals =
      rest.map (fun rss => (Signal.usr1, rss.map encodeAll)) ++ [(Signal.alrm, [])])
    (hdone : d.os.done = false) (hfits : ∀ rss' ∈ rss :: rest, Fits rss') :
    Sessions fd c rss rest d := by
  induction rest generalizing rss d with
  | nil =>
      refine feeds hone hchunks hdone (hfits _ List.mem_cons_self) fun d' hempty hsame _ => ?_
      exact interrupts hempty (hsame.trans hsignals) fun os h => (undisturbed h).done
  | cons rss' rest ih =>
      refine feeds hone hchunks hdone (hfits _ List.mem_cons_self) fun d' hempty hsame hd => ?_
      exact interrupts hempty (hsame.trans hsignals)
        (ih rfl rfl hd fun rss hrss => hfits rss (List.mem_cons_of_mem _ hrss))

/-- The directory "d" is watched; two events can be read, and one after a table was asked for. -/
def busy : Taped Alarmed :=
  { os :=
      { desk := { dirs := [ascii "d"], chunks := [encodeAll [modifiedFile, modifiedTmp]] }
        signals := [(.usr1, [encodeAll [movedFile]]), (.alrm, [])] } }

end Alarmed

namespace Inotifywatch

/-- `inotifywatch --exclude tmp`. -/
def excludingTmp : Opts := { filters := { exc := some (ascii "tmp") } }

/-- It has set up its watch of "d". -/
def watchingBusy : World (Taped Alarmed) :=
  (prepare 9 excludingTmp [ascii "d"]).after { lib := Inotifytools.new, os := Alarmed.busy }

/-- A file is modified, and one that is excluded; a table is asked for; a file is moved away, and the
    program has to leave. -/
theorem tables_alarmed :
    ∃ w' text table,
      Told excludingTmp watchingBusy.lib.store.nameOf []
        [Alarmed.modifiedFile.event, Alarmed.movedFile.event] 1 text ∧
      Table excludingTmp watchingBusy.lib.store.nameOf
        [Alarmed.modifiedFile.event, Alarmed.movedFile.event] table ∧
      w'.os.tape = text ++ table ∧ Finishes excludingTmp watchingBusy exitSuccess w' ∧
      w'.os.tape = ascii ("total  modify  filename\n" ++
        "1      1       d/\n" ++
        "\n" ++
        "total  modify  moved_from  filename\n" ++
        "2      1       1           d/\n") := by
  have hz : ¬ AnsweredZero (Taped Alarmed) := fun ⟨fd, p, mask, d, hzero⟩ =>
    Desk.kernelWatches.not_answeredZero ⟨fd, p, mask, d.os.desk, hzero⟩
  have hprep : prepare 9 excludingTmp [ascii "d"] { lib := Inotifytools.new, os := Alarmed.busy } =
      .ok (true, watchingBusy) := Prog.run_of_result (by decide +kernel)
  have hfits : ∀ rss ∈ [[[Alarmed.modifiedFile, Alarmed.modifiedTmp]], [[Alarmed.movedFile]]],
      Alarmed.Fits rss := by
    refine List.forall_mem_cons.2 ⟨⟨?_, by decide⟩, List.forall_mem_singleton.2 ⟨?_, by decide⟩⟩
    · exact List.forall_mem_singleton.2 ⟨by simp, by decide⟩
    · exact List.forall_mem_singleton.2 ⟨by simp, by decide⟩
  have hsessions : Sessions watchingBusy.lib.fd (.one blockingTimeout)
      [[Alarmed.modifiedFile, Alarmed.modifiedTmp]] [[[Alarmed.movedFile]]] watchingBusy.os :=
    Alarmed.sessions rfl (by decide +kernel) (by decide +kernel) (by decide +kernel) hfits
  have hpassed : watchingBusy.passed
      [[[Alarmed.modifiedFile, Alarmed.modifiedTmp]], [[Alarmed.movedFile]]].flatten.flatten =
      [Alarmed.modifiedFile.event, Alarmed.movedFile.event] := by decide +kernel
  obtain ⟨w', n, text, table, htold, htable, ⟨htape, hrequests⟩, hfinishes⟩ :=
    tables hz rfl rfl hprep hsessions
  have hw' : w' = (watchLoop excludingTmp 9 {}).after watchingBusy :=
    hfinishes.of_result (by decide +kernel : _ = some exitSuccess)
  have hsilent : watchingBusy.os.tape = [] ∧ watchingBusy.os.requests = 0 := by decide +kernel
  have hasked : w'.os.requests = 1 := by
    rw [hw']
    decide +kernel
  rw [hsilent.1, List.nil_append] at htape
  rw [hsilent.2, hasked, Nat.zero_add] at hrequests
  rw [hpassed] at htold htable
  rw [← hrequests] at htold
  refine ⟨w', text, table, htold, htable, htape, hfinishes, ?_⟩
  rw [hw']
  decide +kernel

end Inotifywatch

end InotifyTools
