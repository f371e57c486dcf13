import InotifyTools.Proofs.Counting
import InotifyTools.Proofs.EventOptions
import Mathlib.Data.Bool.AllAny
import Mathlib.Data.List.Permutation

set_option autoImplicit false

/-! # Sorted tables

The key a table is sorted by is written by the option parser and read back by the library. -/

namespace InotifyTools

variable {σ : Type} {w w' : World σ}

/-! ## The watches of a table -/

/-- The watches in the order of their descriptors. -/
def Store.listed (s : Store) : List (Nat × Watch) :=
  s.byWd.values.filterMap fun id => s.watches[id]?.map fun v => (id, v)

theorem watchesOf_eq {ids : List Nat} (h : ∀ id ∈ ids, ∃ v, w.lib.store.watches[id]? = some v) :
    watchesOf ids w
      = .ok (ids.filterMap fun id => w.lib.store.watches[id]?.map fun v => (id, v), w) := by
  induction ids with
  | nil => rfl
  | cons id ids ih =>
      obtain ⟨v, hv⟩ := h id List.mem_cons_self
      unfold watchesOf
      rw [Prog.bind_run_ok (watch_run hv),
        Prog.bind_run_ok (ih fun i hi => h i (List.mem_cons_of_mem _ hi)),
        List.filterMap_cons_some (by rw [hv]; rfl)]
      rfl

/-- The watches that are listed, and what is indexed. -/
theorem mem_listed {s : Store} (hs : s.WellIndexed) {p : Nat × Watch} :
    p ∈ s.listed ↔ s.byWd[p.2.wd]? = some p.1 ∧ s.watches[p.1]? = some p.2 := by
  obtain ⟨id, v⟩ := p
  unfold Store.listed
  rw [List.mem_filterMap]
  constructor
  · rintro ⟨i, hi, hp⟩
    obtain ⟨u, hu, he⟩ := Option.map_eq_some_iff.1 hp
    cases he
    obtain ⟨wd, hwd⟩ := (KeyedMap.mem_values _ _).1 hi
    cases hs.byWd.key_eq hwd hu
    exact ⟨hwd, hu⟩
  · rintro ⟨hwd, hv⟩
    exact ⟨id, (KeyedMap.mem_values _ _).2 ⟨_, hwd⟩, by rw [hv]; rfl⟩

/-- Watches that are listed have descriptors of their own. -/
theorem listed_wd_ne {s : Store} (hs : s.WellIndexed) :
    s.listed.Pairwise fun a b => a.2.wd ≠ b.2.wd := by
  have hnodup : s.byWd.values.Nodup := KeyedMap.nodup_values fun _ _ _ => hs.byWd.inj
  have hkey : ∀ (id : Nat) (v : Watch), id ∈ s.byWd.values → s.watches[id]? = some v →
      s.byWd[v.wd]? = some id := by
    intro id v hid hv
    obtain ⟨wd, hwd⟩ := (KeyedMap.mem_values _ _).1 hid
    cases hs.byWd.key_eq hwd hv
    exact hwd
  refine List.pairwise_filterMap.2 (hnodup.imp_of_mem fun {i j} hi hj hne p hp q hq heq => hne ?_)
  obtain ⟨v, hv, rfl⟩ := Option.map_eq_some_iff.1 hp
  obtain ⟨v', hv', rfl⟩ := Option.map_eq_some_iff.1 hq
  have hi' := hkey i v hi hv
  have hj' := hkey j v' hj hv'
  dsimp only at heq
  rw [heq] at hi'
  exact Option.some.inj (hi'.symm.trans hj')

/-! ## The order -/

/-- `a` comes before `b`: it has the smaller count, or with `desc` the larger one, or the same count
    and the smaller descriptor. -/
def Precedes (count : WatchStats → UInt32) (desc : Bool) (a b : Nat × Watch) : Prop :=
  (if desc then count b.2.stats < count a.2.stats else count a.2.stats < count b.2.stats) ∨
    count a.2.stats = count b.2.stats ∧ a.2.wd < b.2.wd

/-- The count the library compares. -/
def countOf (event : Int32) (stats : WatchStats) : UInt32 := (stats.get event).getD 0

/-- Counts as numbers, and ties by descriptor. -/
theorem sortsBefore_iff (event : Int32) (asc : Bool) (a b : Nat × Watch) :
    sortsBefore event asc a b = true ↔
      (if asc then (countOf event a.2.stats).toNat < (countOf event b.2.stats).toNat
        else (countOf event b.2.stats).toNat < (countOf event a.2.stats).toNat) ∨
      (countOf event a.2.stats).toNat = (countOf event b.2.stats).toNat ∧
        a.2.wd.toInt ≤ b.2.wd.toInt := by
  have hbefore : sortsBefore event asc a b =
      if countOf event a.2.stats = countOf event b.2.stats then decide (a.2.wd ≤ b.2.wd)
      else if asc then decide (countOf event a.2.stats ≤ countOf event b.2.stats)
      else decide (countOf event b.2.stats ≤ countOf event a.2.stats) := rfl
  rw [hbefore]
  simp only [← UInt32.toNat_inj, UInt32.le_iff_toNat_le, Int32.le_iff_toInt_le]
  cases asc <;> simp only [if_true, Bool.false_eq_true, if_false] <;> split <;>
    simp only [decide_eq_true_eq] <;> omega

theorem sortsBefore_trans (event : Int32) (asc : Bool) (a b c : Nat × Watch)
    (hab : sortsBefore event asc a b = true) (hbc : sortsBefore event asc b c = true) :
    sortsBefore event asc a c = true := by
  rw [sortsBefore_iff] at *
  cases asc
  · simp only [Bool.false_eq_true, if_false] at *
    omega
  · simp only [if_true] at *
    omega

theorem sortsBefore_total (event : Int32) (asc : Bool) (a b : Nat × Watch) :
    (sortsBefore event asc a b || sortsBefore event asc b a) = true := by
  rw [Bool.or_eq_true, sortsBefore_iff, sortsBefore_iff]
  cases asc
  · simp only [Bool.false_eq_true, if_false]
    omega
  · simp only [if_true]
    omega

theorem precedes_of_sortsBefore {event : Int32} {asc : Bool} {a b : Nat × Watch}
    (h : sortsBefore event asc a b = true) (hne : a.2.wd ≠ b.2.wd) :
    Precedes (countOf event) (!asc) a b := by
  rw [sortsBefore_iff] at h
  rw [Ne, ← Int32.toInt_inj] at hne
  unfold Precedes
  simp only [← UInt32.toNat_inj, UInt32.lt_iff_toNat_lt, Int32.lt_iff_toInt_lt]
  cases asc
  · simp only [Bool.false_eq_true, if_false, Bool.not_false, if_true] at *
    omega
  · simp only [Bool.false_eq_true, if_false, Bool.not_true, if_true] at *
    omega

/-- The event and the direction that a sort key stands for. -/
def decoded (sortEvent : Int32) : Int32 × Bool :=
  if sortEvent = -1 then (0, false)
  else if sortEvent < 0 then (-sortEvent, false)
  else (sortEvent, true)

/-- A table holds the watches that are listed, in the order its key stands for. -/
theorem watchesSortedByEvent_run (hw : w.lib.store.WellIndexed) (sortEvent : Int32) :
    ∃ ws : List (Nat × Watch),
      watchesSortedByEvent sortEvent w = .ok (ws.map fun p => (p.1, p.2.stats), w) ∧
      ws.Perm w.lib.store.listed ∧
      ws.Pairwise (Precedes (countOf (decoded sortEvent).1) (!(decoded sortEvent).2)) := by
  let ws := w.lib.store.listed.mergeSort (sortsBefore (decoded sortEvent).1 (decoded sortEvent).2)
  have hperm : ws.Perm w.lib.store.listed := List.mergeSort_perm ..
  have hne : ws.Pairwise fun a b => a.2.wd ≠ b.2.wd :=
    (hperm.pairwise_iff fun h => Ne.symm h).2 (listed_wd_ne hw)
  have hsorted : ws.Pairwise fun a b =>
      sortsBefore (decoded sortEvent).1 (decoded sortEvent).2 a b = true :=
    List.pairwise_mergeSort (sortsBefore_trans _ _) (sortsBefore_total _ _) _
  refine ⟨ws, ?_, hperm, hsorted.imp₂ (fun _ _ => precedes_of_sortsBefore) hne⟩
  unfold watchesSortedByEvent
  show (getLib >>= _) w = _
  rw [getLib_bind, Prog.bind_run_ok (watchesOf_eq (watches_of_byWd hw))]
  rfl

/-! ## The sort option -/

/-- The options that choose a sort key. -/
def sortOptions (opts : List (Char × Option CString)) : List (Char × Option CString) :=
  opts.filter fun o => o.1 = 'a' ∨ o.1 = 'd'

/-- The argument is `total`, in any case. -/
def IsTotal (optarg : Option CString) : Prop :=
  eqIgnoreAsciiCase (optText optarg) (ascii "total") = true

instance (optarg : Option CString) : Decidable (IsTotal optarg) :=
  inferInstanceAs (Decidable (_ = true))

/-- The sort key that an option writes. -/
def encoded (desc : Bool) (optarg : Option CString) : Int32 :=
  if IsTotal optarg then (if desc then -1 else 0)
  else if desc then -optMask optarg else optMask optarg

/-- What an accepted option leaves. -/
def Chosen (opt : Char) (optarg : Option CString) (o : Inotifywatch.CommandLine) : Prop :=
  o.sort = encoded (opt = 'd') optarg ∧ (IsTotal optarg ∨ optMask optarg ≠ -1)

variable [Sys σ]

namespace Inotifywatch

/-- A key that is read as an event list, unless that is refused. -/
theorem sortKey_accepts (optarg : Option CString) {P : CommandLine → Prop} {f : Int32 → CommandLine}
    (h : optMask optarg ≠ -1 → P (f (optMask optarg))) :
    Accepts P (do
      match ← sortKey (optText optarg) with
      | none => return none
      | some sort => return some (f sort) : M σ _) := by
  intro o w w' hrun
  obtain ⟨key, w₁, hkey, hrest⟩ := Prog.bind_ok hrun
  obtain ⟨os, hread⟩ := strToEvent_run optarg w
  unfold sortKey at hkey
  rw [Prog.bind_run_ok hread] at hkey
  by_cases hneg : optMask optarg = -1
  · rw [if_pos hneg] at hkey
    cases hkey
    cases hrest
  · rw [if_neg hneg] at hkey
    cases hkey
    cases hrest
    exact h hneg

theorem parseOpt_sort (help : Bytes) {opt : Char} (hopt : opt = 'a' ∨ opt = 'd')
    (optarg : Option CString) (o : CommandLine) :
    Accepts (Chosen opt optarg) (parseOpt help opt optarg o : M σ _) := by
  rcases hopt with rfl | rfl
  · refine .ite (.bind fun _ => .refuse) (.cases (fun htotal => ?_) fun htotal => ?_)
    · exact .accept ⟨(if_pos htotal).symm, .inl htotal⟩
    · refine .ite (.bind fun _ => .refuse) (.ite (.bind fun _ => .refuse) ?_)
      exact sortKey_accepts optarg (f := fun sort => { o with sort, sortSet := true })
        fun hneg => ⟨(if_neg htotal).symm, .inr hneg⟩
  · refine .ite (.bind fun _ => .refuse) (.cases (fun htotal => ?_) fun htotal => ?_)
    · exact .accept ⟨(if_pos htotal).symm, .inl htotal⟩
    · exact sortKey_accepts optarg (f := fun sort => { o with sort := -sort })
        fun hneg => ⟨(if_neg htotal).symm, .inr hneg⟩

/-- No other option touches the sort key. -/
theorem parseOpt_keeps_sort (help : Bytes) {opt : Char} (hopt : ¬ (opt = 'a' ∨ opt = 'd'))
    (optarg : Option CString) (o : CommandLine) :
    Accepts (fun o' => o'.sort = o.sort) (parseOpt help opt optarg o : M σ _) := by
  unfold parseOpt
  dsimp only
  split
  case h_16 => exact absurd (.inl rfl) hopt
  case h_17 => exact absurd (.inr rfl) hopt
  case h_14 =>
    refine .bind fun timeout => ?_
    cases timeout with
    | none => exact .refuse
    | some timeout => exact .accept rfl
  case h_15 =>
    refine .bind fun event => ?_
    cases event with
    | none => exact .refuse
    | some event => exact .accept rfl
  all_goals first
    | exact .accept rfl
    | exact .bind fun _ => .refuse
    | exact .ite (.bind fun _ => .refuse) (.accept rfl)

theorem parseEach_unsorted {help : Bytes} {opts : List (Char × Option CString)}
    (hnone : sortOptions opts = []) {o o' : CommandLine} {w w' : World σ}
    (hrun : parseEach (parseOpt help) opts o w = .ok (some o', w')) : o'.sort = o.sort := by
  induction opts generalizing o w with
  | nil =>
      cases hrun
      rfl
  | cons p opts ih =>
      obtain ⟨o₁, w₁, hone, hrest⟩ := Prog.bind_ok hrun
      cases o₁ with
      | none => cases hrest
      | some o₁ =>
          rw [sortOptions, List.filter_eq_nil_iff, List.forall_mem_cons] at hnone
          have hopt : ¬ (p.1 = 'a' ∨ p.1 = 'd') := by simpa using hnone.1
          exact (ih (List.filter_eq_nil_iff.2 hnone.2) hrest).trans
            (parseOpt_keeps_sort help hopt p.2 o o₁ w w₁ hone)

/-- A single sort option decides the key. -/
theorem parseEach_sorted {help : Bytes} {opts : List (Char × Option CString)} {opt : Char}
    {optarg : Option CString} (hsingle : sortOptions opts = [(opt, optarg)]) {o o' : CommandLine}
    {w w' : World σ} (hrun : parseEach (parseOpt help) opts o w = .ok (some o', w')) :
    Chosen opt optarg o' := by
  induction opts generalizing o w with
  | nil => cases hsingle
  | cons p opts ih =>
      obtain ⟨o₁, w₁, hone, hrest⟩ := Prog.bind_ok hrun
      cases o₁ with
      | none => cases hrest
      | some o₁ =>
          by_cases hopt : p.1 = 'a' ∨ p.1 = 'd'
          · rw [sortOptions, List.filter_cons_of_pos (by simpa using hopt), List.cons.injEq] at hsingle
            obtain ⟨rfl, hnone⟩ := hsingle
            obtain ⟨hsort, hread⟩ := parseOpt_sort help hopt optarg o o₁ w w₁ hone
            exact ⟨(parseEach_unsorted hnone hrest).trans hsort, hread⟩
          · rw [sortOptions, List.filter_cons_of_neg (by simpa using hopt)] at hsingle
            exact ih hsingle hrest

end Inotifywatch

/-! ## Honoured options -/

/-- `count` is the counter that the argument names: the total, or that of the one event named. -/
inductive NamesCounter (optarg : Option CString) (count : WatchStats → UInt32) : Prop
  | total (h : IsTotal optarg) (hcount : ∀ stats, count stats = stats.total)
  | event (h : NamesEvents (optText optarg))
      (hcount : ∀ stats : WatchStats, stats.get (namedMask (optText optarg)) = some (count stats))

/-- Under the key `sort` every table is sorted by the counter that the argument names. -/
def Honours (σ : Type) (desc : Bool) (optarg : Option CString) (sort : Int32) : Prop :=
  ∃ count, NamesCounter optarg count ∧ ∀ w : World σ, w.lib.store.WellIndexed →
    ∃ ws : List (Nat × Watch),
      watchesSortedByEvent sort w = .ok (ws.map fun p => (p.1, p.2.stats), w) ∧
      ws.Perm w.lib.store.listed ∧ ws.Pairwise (Precedes count desc)

/-- The argument is `total`, or names one event that is counted, not to be sorted descending if that
    is `access`. -/
def Sortable (desc : Bool) (optarg : Option CString) : Prop :=
  IsTotal optarg ∨ NamesEvents (optText optarg) ∧
    WatchStats.Counted (namedMask (optText optarg)) ∧
    ¬ (desc = true ∧ namedMask (optText optarg) = inAccess)

/-! ## Keys read back -/

/-- The masks that have a counter of their own. -/
theorem counted_mem {m : Int32} (h : WatchStats.Counted m) :
    m ∈ [inAccess, inModify, inAttrib, inCloseWrite, inCloseNowrite, inOpen, inMovedFrom, inMovedTo,
      inCreate, inDelete, inDeleteSelf, inUnmount, inMoveSelf, 0] := by
  by_contra hnot
  simp only [List.mem_cons, List.not_mem_nil, or_false, not_or] at hnot
  obtain ⟨h1, h2, h3, h4, h5, h6, h7, h8, h9, h10, h11, h12, h13, h14⟩ := hnot
  rw [WatchStats.Counted, WatchStats.get, if_neg h1, if_neg h2, if_neg h3, if_neg h4, if_neg h5,
    if_neg h6, if_neg h7, if_neg h8, if_neg h9, if_neg h10, if_neg h11, if_neg h12, if_neg h13,
    if_neg h14] at h
  cases h

/-- A counter is there in all statistics. -/
theorem get_countOf {m : Int32} (h : WatchStats.Counted m) (stats : WatchStats) :
    stats.get m = some (countOf m stats) := by
  have hall : ∀ m ∈ [inAccess, inModify, inAttrib, inCloseWrite, inCloseNowrite, inOpen,
      inMovedFrom, inMovedTo, inCreate, inDelete, inDeleteSelf, inUnmount, inMoveSelf, 0],
      (stats.get m).isSome := by
    simp [WatchStats.get, inAccess, inModify, inAttrib, inCloseWrite, inCloseNowrite, inOpen,
      inMovedFrom, inMovedTo, inCreate, inDelete, inDeleteSelf, inUnmount, inMoveSelf]
  obtain ⟨c, hc⟩ := Option.isSome_iff_exists.1 (hall m (counted_mem h))
  rw [countOf, hc]
  rfl

/-- A key of one bit is read back as it was written, but for `access` descending. -/
theorem decoded_key {m : Int32} (h : WatchStats.Counted m) (hzero : m ≠ 0) (desc : Bool)
    (haccess : ¬ (desc = true ∧ m = inAccess)) :
    decoded (if desc then -m else m) = (m, !desc) := by
  have hall : ∀ m ∈ [inAccess, inModify, inAttrib, inCloseWrite, inCloseNowrite, inOpen,
      inMovedFrom, inMovedTo, inCreate, inDelete, inDeleteSelf, inUnmount, inMoveSelf, 0],
      m ≠ 0 → ∀ desc : Bool, ¬ (desc = true ∧ m = inAccess) →
        decoded (if desc then -m else m) = (m, !desc) := List.all_iff_forall_prop.1 (by decide)
  exact hall m (counted_mem h) hzero desc haccess

theorem decoded_total (desc : Bool) : decoded (if desc then -1 else 0) = (0, !desc) := by
  cases desc <;> decide

/-- A watch with the more accesses. -/
def watchA : Watch where
  fid := none
  filename := cstring (ascii "a")
  wd := 1
  dirf := 0
  stats := { access := 1, total := 1 }

/-- A watch with the more events. -/
def watchB : Watch where
  fid := none
  filename := cstring (ascii "b")
  wd := 2
  dirf := 0
  stats := { modify := 5, total := 5 }

def accessStore : Store := (Store.empty.insert watchA).insert watchB

omit [Sys σ] in
/-- Under the key -1 tables are sorted by totals, not by accesses. -/
theorem not_sorted_by_access {count : WatchStats → UInt32}
    (hcount : ∀ stats : WatchStats, count stats = stats.access) (hlib : w.lib.store = accessStore)
    {ws : List (Nat × Watch)}
    (hrun : watchesSortedByEvent (-1) w = .ok (ws.map fun p => (p.1, p.2.stats), w))
    (hperm : ws.Perm w.lib.store.listed) : ¬ ws.Pairwise (Precedes count true) := by
  have hlisted : w.lib.store.listed = [(1, watchA), (2, watchB)] := by
    rw [hlib]
    decide +kernel
  have hindexed : w.lib.store.WellIndexed := by
    rw [hlib]
    exact (Store.wellIndexed_empty.insert watchA).insert watchB
  obtain ⟨ws', hrun', hperm', hsorted'⟩ := watchesSortedByEvent_run hindexed (-1)
  have hrows := (Prod.mk.inj (Except.ok.inj (hrun.symm.trans hrun'))).1
  rw [hlisted, List.perm_pair] at hperm hperm'
  rcases hperm with rfl | rfl <;> rcases hperm' with rfl | rfl
  · have hfirst := List.rel_of_pairwise_cons hsorted' List.mem_cons_self
    exact absurd hfirst (by unfold Precedes; decide)
  · cases hrows
  · cases hrows
  · intro hsorted
    have hfirst := List.rel_of_pairwise_cons hsorted List.mem_cons_self
    rw [Precedes, if_pos rfl, hcount, hcount] at hfirst
    exact absurd hfirst (by decide)

/-- **A sort option is honoured if it is sortable.** -/
theorem sort_honoured_iff {g : GetOpt} {opt : Char} {optarg : Option CString}
    (hsingle : sortOptions g.opts = [(opt, optarg)]) {o o' : Inotifywatch.CommandLine}
    {rest : List Bytes} (hrun : Inotifywatch.parseOpts g o w = .ok (some (o', rest), w')) :
    Honours σ (opt = 'd') optarg o'.sort ↔ Sortable (opt = 'd') optarg := by
  obtain ⟨o₁, w₁, w₂, heach, hcheck⟩ := parseCommandLine_ok hrun
  obtain ⟨hsort, -⟩ := Inotifywatch.parseEach_sorted hsingle heach
  rw [Inotifywatch.checkOpts_accepts o₁ o' w₁ w₂ hcheck, hsort]
  generalize decide (opt = 'd') = desc
  constructor
  · rintro ⟨count, hnamed, hall⟩
    by_cases htotal : IsTotal optarg
    · exact .inl htotal
    · cases hnamed with
      | total h => exact absurd h htotal
      | event hnames hcount =>
          obtain ⟨hmask, -, -⟩ := listMask_named hnames
          refine .inr ⟨hnames, Option.isSome_iff_exists.2 ⟨_, hcount {}⟩, ?_⟩
          -- the key of a descending sort by access is -1, which stands for the total
          rintro ⟨rfl, haccess⟩
          have hkey : encoded true optarg = -1 := by
            rw [encoded, if_neg htotal, if_pos rfl, optMask, hmask, haccess]
            decide
          rw [hkey] at hall
          obtain ⟨ws, hrun', hperm, hsorted⟩ :=
            hall { lib := { Inotifytools.new with store := accessStore }, os := w.os }
              ((Store.wellIndexed_empty.insert watchA).insert watchB)
          refine not_sorted_by_access (fun stats => ?_) rfl hrun' hperm hsorted
          have hget := hcount stats
          rw [haccess] at hget
          exact (Option.some.inj hget).symm
  · intro hsortable
    have hall : ∀ {event : Int32}, decoded (encoded desc optarg) = (event, !desc) →
        ∀ w : World σ, w.lib.store.WellIndexed → ∃ ws : List (Nat × Watch),
          watchesSortedByEvent (encoded desc optarg) w
            = .ok (ws.map fun p => (p.1, p.2.stats), w) ∧
          ws.Perm w.lib.store.listed ∧ ws.Pairwise (Precedes (countOf event) desc) := by
      intro event hdecoded w hw
      have hrun' := watchesSortedByEvent_run hw (encoded desc optarg)
      rwa [hdecoded, Bool.not_not] at hrun'
    by_cases htotal : IsTotal optarg
    · refine ⟨countOf 0, .total htotal fun stats => rfl, hall ?_⟩
      rw [encoded, if_pos htotal, decoded_total]
    · obtain ⟨hnames, hcounted, haccess⟩ := hsortable.resolve_left htotal
      obtain ⟨hmask, hzero, -⟩ := listMask_named hnames
      refine ⟨countOf (namedMask (optText optarg)), .event hnames (get_countOf hcounted), hall ?_⟩
      rw [encoded, if_neg htotal, optMask, hmask, decoded_key hcounted hzero desc haccess]

/-- Descending by `open`. -/
theorem sort_honoured_iff_desk :
    ∃ o rest w', Inotifywatch.parseOpts { opts := [('d', some (cstring (ascii "Open")))] } {}
        ({ lib := Inotifytools.new, os := {} } : World Desk) = .ok (some (o, rest), w') ∧
      Honours Desk true (some (cstring (ascii "Open"))) o.sort := by
  have haccepted : ((Inotifywatch.parseOpts { opts := [('d', some (cstring (ascii "Open")))] }
      {}).result ({ lib := Inotifytools.new, os := {} } : World Desk)).map Option.isSome
      = some true := by decide +kernel
  obtain ⟨r, hrun, hr⟩ := Option.map_eq_some_iff.1 haccepted
  obtain ⟨⟨o, rest⟩, rfl⟩ := Option.isSome_iff_exists.1 hr
  have hnames : NamesEvents (optText (some (cstring (ascii "Open")))) := by
    rw [namesEvents_iff]
    decide +kernel
  have hmask : namedMask (optText (some (cstring (ascii "Open")))) = inOpen := by decide +kernel
  have hsingle : sortOptions [('d', some (cstring (ascii "Open")))]
      = [('d', some (cstring (ascii "Open")))] := rfl
  have hsortable : Sortable (decide ('d' = 'd')) (some (cstring (ascii "Open"))) := by
    refine .inr ⟨hnames, ?_, ?_⟩ <;> rw [hmask] <;> decide
  have hhonours := (sort_honoured_iff hsingle (Prog.run_of_result hrun)).2 hsortable
  exact ⟨o, rest, _, Prog.run_of_result hrun, hhonours⟩

/-- Descending by `access` is accepted, and sorts by totals. -/
theorem descending_access_ignored :
    ∃ o rest w', Inotifywatch.parseOpts { opts := [('d', some (cstring (ascii "access")))] } {}
        ({ lib := Inotifytools.new, os := {} } : World Desk) = .ok (some (o, rest), w') ∧
      ¬ Honours Desk true (some (cstring (ascii "access"))) o.sort := by
  have hsort : ((Inotifywatch.parseOpts { opts := [('d', some (cstring (ascii "access")))] }
      {}).result ({ lib := Inotifytools.new, os := {} } : World Desk)).map
        (fun r => r.map fun r => r.1.sort) = some (some (-1)) := by decide +kernel
  obtain ⟨r, hrun, hr⟩ := Option.map_eq_some_iff.1 hsort
  obtain ⟨⟨o, rest⟩, rfl, hkey⟩ := Option.map_eq_some_iff.1 hr
  have hmask : namedMask (optText (some (cstring (ascii "access")))) = inAccess := by
    decide +kernel
  refine ⟨o, rest, _, Prog.run_of_result hrun, ?_⟩
  dsimp only at hkey
  rw [hkey]
  rintro ⟨count, hnamed, hall⟩
  cases hnamed with
  | total h => exact absurd h (by decide +kernel)
  | event hnames hcount =>
      obtain ⟨ws, hrun', hperm, hsorted⟩ :=
        hall { lib := { Inotifytools.new with store := accessStore }, os := {} }
          ((Store.wellIndexed_empty.insert watchA).insert watchB)
      refine not_sorted_by_access (fun stats => ?_) rfl hrun' hperm hsorted
      have hget := hcount stats
      rw [hmask] at hget
      exact (Option.some.inj hget).symm

end InotifyTools
