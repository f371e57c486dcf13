import InotifyTools.Proofs.Chunks
import InotifyTools.Proofs.MoreFuel

set_option autoImplicit false

/-! # The identity of fanotify events

Events of one fid key carry one watch descriptor, and those of different keys different ones: the
watch of a key owns its descriptor, and keeps it until it is removed. -/

namespace InotifyTools

open KeyedMap

variable {σ : Type} [Sys σ] {w w' : World σ}

/-! ## Watches that own their descriptor -/

namespace Store

variable {s s' : Store}

/-- A watch that is indexed by fid is the one indexed by its descriptor. -/
def Own (s : Store) : Prop :=
  ∀ (k : FidKey) (id : Nat) (v : Watch), s.byFid[k]? = some id → s.watches[id]? = some v →
    s.byWd[v.wd]? = some id

/-- The descriptor of a key stays while the entry of the key does. -/
theorem wdOfKey_keeps (hs : s.WellIndexed) (hs' : s'.WellIndexed) (hp : s.Precedes s')
    (hfid : ∀ (k : FidKey) (id : Nat), s.byFid[k]? = some id → s'.byFid[k]? = some id) {k : FidKey}
    {wd : Int32} (h : s.wdOfKey k = some wd) : s'.wdOfKey k = some wd := by
  obtain ⟨id, hid, hwd⟩ := Option.bind_eq_some_iff.1 h
  obtain ⟨v, hv, rfl⟩ := Option.map_eq_some_iff.1 hwd
  obtain ⟨v', hv', -⟩ := hs'.byFid _ _ (hfid k id hid)
  obtain ⟨v₀, hv₀, hwd, -⟩ := hp.same id v' (hs.idLt id v hv) hv'
  cases hv.symm.trans hv₀
  simp [wdOfKey, hfid k id hid, hv', hwd]

/-- Different keys have different descriptors. -/
theorem Own.wdOfKey_inj (h : s.Own) (hs : s.WellIndexed) {k k' : FidKey} {wd : Int32}
    (hk : s.wdOfKey k = some wd) (hk' : s.wdOfKey k' = some wd) : k = k' := by
  obtain ⟨id, hid, hwd⟩ := Option.bind_eq_some_iff.1 hk
  obtain ⟨v, hv, rfl⟩ := Option.map_eq_some_iff.1 hwd
  obtain ⟨id', hid', hwd'⟩ := Option.bind_eq_some_iff.1 hk'
  obtain ⟨v', hv', hwd'⟩ := Option.map_eq_some_iff.1 hwd'
  have howner := h k id v hid hv
  have howner' := h k' id' v' hid' hv'
  rw [hwd', howner] at howner'
  cases howner'
  -- one watch has one fid
  obtain ⟨u, hu, hkey⟩ := hs.byFid k id hid
  obtain ⟨u', hu', hkey'⟩ := hs.byFid k' id hid'
  cases hu.symm.trans hu'
  exact Option.some_inj.1 (hkey.symm.trans hkey')

/-- A new watch for a fid owns its descriptor when that was free. -/
theorem Own.insert (h : s.Own) (hs : s.WellIndexed) {v : Watch}
    (hnew : v.fid.isSome → s.byWd[v.wd]? = none) : (s.insert v).Own := by
  intro k id u hid hu
  have hold : s.byFid[k]? = some id → (s.insert v).byWd[u.wd]? = some id := by
    intro hid
    obtain ⟨u₀, hu₀, -⟩ := hs.byFid k id hid
    obtain ⟨u₁, hu₁, hwd, -⟩ := (precedes_insert s v).same id u (hs.idLt id u₀ hu₀) hu
    rw [← hwd]
    exact insertIfNew_keeps _ (h k id u₁ hid hu₁)
  unfold Store.insert insertFid at hid
  dsimp only at hid
  split at hid
  · next f hf =>
      rcases insertIfNew_eq hid with ⟨rfl, -⟩ | hid
      · have hfree : s.byWd[v.wd]? = none := hnew (by simp [hf])
        have haccepts : s.accepts v = true := by
          simp only [accepts, contains_eq_isSome, hfree]
          rfl
        rw [watches_insert_new haccepts] at hu
        cases hu
        simp only [Store.insert, lookup_insertIfNew, hfree, if_true, Option.getD_none]
      · exact hold hid
  · exact hold hid

/-- Renaming and counting leave descriptors alone. -/
theorem Own.update (h : s.Own) {id : Nat} {v : Watch} (v' : Watch) (hv : s.watches[id]? = some v)
    (hwd : v'.wd = v.wd) (hs : s'.watches = s.watches.insert id v') (hfid : s'.byFid = s.byFid)
    (hbyWd : s'.byWd = s.byWd) : s'.Own := by
  intro k id' u hid hu
  rw [hfid] at hid
  rw [hs, lookup_insert] at hu
  rw [hbyWd]
  split at hu
  · next he =>
      cases hu
      rw [hwd]
      exact he ▸ h k id v (he ▸ hid) hv
  · exact h k id' u hid hu

theorem own_of_empty (h : ∀ k : FidKey, s.byFid[k]? = none) : s.Own := by
  intro k id v hid
  rw [h k] at hid
  cases hid

end Store

/-- Only removals can take a descriptor from the watch that owns it. -/
theorem Effect.own {k : Kind} (he : Effect k w w') (hk : k ≠ .remove)
    (hs : w.lib.store.WellIndexed) (h : w.lib.store.Own) : w'.lib.store.Own := by
  cases he with
  | scratch | call | config | stream | counter | collecting | refused | notOpened => exact h
  | created _ _ hnew => exact h.insert hs fun _ => hnew
  | marked _ _ _ hfid => exact h.insert hs (by simp [hfid])
  | watched _ _ _ hfid => exact h.insert hs (by simp [hfid])
  | @renamed _ _ v hv _ n => exact h.update { v with filename := n } hv rfl rfl rfl rfl
  | @counted _ _ v hv _ stats => exact h.update { v with stats } hv rfl rfl rfl rfl
  | removed | kept => exact absurd rfl hk
  | opened | closed => exact Store.own_of_empty fun k => by simp [Store.clearIndexes, Store.clear]

theorem Effects.own {S : Set Kind} (he : Effects S w w') (hS : Kind.remove ∉ S)
    (hs : w.lib.store.WellIndexed) (h : w.lib.store.Own) : w'.lib.store.Own := by
  refine (he.preserves (P := fun w => w.lib.store.WellIndexed ∧ w.lib.store.Own)
    (fun k w₁ w₂ hk he ⟨hs, h⟩ => ⟨(he.integrity hs).1, he.own ?_ hs h⟩) ⟨hs, h⟩).2
  rintro rfl
  exact hS (hk.resolve_left nofun)

/-! ## Runs -/

/-- Operations that read no events, remove no watch, and neither open nor close the instance. -/
def Op.Steady (o : Op) : Prop := o.Aside ∧ Kind.remove ∉ o.kinds

/-- Some records, all of them with fids. -/
def AllFids (rs : List FanRecord) : Prop := rs ≠ [] ∧ ∀ r ∈ rs, r.info.isSome

variable {env : σ → σ → Prop} {w₀ : World σ} {q₀ q : List FanRecord}
  {log : List (FidRecord × Event)}

/-- The handle listens, watches own their descriptors, and the records held have fids. -/
structure Identifies (w : World σ) (q : List FanRecord) : Prop where
  listening : Listening w q
  own : w.lib.store.Own
  fids : ∀ r ∈ q, r.info.isSome

/-- The descriptor a key has in `w` it has in `w'`. -/
def KeepsWds (w w' : World σ) : Prop :=
  ∀ k wd, w.lib.store.wdOfKey k = some wd → w'.lib.store.wdOfKey k = some wd

/-- No effect but a removal, or closing the instance, changes the descriptor of a key. -/
theorem Effects.keepsWds {S : Set Kind} (he : Effects S w w') (hr : Kind.remove ∉ S)
    (hl : Kind.lifecycle ∉ S) (hs : w.lib.store.WellIndexed) : KeepsWds w w' := fun _ _ h =>
  Store.wdOfKey_keeps hs (he.wellIndexed hs) (he.integrity hs).2 (he.keeps hr hl).1 h

omit [Sys σ] in
theorem mem_returned {r : FanRecord} {i : FidRecord} (hi : r.info = some i) {round : Round}
    {a : FidRecord × Event} (h : a ∈ returned r round w) : a = (i, w.lib.stream.currentEvent) := by
  unfold returned at h
  split at h
  · simpa [hi] using h
  · cases h

/-- What a run of steady operations and of records with fids preserves, and what it returns. -/
theorem Hears.identifies (h : Hears env Op.Steady AllFids w₀ q₀ w q log) (h₀ : Identifies w₀ q₀) :
    Identifies w q ∧ KeepsWds w₀ w ∧
      (∀ a ∈ log, a.2.wd ≠ 0 → w.lib.store.wdOfKey a.1.key = some a.2.wd) ∧
      ∀ a ∈ log, ∀ wd, w₀.lib.store.wdOfKey a.1.key = some wd → a.2.wd = wd := by
  induction h with
  | start => exact ⟨h₀, fun _ _ h => h, nofun, nofun⟩
  | @op w w' q log fuel o _ ho hrun ih =>
      obtain ⟨hw, hkeeps, hlog, hold⟩ := ih
      have hs := hw.listening.wellIndexed
      have he := ((o.run_sound_kinds fuel w hs).ok hrun).1
      have hkeeps' := he.keepsWds ho.2 ho.1.2 hs
      exact ⟨⟨hw.listening.effects he ho.1.1 ho.1.2, he.own ho.2 hs hw.own, hw.fids⟩,
        fun k wd h => hkeeps' k wd (hkeeps k wd h), fun a ha hne => hkeeps' _ _ (hlog a ha hne), hold⟩
  | env _ _ ih =>
      obtain ⟨hw, hkeeps, hlog, hold⟩ := ih
      have hl := hw.listening
      exact ⟨⟨⟨hl.initialized, hl.mode, hl.wellIndexed, hl.held⟩, hw.own, hw.fids⟩, hkeeps, hlog,
        hold⟩
  | @turn w w' q q' r log c os round _ htake hchunk hturn ih =>
      obtain ⟨hw, hkeeps, hlog, hold⟩ := ih
      have hfids : ∀ r' ∈ r :: q', r'.info.isSome := by
        rcases htake with ⟨rfl, -⟩ | ⟨hq, -⟩
        · exact hw.fids
        · exact (hchunk hq).2
      obtain ⟨i, hi⟩ := Option.isSome_iff_exists.1 (hfids r List.mem_cons_self)
      have hs := hw.listening.wellIndexed
      obtain ⟨hlistening, htook⟩ := (hw.listening.turn_fid htake hi).1 round w' hturn
      have hr : Kind.remove ∉ ({.stream, .watch, .stats} : Set Kind) := by
        rintro (h | h | h) <;> cases h
      have hl : Kind.lifecycle ∉ ({.stream, .watch, .stats} : Set Kind) := by
        rintro (h | h | h) <;> cases h
      have hkeeps' := htook.effects.keepsWds hr hl hs
      have hwd := htook.shows.wd
      refine ⟨⟨hlistening, htook.effects.own hr hs hw.own,
        fun r' hr' => hfids r' (List.mem_cons_of_mem _ hr')⟩,
        fun k wd h => hkeeps' k wd (hkeeps k wd h), fun a ha hne => ?_, fun a ha wd hk => ?_⟩
      · rcases List.mem_append.1 ha with ha | ha
        · exact hkeeps' _ _ (hlog a ha hne)
        · cases mem_returned hi ha
          cases hk : w'.lib.store.wdOfKey i.key with
          -- an event of a fid without a watch has the descriptor 0
          | none => exact absurd (by rw [hwd, hk]; rfl) hne
          | some wd => rw [hwd, hk]; rfl
      · rcases List.mem_append.1 ha with ha | ha
        · exact hold a ha wd hk
        · cases mem_returned hi ha
          rw [hwd, hkeeps' _ _ (hkeeps _ _ hk)]
          rfl
  | nothing _ hbuf hread ih =>
      obtain ⟨hw, hkeeps, hlog, hold⟩ := ih
      have hs := hw.listening.wellIndexed
      obtain ⟨hlistening, he⟩ := hw.listening.nothing hbuf hread
      have hkeeps' := he.keepsWds nofun nofun hs
      exact ⟨⟨hlistening, he.own nofun hs hw.own, hw.fids⟩,
        fun k wd h => hkeeps' k wd (hkeeps k wd h), fun a ha hne => hkeeps' _ _ (hlog a ha hne), hold⟩

theorem Starts.identifies (h : Starts env w) : Identifies w [] :=
  ⟨h.listening.1, Store.own_of_empty h.listening.2.1, nofun⟩

/-- **fanotify events keep a stable identity.** After the initialisation, in every run that removes no
    watch and reads records with fids: two returned events with descriptors have the same one exactly
    if their records have the same key; and once a key has been given a descriptor, be it by an event
    or by watching a file, every later event with that key has that descriptor. -/
theorem wds_identify_fids {w₁ w₂ : World σ} {q₁ q₂ : List FanRecord}
    {log later : List (FidRecord × Event)} (h₀ : Starts env w₀)
    (h₁ : Hears env Op.Steady AllFids w₀ [] w₁ q₁ log)
    (h₂ : Hears env Op.Steady AllFids w₁ q₁ w₂ q₂ later) :
    (∀ a ∈ log, ∀ b ∈ log, a.2.wd ≠ 0 → b.2.wd ≠ 0 → (a.2.wd = b.2.wd ↔ a.1.key = b.1.key)) ∧
      (∀ a ∈ log, a.2.wd ≠ 0 → w₁.lib.store.wdOfKey a.1.key = some a.2.wd) ∧
      ∀ k wd, w₁.lib.store.wdOfKey k = some wd → ∀ a ∈ later, a.1.key = k → a.2.wd = wd := by
  obtain ⟨hw₁, -, hlog, -⟩ := h₁.identifies h₀.identifies
  obtain ⟨-, -, -, hlater⟩ := h₂.identifies hw₁
  refine ⟨fun a ha b hb hane hbne => ⟨fun heq => ?_, fun heq => ?_⟩, hlog, ?_⟩
  · have hb' := hlog b hb hbne
    rw [← heq] at hb'
    exact hw₁.own.wdOfKey_inj hw₁.listening.wellIndexed (hlog a ha hane) hb'
  · have ha' := hlog a ha hane
    rw [heq, hlog b hb hbne] at ha'
    exact (Option.some_inj.1 ha').symm
  · rintro k wd hk a ha rfl
    exact hlater a ha wd hk

/-! ## A run -/

theorem Turn.of_result {c : Call} {fuel : Nat} {round : Round}
    (h : (eventRound fuel c.timeout c.numEvents).result w = some round) :
    Turn w c round ((eventRound fuel c.timeout c.numEvents).after w) :=
  ⟨fuel, fun _ hfuel => eventRound_extends hfuel _ _ _ _ (Prog.run_of_result h)⟩

theorem Hears.event {r : FanRecord} {i : FidRecord} {c : Call} {os : σ} {q' : List FanRecord}
    {ops : Op → Prop} {ok : List FanRecord → Prop} (h : Hears env ops ok w₀ q₀ w q log)
    (htake : Takes w c q (r :: q') os) (hchunk : q = [] → ok (r :: q')) (hi : r.info = some i)
    (hturn : Turn w c .event w') :
    Hears env ops ok w₀ q₀ w' q' (log ++ [(i, w'.lib.stream.currentEvent)]) := by
  simpa [returned, hi] using h.turn htake hchunk hturn

namespace Desk

/-- Where the file that was opened is. -/
def openedAt : FidRecord := opened.info.get rfl

/-- Somebody opened `a`, in the directory with the handle 8. -/
def openedElsewhere : FanRecord :=
  { opened with info := some { openedAt with handle := [8, 0, 0, 0, 0, 0, 0, 0], fits := by decide } }

/-- A new handle, with records of two directories to be read. -/
def twoPlaces : World Desk :=
  { lib := Inotifytools.new
    os := { chunks := [FanRecord.encodeAll [opened, openedElsewhere, opened]]
            links := [ascii "/d", ascii "/e"] } }

/-- The world after `n` turns of an initialised handle. -/
def afterTurns (n : Nat) : World Desk :=
  n.repeat (eventRound 9 call.timeout call.numEvents).after
    ((InotifyTools.init true false 0).after twoPlaces)

/-- What the turn returns that leads to `afterTurns n`, if it takes the record `r`. -/
def eventAt (r : FanRecord) (h : r.info.isSome) (n : Nat) : FidRecord × Event :=
  (r.info.get h, (afterTurns n).lib.stream.currentEvent)

end Desk

/-- Files are opened in two directories, then again in the first. -/
theorem wds_identify_fids_desk :
    ∃ w₀ w₁ w₂ : World Desk, ∃ a b c : FidRecord × Event,
      Starts (fun _ _ => False) w₀ ∧
      Hears (fun _ _ => False) Op.Steady AllFids w₀ [] w₁ [Desk.opened] [a, b] ∧
      Hears (fun _ _ => False) Op.Steady AllFids w₁ [Desk.opened] w₂ [] [c] ∧
      a.2.wd ≠ 0 ∧ b.2.wd ≠ 0 ∧ a.2.wd ≠ b.2.wd ∧ c.1.key = a.1.key ∧ c.2.wd = a.2.wd := by
  have hinit : InotifyTools.init true false 0 Desk.twoPlaces = .ok (true, Desk.afterTurns 0) :=
    Prog.run_of_result (by decide +kernel)
  have hstarts : Starts (fun _ _ => False) (Desk.afterTurns 0) := .init ⟨_, .refl⟩ rfl rfl hinit
  have hanswer : Answered (Desk.afterTurns 0) Desk.call
      [Desk.opened, Desk.openedElsewhere, Desk.opened] _ :=
    .data (by decide +kernel) (.now _ (by decide +kernel) (by decide +kernel)) (by decide +kernel)
      (by decide +kernel) (by decide +kernel)
  have hturn : ∀ n < 3, Turn (Desk.afterTurns n) Desk.call .event (Desk.afterTurns (n + 1)) :=
    fun n hn => .of_result (by revert n; decide +kernel)
  have hfids : AllFids [Desk.opened, Desk.openedElsewhere, Desk.opened] :=
    ⟨nofun, by simp [Desk.opened, Desk.openedElsewhere]⟩
  have h₀ : Hears (fun _ _ => False) Op.Steady AllFids (Desk.afterTurns 0) [] (Desk.afterTurns 1)
      [Desk.openedElsewhere, Desk.opened] ([] ++ [Desk.eventAt Desk.opened rfl 1]) :=
    Hears.event .start (.inr ⟨rfl, hanswer⟩) (fun _ => hfids) rfl (hturn 0 (by decide))
  have h₁ : Hears (fun _ _ => False) Op.Steady AllFids (Desk.afterTurns 0) [] (Desk.afterTurns 2)
      [Desk.opened]
      ([] ++ [Desk.eventAt Desk.opened rfl 1] ++ [Desk.eventAt Desk.openedElsewhere rfl 2]) :=
    h₀.event (.inl ⟨rfl, rfl⟩) nofun rfl (hturn 1 (by decide))
  have h₂ : Hears (fun _ _ => False) Op.Steady AllFids (Desk.afterTurns 2) [Desk.opened]
      (Desk.afterTurns 3) [] ([] ++ [Desk.eventAt Desk.opened rfl 3]) :=
    Hears.event .start (.inl ⟨rfl, rfl⟩) nofun rfl (hturn 2 (by decide))
  have hne : (Desk.eventAt Desk.opened rfl 1).2.wd ≠ 0 ∧
      (Desk.eventAt Desk.openedElsewhere rfl 2).2.wd ≠ 0 := by decide +kernel
  obtain ⟨hsame, hlog, hlater⟩ := wds_identify_fids hstarts h₁ h₂
  refine ⟨_, _, _, Desk.eventAt Desk.opened rfl 1, Desk.eventAt Desk.openedElsewhere rfl 2,
    Desk.eventAt Desk.opened rfl 3, hstarts, h₁, h₂, hne.1, hne.2, fun heq => ?_, rfl, ?_⟩
  · exact absurd ((hsame _ (by simp) _ (by simp) hne.1 hne.2).1 heq) (by decide +kernel)
  · exact hlater _ _ (hlog _ (by simp) hne.1) _ (by simp) rfl

end InotifyTools
