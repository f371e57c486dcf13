import InotifyTools.Proofs.Reachable
import InotifyTools.Proofs.Verdict

set_option autoImplicit false

/-! # Resolving fids

Resolving a fid to a path asks the operating system, which may answer anything, and always returns.
So does the filtering of fanotify events, which resolves the fids of watches. The descriptor of a fid
is that of the watch indexed under it, or a new one while descriptors last. -/

namespace InotifyTools

variable {σ α β : Type} [Sys σ] {w w' : World σ}

/-! ## Programs that return -/

/-- Whatever the operating system answers, `m` returns, and its effects are quiet. -/
def Calm (m : M σ α) : Prop :=
  ∀ w, w.lib.store.WellIndexed → ∃ a w', m w = .ok (a, w') ∧ Effects ∅ w w'

namespace Calm

/-- A sound program of quiet effects that returns. -/
theorem of_sound {m : M σ α} (h : Sound ∅ m) (hrun : ∀ w, ∃ r, m w = .ok r) : Calm m := by
  intro w hw
  obtain ⟨⟨a, w'⟩, hm⟩ := hrun w
  exact ⟨a, w', hm, ((h w hw).ok hm).1⟩

theorem pure (a : α) : Calm (Pure.pure a : M σ α) := .of_sound (.pure a) fun _ => ⟨_, rfl⟩

theorem bind {x : M σ α} {f : α → M σ β} (hx : Calm x) (hf : ∀ a, Calm (f a)) :
    Calm (x >>= f) := by
  intro w hw
  obtain ⟨a, w₁, hrun, he⟩ := hx w hw
  obtain ⟨b, w₂, hrun', he'⟩ := hf a w₁ (he.wellIndexed hw)
  exact ⟨b, w₂, (Prog.bind_run_ok hrun).trans hrun', he.trans he'⟩

theorem ite {c : Prop} [Decidable c] {m n : M σ α} (hm : Calm m) (hn : Calm n) :
    Calm (if c then m else n) := by
  split <;> assumption

theorem getLib : Calm (getLib : M σ Inotifytools) := .of_sound .getLib fun _ => ⟨_, rfl⟩

theorem call {f : σ → α × σ} (h : ∀ os, QuietCall os (f os).2) : Calm (call f) :=
  .of_sound (.call h) fun _ => ⟨_, rfl⟩

theorem exec {f : σ → σ} (h : ∀ os, QuietCall os (f os)) : Calm (exec f) :=
  .of_sound (.exec h) fun _ => ⟨_, rfl⟩

/-- The watch of a fid, when it is indexed, is there. -/
theorem watchFromFid {f : Bytes} {g : Option Nat → M σ α} (hnone : Calm (g none))
    (hsome : ∀ i v w, w.lib.store.WellIndexed → w.lib.store.watches[i]? = some v →
      ∃ a w', g (some i) w = .ok (a, w') ∧ Effects ∅ w w') :
    Calm (InotifyTools.watchFromFid f >>= g) := by
  intro w hw
  show ∃ a w', g w.lib.store.byFid[FidKey.new f]? w = .ok (a, w') ∧ Effects ∅ w w'
  cases hid : w.lib.store.byFid[FidKey.new f]? with
  | none => exact hnone w hw
  | some i =>
      obtain ⟨v, hv, -⟩ := hw.byFid _ _ hid
      exact hsome i v w hw hv

end Calm

theorem ceprint_calm (ps : List Piece) : Calm (ceprint ps : M σ Unit) :=
  .exec fun os => .fwrite _ _ os

theorem errno_calm : Calm (errno : M σ Int32) := .of_sound errno_sound fun _ => ⟨_, rfl⟩

theorem strerror_calm (e : Int32) : Calm (strerror e : M σ Bytes) :=
  .of_sound (strerror_sound e) fun _ => ⟨_, rfl⟩

/-- `w` with another filename buffer. -/
def World.withFidname (w : World σ) (m : Mem) : World σ := { w with lib := { w.lib with fidname := m } }

omit [Sys σ] in
theorem setFidname_run {i : Nat} (hi : i < fidnameSize) (b : UInt8) (w : World σ) :
    setFidname i b w = .ok ((), w.withFidname (w.lib.fidname.set i b)) := by
  unfold setFidname Prog.guard
  rw [decide_eq_true hi, if_pos rfl]
  rfl

omit [Sys σ] in
theorem blitFidname_run {off : Nat} {bs : Bytes} (h : off + bs.length ≤ fidnameSize) (w : World σ) :
    blitFidname off bs w = .ok ((), w.withFidname (w.lib.fidname.blit off bs)) := by
  unfold blitFidname Prog.guard
  rw [decide_eq_true h, if_pos rfl]
  rfl

theorem setFidname_calm {i : Nat} (hi : i < fidnameSize) (b : UInt8) :
    Calm (setFidname i b : M σ Unit) :=
  .of_sound (setFidname_sound i b) fun w => ⟨_, setFidname_run hi b w⟩

theorem blitFidname_calm {off : Nat} {bs : Bytes} (h : off + bs.length ≤ fidnameSize) :
    Calm (blitFidname off bs : M σ Unit) :=
  .of_sound (blitFidname_sound off bs) fun w => ⟨_, blitFidname_run h w⟩

/-! ## The path of a fid -/

theorem mountFd_calm (f : Bytes) : Calm (mountFd f : M σ Int32) := by
  refine .watchFromFid (.pure _) fun i v w hw hv => ⟨v.dirf, w, ?_, .refl w⟩
  exact Prog.bind_run_ok (watch_run hv)

theorem openFid_calm (f : Bytes) (nameLen : Int32) : Calm (openFid f nameLen : M σ (Option Int32)) := by
  unfold openFid
  refine .bind (mountFd_calm f) fun mount =>
    .bind (.call fun os => .openByHandleAt _ _ os) fun d => ?_
  refine .ite (.pure _) (.bind .getLib fun _ => ?_)
  refine .ite (.bind (ceprint_calm _) fun _ => .pure _) (.ite (.pure _) ?_)
  refine .watchFromFid (.bind (ceprint_calm _) fun _ => .pure _) fun i v w hw hv => ?_
  have hdir : Calm (do
      let dirf ← (if v.dirf ≠ 0 then call (Sys.dup v.dirf) else pure (-1))
      if dirf < 0 then
        ceprint [.text "Failed to get directory fd.\n"]
        return none
      return some dirf : M σ (Option Int32)) := by
    refine .bind (.ite (.call fun os => .dup _ os) (.pure _)) fun d => ?_
    exact .ite (.bind (ceprint_calm _) fun _ => .pure _) (.pure _)
  obtain ⟨a, w', hrun, he⟩ := hdir w hw
  exact ⟨a, w', (Prog.bind_run_ok (watch_run hv)).trans hrun, he⟩

theorem markDeleted_calm : Calm (markDeleted : M σ Unit) := by
  unfold markDeleted
  refine .bind .getLib fun l => ?_
  intro w hw
  dsimp only
  split
  · next hroom => exact blitFidname_calm hroom w hw
  · exact Calm.pure () w hw

/-- A name goes behind a path of at most `PATH_MAX` bytes. -/
theorem appendFidName_calm (f : Bytes) (nameLen dirf : Int32) {len : Nat} (hlen : len ≤ pathMax) :
    Calm (appendFidName f nameLen dirf len : M σ Bool) := by
  have hsize : fidnameSize = 4608 := rfl
  have hpath : pathMax = 4096 := rfl
  unfold appendFidName
  refine .bind (.call fun os => .faccessat _ _ os) fun deleted => .bind errno_calm fun e => ?_
  refine .ite (.bind (strerror_calm e) fun _ => .bind (ceprint_calm _) fun _ => .pure _) ?_
  dsimp only
  refine .bind (blitFidname_calm ?_) fun _ => .bind (setFidname_calm ?_ _) fun _ => ?_
  · rw [List.length_map, List.length_range]
    omega
  · omega
  · exact .bind (.ite markDeleted_calm (.pure _)) fun _ => .pure _

/-- **Resolving a fid returns**, with a path or without. -/
theorem filenameFromFid_calm (f : Bytes) : Calm (filenameFromFid f : M σ (Option CString)) := by
  have hsize : fidnameSize = 4608 := rfl
  have hpath : pathMax = 4096 := rfl
  refine .bind (openFid_calm f _) fun
    | none => .pure _
    | some dirf => .bind (.call fun os => .readlinkFd _ _ os) fun
      | none => ?_
      | some target => ?_
  · exact .bind (.exec fun os => .close _ os) fun _ => .bind (ceprint_calm _) fun _ => .pure _
  · have hlen : (target.take (pathMax - 2)).length ≤ 4094 := List.length_take_le _ _
    dsimp only
    generalize target.take (pathMax - 2) = target at hlen
    refine .bind (blitFidname_calm (by omega)) fun _ => .bind (setFidname_calm (by omega) _) fun _ => ?_
    refine .bind (setFidname_calm (by omega) _) fun _ => ?_
    refine .bind (.ite (appendFidName_calm f _ dirf (by omega)) (.pure _)) fun ok => ?_
    exact .bind (.exec fun os => .close _ os) fun _ => .ite (.pure _) (.bind .getLib fun _ => .pure _)

/-! ## The path of an event -/

theorem assertInit_calm : Calm (assertInit : M σ Unit) := by
  refine .bind .getLib fun l => ?_
  unfold niceassert
  exact .ite (.pure _) (ceprint_calm _)

theorem filenameFromWatchId_returns {id : Nat} {v : Watch} (hv : w.lib.store.watches[id]? = some v)
    (hw : w.lib.store.WellIndexed) :
    ∃ p w', filenameFromWatchId id w = .ok (p, w') ∧ Effects ∅ w w' := by
  unfold filenameFromWatchId
  rw [Prog.bind_run_ok (watch_run hv)]
  cases v.fid with
  | none => exact ⟨v.filename, w, rfl, .refl w⟩
  | some f =>
      dsimp only
      rw [getLib_bind]
      split
      · exact ⟨v.filename, w, rfl, .refl w⟩
      · obtain ⟨p, w', hrun, he⟩ := filenameFromFid_calm f w hw
        rw [Prog.bind_run_ok hrun]
        cases p with
        | some p => exact ⟨p, w', rfl, he⟩
        | none =>
            -- the watch is still there: resolving a fid leaves the store alone
            rw [← he.sameBooks.store] at hv
            exact ⟨v.filename, w', Prog.bind_run_ok (watch_run hv), he⟩

theorem filenameFromWdPtr_calm (wd : Int32) : Calm (filenameFromWdPtr wd : M σ CString) := by
  refine .bind assertInit_calm fun _ => .ite (.pure _) ?_
  intro w hw
  have hfound : watchFromWd wd w = .ok (w.lib.store.byWd[wd]?, w) := rfl
  cases hid : w.lib.store.byWd[wd]? with
  | none =>
      rw [hid] at hfound
      exact ⟨CString.empty, w, Prog.bind_run_ok hfound, .refl w⟩
  | some id =>
      rw [hid] at hfound
      obtain ⟨v, hv, -⟩ := hw.byWd _ _ hid
      obtain ⟨p, w', hrun, he⟩ := filenameFromWatchId_returns hv hw
      exact ⟨p, w', (Prog.bind_run_ok hfound).trans hrun, he⟩

theorem filenameFromEvent_calm (ev : Event) : Calm (filenameFromEvent ev : M σ EventPath) := by
  refine .bind (.bind (.bind (filenameFromWdPtr_calm _) fun _ => .bind .getLib fun _ => ?_)
    fun _ => .pure _) fun _ => .pure _
  dsimp only
  split <;> exact .pure _

/-! ## Filtering and counting -/

theorem snprintf_path_calm (ev : Event) :
    Calm (snprintf NString.new (Int32.ofNat maxStrlen) ev (some (ascii "%w%f"))
      : M σ (Int32 × NString)) := by
  unfold snprintf
  refine .bind (filenameFromEvent_calm ev) fun path => ?_
  rw [Option.getD_some]
  dsimp only
  rw [if_neg (by decide), if_neg (by decide),
    show (Int32.ofNat maxStrlen).toInt = maxStrlen from by decide, scan_path, Prog.pure_bind]
  exact .pure _

theorem filterEvent_calm : Calm (filterEvent : M σ Bool) := by
  unfold filterEvent
  refine .bind .getLib fun l => ?_
  cases l.regex with
  | none => exact .pure _
  | some re => exact .ite (.pure _) (.bind (snprintf_path_calm _) fun _ => .pure _)

/-- **An event that is decoded is delivered or dropped.** -/
theorem deliver_returns (hw : w.lib.store.WellIndexed) (pid : Int32) :
    ∃ round w', deliver pid w = .ok (round, w') ∧ round ≠ .fail ∧ Effects {.stats} w w' := by
  unfold deliver
  rw [getLib_bind]
  split
  · exact ⟨.skip, w, rfl, nofun, .refl w⟩
  · obtain ⟨dropped, w₁, hrun, he⟩ := filterEvent_calm w hw
    rw [Prog.bind_run_ok hrun]
    have he : Effects {.stats} w w₁ := he.mono (Set.empty_subset _)
    cases dropped with
    | true => exact ⟨.skip, w₁, rfl, nofun, he⟩
    | false =>
        rw [if_neg (by decide), getLib_bind]
        split
        · next hcoll =>
          have hstats := recordStats_sound (S := {.stats}) rfl (he.wellIndexed hw) hcoll
            w₁.lib.stream.currentEvent.wd w₁.lib.stream.currentEvent.mask
          have hcounted : ∃ w₂, recordStats w₁.lib.stream.currentEvent.wd
              w₁.lib.stream.currentEvent.mask w₁ = .ok ((), w₂) := by
            unfold recordStats
            rw [Prog.bind_run_ok (rfl : watchFromWd _ w₁ = .ok (w₁.lib.store.byWd[_]?, w₁))]
            cases w₁.lib.store.byWd[w₁.lib.stream.currentEvent.wd]? <;> exact ⟨_, rfl⟩
          obtain ⟨w₂, hcounted⟩ := hcounted
          rw [Prog.bind_run_ok hcounted]
          exact ⟨.event, w₂, rfl, nofun, he.trans (hstats.ok hcounted).1⟩
        · exact ⟨.event, w₁, rfl, nofun, he⟩

/-! ## New descriptors -/

/-- `n` descriptors are free. -/
def Store.Spare (s : Store) (n : Nat) : Prop :=
  ∃ free : Finset Int32, n ≤ free.card ∧ ∀ wd ∈ free, 0 < wd ∧ s.byWd[wd]? = none

namespace Store

/-- The descriptor the search looks at after `n`. -/
def nextWd (n : Int32) : Int32 := if n + 1 ≤ 0 then 1 else n + 1

theorem searchFanotifyWd_succ (byWd : Std.TreeMap Int32 Nat) (fuel : Nat) (n : Int32) :
    searchFanotifyWd byWd (fuel + 1) n =
      if byWd.contains (nextWd n) then searchFanotifyWd byWd fuel (nextWd n)
      else some (nextWd n) := rfl

/-- The search counts up, and starts over at 1 behind the greatest descriptor. -/
theorem toInt_nextWd (n : Int32) : (nextWd n).toInt =
    if n.toInt < 0 ∨ n.toInt = 2 ^ 31 - 1 then 1 else n.toInt + 1 := by
  have hlow := n.le_toInt
  have hhigh := n.toInt_lt
  have hadd : (n + 1).toInt = if n.toInt = 2 ^ 31 - 1 then -2 ^ 31 else n.toInt + 1 := by
    rw [Int32.toInt_add]
    show (n.toInt + 1).bmod (2 ^ 32) = _
    split
    · next he => rw [he]; decide
    · next hne => rw [Int.bmod_eq_of_le] <;> omega
  have hwrap : n + 1 ≤ 0 ↔ n.toInt < 0 ∨ n.toInt = 2 ^ 31 - 1 := by
    rw [Int32.le_iff_toInt_le, hadd, Int32.toInt_zero]
    split <;> omega
  unfold nextWd
  by_cases h : n + 1 ≤ 0
  · rw [if_pos h, if_pos (hwrap.1 h)]
    rfl
  · have hneg := fun hc => h (hwrap.2 hc)
    rw [if_neg h, if_neg hneg, hadd, if_neg fun he => hneg (.inr he)]

/-- How many steps the search takes to a descriptor, at most. -/
def stepsTo (wd n : Int32) : Nat :=
  if 0 ≤ n.toInt ∧ n.toInt < wd.toInt then (wd.toInt - n.toInt).toNat
  else if n.toInt < 0 then (wd.toInt + 1).toNat
  else (2 ^ 31 - n.toInt + wd.toInt).toNat

/-- Every step that does not end at a descriptor comes closer to it. -/
theorem stepsTo_nextWd {wd n : Int32} (hwd : 0 < wd) (hne : nextWd n ≠ wd) :
    stepsTo wd (nextWd n) < stepsTo wd n := by
  have hpos : 0 < wd.toInt := by simpa using Int32.lt_iff_toInt_lt.1 hwd
  have hne : (nextWd n).toInt ≠ wd.toInt := fun he => hne (Int32.toInt_inj.1 he)
  have hhigh := n.toInt_lt
  have hwdhigh := wd.toInt_lt
  unfold stepsTo
  rw [toInt_nextWd] at hne ⊢
  split_ifs at hne ⊢ <;> omega

/-- The search ends when some descriptor is free. -/
theorem searchFanotifyWd_ends {byWd : Std.TreeMap Int32 Nat} {wd : Int32} (hwd : 0 < wd)
    (hfree : byWd[wd]? = none) (n : Int32) :
    ∃ fuel, searchFanotifyWd byWd fuel n ≠ none := by
  induction hsteps : stepsTo wd n using Nat.strong_induction_on generalizing n with
  | _ steps ih =>
      subst hsteps
      by_cases hnext : nextWd n = wd
      · have hcontains : byWd.contains (nextWd n) = false := by
          rw [hnext, KeyedMap.contains_eq_isSome, hfree]
          rfl
        refine ⟨1, ?_⟩
        rw [searchFanotifyWd_succ, hcontains]
        simp
      · obtain ⟨fuel, hfuel⟩ := ih _ (stepsTo_nextWd hwd hnext) (nextWd n) rfl
        refine ⟨fuel + 1, ?_⟩
        rw [searchFanotifyWd_succ]
        split
        · exact hfuel
        · exact nofun

/-- More fuel does not change what the search finds. -/
theorem searchFanotifyWd_more {byWd : Std.TreeMap Int32 Nat} {fuel fuel' : Nat} {n wd : Int32}
    (h : searchFanotifyWd byWd fuel n = some wd) (hle : fuel ≤ fuel') :
    searchFanotifyWd byWd fuel' n = some wd := by
  induction fuel generalizing fuel' n with
  | zero => cases h
  | succ fuel ih =>
      obtain ⟨fuel', rfl⟩ := Nat.exists_eq_add_of_le' (Nat.le_of_add_left_le hle)
      rw [searchFanotifyWd_succ] at h ⊢
      split
      · next hc =>
          rw [if_pos hc] at h
          exact ih h (by omega)
      · next hc =>
          rw [if_neg hc] at h
          exact h

/-- While descriptors last the search finds one. -/
theorem Spare.search {s : Store} (h : s.Spare 1) (n : Int32) :
    ∃ fuel₀ wd, ∀ fuel, fuel₀ ≤ fuel → searchFanotifyWd s.byWd fuel n = some wd := by
  obtain ⟨free, hcard, hfree⟩ := h
  obtain ⟨wd, hwd⟩ := Finset.card_pos.1 hcard
  obtain ⟨fuel₀, hfuel⟩ := searchFanotifyWd_ends (hfree wd hwd).1 (hfree wd hwd).2 n
  obtain ⟨found, hfound⟩ := Option.ne_none_iff_exists'.1 hfuel
  exact ⟨fuel₀, found, fun fuel hle => searchFanotifyWd_more hfound hle⟩

/-- One descriptor fewer is free after a watch is entered. -/
theorem Spare.insert {s : Store} {n : Nat} (h : s.Spare (n + 1)) (v : Watch) :
    (s.insert v).Spare n := by
  obtain ⟨free, hcard, hfree⟩ := h
  refine ⟨free.erase v.wd, ?_, fun wd hwd => ?_⟩
  · have herase := Finset.pred_card_le_card_erase (s := free) (a := v.wd)
    omega
  · obtain ⟨hne, hwd⟩ := Finset.mem_erase.1 hwd
    refine ⟨(hfree wd hwd).1, ?_⟩
    simp only [Store.insert, KeyedMap.lookup_insertIfNew, if_neg (Ne.symm hne)]
    exact (hfree wd hwd).2

theorem Spare.mono {s : Store} {n m : Nat} (h : s.Spare n) (hle : m ≤ n) : s.Spare m := by
  obtain ⟨free, hcard, hfree⟩ := h
  exact ⟨free, hle.trans hcard, hfree⟩

/-! ## The descriptor of a fid -/

/-- The descriptor of the watch indexed under a fid key. -/
def wdOfKey (s : Store) (k : FidKey) : Option Int32 :=
  s.byFid[k]?.bind fun id => s.watches[id]?.map Watch.wd

/-- A new fid is indexed together with its watch. -/
theorem wdOfKey_insert {s : Store} {fid : Bytes} (hnew : s.byFid[FidKey.new fid]? = none)
    {v : Watch} (hv : v.fid = some fid) : (s.insert v).wdOfKey (FidKey.new fid) = some v.wd := by
  have haccepts : s.accepts v = true := by
    have hcontains : s.byFid.contains (FidKey.new fid) = false := by
      rw [KeyedMap.contains_eq_isSome, hnew]
      rfl
    simp [accepts, hv, hcontains]
  have hid : (s.insert v).byFid[FidKey.new fid]? = some s.nextId := by
    simp only [Store.insert, insertFid, hv, KeyedMap.lookup_insertIfNew, hnew, if_true,
      Option.getD_none]
  have hwatch : (s.insert v).watches[s.nextId]? = some v := watches_insert_new haccepts
  simp [wdOfKey, hid, hwatch]

end Store

/-- `fid` has been looked up, and perhaps entered: `wd` is its descriptor afterwards. -/
structure Identified (w : World σ) (fid : Bytes) (wd : Option Int32) (w' : World σ) : Prop where
  effects : Effects {.watch} w w'
  wdOfKey : w'.lib.store.wdOfKey (FidKey.new fid) = wd
  spare : ∀ n, w.lib.store.Spare (n + 1) → w'.lib.store.Spare n

/-- The watch entered for `fid` under the descriptor `wd`, which the search has found. -/
def Store.enterFid (s : Store) (wd : Int32) (fid filename : Bytes) : Store :=
  Store.insert { s with nextFanotifyWd := wd } (Watch.mk (some fid) (cstring filename) wd 0 {})

omit [Sys σ] in
/-- Descriptor 0 is replaced by the one the search finds. -/
theorem assignWd_zero (fuel : Nat) (w : World σ) : assignWd fuel 0 w =
    match Store.searchFanotifyWd w.lib.store.byWd fuel w.lib.store.nextFanotifyWd with
    | some wd => .ok (wd, w.withStore { w.lib.store with nextFanotifyWd := wd })
    | none => .error .outOfFuel := by
  unfold assignWd
  rw [if_neg (by decide), getLib_bind]
  show (match Store.searchFanotifyWd w.lib.store.byWd fuel w.lib.store.nextFanotifyWd with
    | some wd => _
    | none => _ : M σ Int32) w = _
  cases Store.searchFanotifyWd w.lib.store.byWd fuel w.lib.store.nextFanotifyWd <;> rfl

/-- Registering a watch for a fid under the descriptor the search finds. -/
theorem createWatch_fid_run {fuel : Nat} {wd : Int32}
    (hsearch : Store.searchFanotifyWd w.lib.store.byWd fuel w.lib.store.nextFanotifyWd = some wd)
    (fid filename : Bytes) : createWatch fuel 0 (some fid) filename 0 w =
      .ok (some wd, w.withStore (w.lib.store.enterFid wd fid filename)) := by
  have hassign := assignWd_zero fuel w
  rw [hsearch] at hassign
  unfold createWatch
  rw [if_neg (by decide), Prog.bind_run_ok hassign, Prog.bind_run_ok (enterWatch_run rfl _)]
  rfl

/-- Without a descriptor no watch is registered: the search is still running. -/
theorem createWatch_fid_fault {fuel : Nat}
    (hsearch : Store.searchFanotifyWd w.lib.store.byWd fuel w.lib.store.nextFanotifyWd = none)
    (fid filename : Bytes) : createWatch fuel 0 (some fid) filename 0 w = .error .outOfFuel := by
  have hassign := assignWd_zero fuel w
  rw [hsearch] at hassign
  unfold createWatch
  rw [if_neg (by decide), Prog.bind_run_error hassign]

/-- What `wd_of_fid` finds: the watch that is indexed, no path, or a new watch if the search for a
    descriptor ends. -/
theorem wdOfFid_run (hw : w.lib.store.WellIndexed) (fid : Bytes) :
    (∃ wd p w', (∀ fuel, wdOfFid fuel fid w = .ok ((wd, p), w')) ∧
      w'.lib.store = w.lib.store ∧ w.lib.store.wdOfKey (FidKey.new fid) = wd) ∨
    w.lib.store.byFid[FidKey.new fid]? = none ∧
      ∃ (p : CString) (w₁ : World σ), w₁.lib.store = w.lib.store ∧ ∀ fuel, wdOfFid fuel fid w =
        (createWatch fuel 0 (some fid) p.bytes 0 >>= fun wd => pure (wd, some p)) w₁ := by
  have hlookup : watchFromFid fid w = .ok (w.lib.store.byFid[FidKey.new fid]?, w) := rfl
  cases hid : w.lib.store.byFid[FidKey.new fid]? with
  | some id =>
      rw [hid] at hlookup
      obtain ⟨v, hv, -⟩ := hw.byFid _ _ hid
      refine .inl ⟨some v.wd, none, w, fun fuel => ?_, rfl, ?_⟩
      · exact (Prog.bind_run_ok hlookup).trans (Prog.bind_run_ok (watch_run hv))
      · simp [Store.wdOfKey, hid, hv]
  | none =>
      rw [hid] at hlookup
      obtain ⟨p, w₁, hrun, he⟩ := filenameFromFid_calm fid w hw
      cases p with
      | none =>
          refine .inl ⟨none, none, w₁, fun fuel => ?_, he.sameBooks.store, ?_⟩
          · exact (Prog.bind_run_ok hlookup).trans (Prog.bind_run_ok hrun)
          · simp [Store.wdOfKey, hid]
      | some p =>
          refine .inr ⟨rfl, p, w₁, he.sameBooks.store, fun fuel => ?_⟩
          exact (Prog.bind_run_ok hlookup).trans (Prog.bind_run_ok hrun)

/-- The descriptor that `wd_of_fid` returns is that of the fid from then on. -/
theorem wdOfFid_identified (hw : w.lib.store.WellIndexed) (hm : w.lib.fanotifyMode = true)
    {fid : Bytes} {fuel : Nat} {wd : Option Int32} {p : Option CString}
    (h : wdOfFid fuel fid w = .ok ((wd, p), w')) : Identified w fid wd w' := by
  have heffects := ((wdOfFid_sound (S := {.watch}) rfl nofun fuel fid w hw (.inl hm)).ok h).1
  rcases wdOfFid_run hw fid with ⟨wd₁, p₁, w₁, hrun, hstore, hwd⟩ | ⟨hnew, p₁, w₁, hstore, hrun⟩
  · rw [hrun] at h
    cases h
    exact ⟨heffects, by rw [hstore, hwd], fun n hn => hstore ▸ hn.mono (Nat.le_succ n)⟩
  · rw [hrun] at h
    cases hsearch : Store.searchFanotifyWd w₁.lib.store.byWd fuel w₁.lib.store.nextFanotifyWd with
    | none =>
        rw [Prog.bind_run_error (createWatch_fid_fault hsearch fid p₁.bytes)] at h
        cases h
    | some found =>
        rw [Prog.bind_run_ok (createWatch_fid_run hsearch fid p₁.bytes)] at h
        cases h
        refine ⟨heffects, ?_, fun n hn => ?_⟩
        · exact Store.wdOfKey_insert (hstore ▸ hnew) rfl
        · refine Store.Spare.insert (s := { w₁.lib.store with nextFanotifyWd := found }) ?_ _
          rw [hstore]
          exact hn

/-- While descriptors last `wd_of_fid` returns. -/
theorem wdOfFid_returns (hw : w.lib.store.WellIndexed) (hspare : w.lib.store.Spare 1) (fid : Bytes) :
    ∃ fuel₀ wd p w', ∀ fuel, fuel₀ ≤ fuel → wdOfFid fuel fid w = .ok ((wd, p), w') := by
  rcases wdOfFid_run hw fid with ⟨wd, p, w', hrun, -⟩ | ⟨-, p, w₁, hstore, hrun⟩
  · exact ⟨0, wd, p, w', fun fuel _ => hrun fuel⟩
  · rw [← hstore] at hspare
    obtain ⟨fuel₀, wd, hsearch⟩ := hspare.search w₁.lib.store.nextFanotifyWd
    refine ⟨fuel₀, some wd, some p, w₁.withStore (w₁.lib.store.enterFid wd fid p.bytes),
      fun fuel hfuel => ?_⟩
    rw [hrun, Prog.bind_run_ok (createWatch_fid_run (hsearch fuel hfuel) fid p.bytes)]
    rfl

end InotifyTools
