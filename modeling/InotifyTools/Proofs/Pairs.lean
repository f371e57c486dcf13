import InotifyTools.Base.Pairing
import InotifyTools.Proofs.Visible
import Mathlib.Order.Interval.Finset.Nat

set_option autoImplicit false

/-! # The store as a bijection of descriptors and names

As long as no key is reused, the descriptor index and the name index lead to the same watches, and
the store is a finite bijection between descriptors and names (`Pairing`): each operation with inotify
is one change of it. -/

namespace InotifyTools

open KeyedMap

variable {σ : Type}

/-! ## Two indexes, one set of watches -/

namespace Store

/-- The descriptor index and the name index lead to the same watches. -/
def Matched (s : Store) : Prop :=
  ∀ id, (∃ wd : Int32, s.byWd[wd]? = some id) ↔ ∃ n : Bytes, s.byFilename[n]? = some id

variable {s : Store} {id : Nat} {v : Watch} {n : Bytes} {wd : Int32}

/-- The watch found under a descriptor is found under its name. -/
theorem Matched.filename (h : s.Matched) (hs : s.WellIndexed) (hwd : s.byWd[wd]? = some id)
    (hv : s.watches[id]? = some v) : s.byFilename[v.filename.bytes]? = some id := by
  obtain ⟨n, hn⟩ := (h id).1 ⟨wd, hwd⟩
  have hkey : v.filename.bytes = n := Option.some.inj (hs.byFilename.key_eq hn hv)
  exact hkey ▸ hn

theorem Matched.descriptor (h : s.Matched) (hs : s.WellIndexed) (hn : s.byFilename[n]? = some id)
    (hv : s.watches[id]? = some v) : s.byWd[v.wd]? = some id := by
  obtain ⟨wd, hwd⟩ := (h id).2 ⟨n, hn⟩
  have hkey : v.wd = wd := Option.some.inj (hs.byWd.key_eq hwd hv)
  exact hkey ▸ hwd

/-- The two lookups are inverse to each other. -/
theorem Matched.nameOf_iff (h : s.Matched) (hs : s.WellIndexed) :
    s.nameOf wd = some n ↔ s.wdOf n = some wd := by
  constructor
  · intro hn
    cases hid : s.byWd[wd]? with
    | none => rw [nameOf_none hid] at hn; cases hn
    | some id =>
        obtain ⟨v, hv, hkey, hname⟩ := hs.found_wd hid
        cases hname.symm.trans hn
        rw [wdOf_some (h.filename hs hid hv) hv, hkey]
  · intro hwd
    cases hid : s.byFilename[n]? with
    | none => rw [wdOf_none hid] at hwd; cases hwd
    | some id =>
        obtain ⟨v, hv, hkey, hfound⟩ := hs.found_filename hid
        cases hfound.symm.trans hwd
        rw [nameOf_some (h.descriptor hs hid hv) hv, hkey]

theorem Matched.clearIndexes (s : Store) : s.clearIndexes.Matched := by
  intro id
  constructor <;> rintro ⟨k, h⟩ <;> simp [Store.clearIndexes] at h

/-- Entering a watch with two new keys. -/
theorem Matched.insert (h : s.Matched) (hwd : s.byWd[v.wd]? = none)
    (hn : s.byFilename[v.filename.bytes]? = none) : (s.insert v).Matched := by
  intro id
  constructor
  · rintro ⟨k, hk⟩
    rcases insertIfNew_eq hk with ⟨rfl, -⟩ | hk
    · refine ⟨v.filename.bytes, ?_⟩
      simp only [Store.insert, lookup_insertIfNew, hn, Option.getD_none, if_true]
    · obtain ⟨n, hn'⟩ := (h id).1 ⟨k, hk⟩
      refine ⟨n, ?_⟩
      simp only [Store.insert, lookup_insertIfNew, hn', Option.getD_some, ite_self]
  · rintro ⟨k, hk⟩
    rcases insertIfNew_eq hk with ⟨rfl, -⟩ | hk
    · refine ⟨v.wd, ?_⟩
      simp only [Store.insert, lookup_insertIfNew, hwd, Option.getD_none, if_true]
    · obtain ⟨wd, hwd'⟩ := (h id).2 ⟨k, hk⟩
      refine ⟨wd, ?_⟩
      simp only [Store.insert, lookup_insertIfNew, hwd', Option.getD_some, ite_self]

/-- A watch without a fid whose keys are both taken is not entered anywhere. -/
theorem Matched.insert_taken (h : s.Matched) (hs : s.WellIndexed) (hfid : v.fid = none)
    (hold : s.nameOf v.wd = some v.filename.bytes) : (s.insert v).Matched := by
  have hwd : s.byWd.contains v.wd = true := by
    rw [contains_eq_isSome]
    cases hid : s.byWd[v.wd]? with
    | none => rw [nameOf_none hid] at hold; cases hold
    | some id => rfl
  have hn : s.byFilename.contains v.filename.bytes = true := by
    have hwdOf := (h.nameOf_iff hs).1 hold
    rw [contains_eq_isSome]
    cases hid : s.byFilename[v.filename.bytes]? with
    | none => rw [wdOf_none hid] at hwdOf; cases hwdOf
    | some id => rfl
  have ha : s.accepts v = false := by simp [accepts, hwd, hn, hfid]
  obtain ⟨-, hbyWd, -, hbyFilename⟩ := lookups_of_not_accepts ha
  intro id
  simp only [hbyWd, hbyFilename]
  exact h id

/-- Renaming a watch to a free name, or to its own. -/
theorem Matched.rename (h : s.Matched) (hs : s.WellIndexed) (hv : s.watches[id]? = some v)
    (hlisted : s.byFilename[v.filename.bytes]? = some id) {m : CString}
    (hfree : s.byFilename[m.bytes]? = none ∨ m.bytes = v.filename.bytes) :
    (s.rename id v m).Matched := by
  have hnew : (s.releaseName id v)[m.bytes]? = none := by
    rw [releaseName, if_pos hlisted, lookup_erase]
    split
    · rfl
    · next hne => exact hfree.resolve_right fun he => hne he.symm
  intro i
  constructor
  · rintro ⟨k, hk⟩
    obtain ⟨n, hn⟩ := (h i).1 ⟨k, hk⟩
    by_cases hi : i = id
    · exact ⟨m.bytes, by rw [rename_byFilename, lookup_insertIfNew, hnew, if_pos rfl, hi]; rfl⟩
    · exact ⟨n, rename_keeps v m hi hn⟩
  · rintro ⟨k, hk⟩
    rw [rename_byFilename] at hk
    rcases insertIfNew_eq hk with ⟨rfl, -⟩ | hk
    · exact ⟨v.wd, h.descriptor hs hlisted hv⟩
    · rw [releaseName, if_pos hlisted] at hk
      exact (h i).2 ⟨k, erase_eq hk⟩

/-- The only entry leading to a record is gone once its key is erased. -/
theorem erased_ne {κ : Type} {cmp : κ → κ → Ordering} [Std.TransCmp cmp] [Std.LawfulEqCmp cmp]
    [DecidableEq κ] {key : Watch → Option κ} {idx : Std.TreeMap κ Nat cmp} {k k' : κ} {i : Nat}
    (h : Indexes key s.watches idx) (hk : idx[k]? = some id) (hk' : (idx.erase k)[k']? = some i) :
    i ≠ id ∧ idx[k']? = some i := by
  refine ⟨?_, erase_eq hk'⟩
  rintro rfl
  have hkey : k = k' := h.inj hk (erase_eq hk')
  rw [lookup_erase, if_pos hkey] at hk'
  cases hk'

/-- Erasing a key keeps the entries of other records. -/
theorem erased_keeps {κ : Type} {cmp : κ → κ → Ordering} [Std.TransCmp cmp] [Std.LawfulEqCmp cmp]
    [DecidableEq κ] {idx : Std.TreeMap κ Nat cmp} {k k' : κ} {i : Nat} (hk : idx[k]? = some id)
    (hi : i ≠ id) (hk' : idx[k']? = some i) : (idx.erase k)[k']? = some i := by
  rw [lookup_erase, if_neg]
  · exact hk'
  · rintro rfl
    exact hi (Option.some.inj (hk'.symm.trans hk))

/-- Destroying a watch found under both its keys. -/
theorem Matched.remove (h : s.Matched) (hs : s.WellIndexed) (hwd : s.byWd[v.wd]? = some id)
    (hn : s.byFilename[v.filename.bytes]? = some id) : (s.remove id v).Matched := by
  intro i
  constructor
  · rintro ⟨k, hk⟩
    obtain ⟨hi, hold⟩ := erased_ne hs.byWd hwd hk
    obtain ⟨n, hn'⟩ := (h i).1 ⟨k, hold⟩
    exact ⟨n, erased_keeps hn hi hn'⟩
  · rintro ⟨k, hk⟩
    obtain ⟨hi, hold⟩ := erased_ne hs.byFilename hn hk
    obtain ⟨wd, hwd'⟩ := (h i).2 ⟨k, hold⟩
    exact ⟨wd, erased_keeps hwd hi hwd'⟩

end Store

/-! ## The pairs of a store -/

/-- The pairs of descriptors and names. -/
abbrev Names := Pairing Int32 Bytes

/-- A world in inotify mode whose store is the bijection `p`. -/
structure Shows (w : World σ) (p : Names) : Prop where
  inotify : Inotify w
  matched : w.lib.store.Matched
  pairs : ∀ wd n, (wd, n) ∈ p.pairs ↔ w.lib.store.nameOf wd = some n
  proper : ∀ wd n, (wd, n) ∈ p.pairs → 0 < wd ∧ n ≠ []

namespace Shows

variable {w w' : World σ} {p : Names}

theorem wdOf (h : Shows w p) {wd : Int32} {n : Bytes} :
    (wd, n) ∈ p.pairs ↔ w.lib.store.wdOf n = some wd :=
  (h.pairs wd n).trans (h.matched.nameOf_iff h.inotify.wellIndexed)

/-- Operations that leave the store alone, or change no lookup. -/
theorem same (h : Shows w p) (hi : Inotify w') (hm : w'.lib.store.Matched)
    (hn : ∀ wd, w'.lib.store.nameOf wd = w.lib.store.nameOf wd) : Shows w' p :=
  ⟨hi, hm, fun wd n => by rw [h.pairs, hn], h.proper⟩

theorem leaves_same (h : Shows w p) (hl : Leaves w w.lib.store w') : Shows w' p := by
  have hi : Inotify w' := h.inotify.leaves hl h.inotify.wellIndexed h.inotify.plain
  refine h.same hi ?_ ?_
  · rw [hl.store]
    exact h.matched
  · intro wd
    rw [hl.store]

/-- Watching a file under two new keys adds a pair. -/
theorem watched (h : Shows w p) {v : Watch} (hl : Leaves w (w.lib.store.insert v) w')
    (hfid : v.fid = none) (hpos : 0 < v.wd) (hne : v.filename.bytes ≠ [])
    (hwd : w.lib.store.nameOf v.wd = none) (hn : w.lib.store.wdOf v.filename.bytes = none) :
    ∃ q, Pairing.Next p (.add v.wd v.filename.bytes) q ∧ Shows w' q := by
  have hs := h.inotify.wellIndexed
  have ha : ∀ n, (v.wd, n) ∉ p.pairs := by
    intro n hn'
    rw [h.pairs, hwd] at hn'
    cases hn'
  have hb : ∀ wd, (wd, v.filename.bytes) ∉ p.pairs := by
    intro wd hwd'
    rw [h.wdOf, hn] at hwd'
    cases hwd'
  refine ⟨p.add _ _ ha hb, .add p _ _ ha hb, ?_, ?_, ?_, ?_⟩
  · exact h.inotify.leaves hl (hs.insert v) (h.inotify.plain.insert hs hfid)
  · rw [hl.store]
    exact h.matched.insert (hs.nameOf_eq_none.1 hwd) (hs.wdOf_eq_none.1 hn)
  · intro wd n
    rw [hl.store, Store.nameOf_insert hs, Pairing.mem_add, h.pairs]
    by_cases he : v.wd = wd
    · subst he
      simp [hwd, eq_comm]
    · simp [he, Ne.symm he]
  · intro wd n hmem
    rcases Pairing.mem_add.1 hmem with ⟨rfl, rfl⟩ | hold
    · exact ⟨hpos, hne⟩
    · exact h.proper wd n hold

/-- Renaming a watch to a free name or its own changes its pair. -/
theorem renamed (h : Shows w p) {id : Nat} {v : Watch} {m : CString}
    (hwd : w.lib.store.byWd[v.wd]? = some id) (hv : w.lib.store.watches[id]? = some v)
    (hl : Leaves w (w.lib.store.rename id v m) w') (hne : m.bytes ≠ [])
    (hfree : w.lib.store.wdOf m.bytes = none ∨ m.bytes = v.filename.bytes) :
    ∃ q, Pairing.Next p (.rename v.wd m.bytes) q ∧ Shows w' q := by
  have hs := h.inotify.wellIndexed
  have hlisted := h.matched.filename hs hwd hv
  have hold : (v.wd, v.filename.bytes) ∈ p.pairs := (h.pairs _ _).2 (Store.nameOf_some hwd hv)
  have hb : ∀ wd, (wd, m.bytes) ∈ p.pairs → wd = v.wd := by
    intro wd hmem
    rcases hfree with hfree | hown
    · rw [h.wdOf, hfree] at hmem
      cases hmem
    · exact p.right (hown ▸ hmem) hold
  refine ⟨p.rename _ _ hb, .rename p _ _ _ hold hb, ?_, ?_, ?_, ?_⟩
  · exact h.inotify.leaves hl (hs.rename hv m) (h.inotify.plain.rename hv (.inl ⟨_, hwd⟩) m)
  · rw [hl.store]
    exact h.matched.rename hs hv hlisted (hfree.imp hs.wdOf_eq_none.1 fun he => he)
  · intro wd n
    rw [hl.store, Store.nameOf_rename hs hv, Pairing.mem_rename, h.pairs]
    by_cases he : wd = v.wd
    · subst he
      simp [hwd, eq_comm]
    · have hid : w.lib.store.byWd[wd]? ≠ some id := fun hid =>
        he (Option.some.inj (hs.byWd.key_eq hid hv)).symm
      simp [he, hid]
  · intro wd n hmem
    rcases Pairing.mem_rename.1 hmem with ⟨rfl, rfl⟩ | ⟨hmem, -⟩
    · exact ⟨(h.proper _ _ hold).1, hne⟩
    · exact h.proper wd n hmem

/-- Destroying a watch drops its pair. -/
theorem removed (h : Shows w p) {id : Nat} {v : Watch}
    (hwd : w.lib.store.byWd[v.wd]? = some id) (hv : w.lib.store.watches[id]? = some v)
    (hl : Leaves w (w.lib.store.remove id v) w') :
    ∃ q, Pairing.Next p (.drop v.wd) q ∧ Shows w' q := by
  have hs := h.inotify.wellIndexed
  have hold : (v.wd, v.filename.bytes) ∈ p.pairs := (h.pairs _ _).2 (Store.nameOf_some hwd hv)
  refine ⟨p.drop v.wd, .drop p _ _ hold, ?_, ?_, ?_, ?_⟩
  · exact h.inotify.leaves hl (hs.remove hv) h.inotify.plain.remove
  · rw [hl.store]
    exact h.matched.remove hs hwd (h.matched.filename hs hwd hv)
  · intro wd n
    rw [hl.store, Store.nameOf_remove hs hv, Pairing.mem_drop, h.pairs]
    by_cases he : v.wd = wd
    · simp [he]
    · simp [he, Ne.symm he]
  · exact fun wd n hmem => h.proper wd n (Pairing.mem_drop.1 hmem).1

end Shows

/-! ## The operations -/

variable [Sys σ]

/-- What the kernel answers when it is to drop the watch `wd`; a negative answer refuses. -/
def answeredRemoval (w : World σ) (wd : Int32) : Int32 := (Sys.inotifyRmWatch w.lib.fd wd w.os).1

/-- One of the operations on names, or a change of the operating system: what it does to the pairs. A
    file is watched under two new keys or again under its own two; a watch is renamed to a free name
    or its own; a watch is removed if the kernel drops it. -/
inductive NameStep : World σ → Pairing.Change Int32 Bytes → World σ → Prop
  | outside (w : World σ) (os : σ) : NameStep w .same { w with os }
  | refused {w w' : World σ} {fuel : Nat} {fname : Bytes} {events : Int32}
      (h : watchFile fuel fname events w = .ok (false, w')) : NameStep w .same w'
  | watchedAgain {w w' : World σ} {fuel : Nat} {fname : Bytes} {events : Int32}
      (hold : w.lib.store.nameOf (answeredWd w fname events) = some (answeredName w fname events))
      (h : watchFile fuel fname events w = .ok (true, w')) : NameStep w .same w'
  | watched {w w' : World σ} {fuel : Nat} {fname : Bytes} {events : Int32}
      (hans : 0 < answeredWd w fname events) (hname : answeredName w fname events ≠ [])
      (hwd : w.lib.store.nameOf (answeredWd w fname events) = none)
      (hn : w.lib.store.wdOf (answeredName w fname events) = none)
      (h : watchFile fuel fname events w = .ok (true, w')) :
      NameStep w (.add (answeredWd w fname events) (answeredName w fname events)) w'
  | renamedByWd {w w' : World σ} {wd : Int32} {n : Bytes} (hne : n ≠ []) (hnul : 0 ∉ n)
      (hfree : ∀ old, w.lib.store.nameOf wd = some old → w.lib.store.wdOf n = none ∨ n = old)
      (h : setFilenameByWd wd n w = .ok ((), w')) :
      NameStep w (if w.lib.store.nameOf wd = none then .same else .rename wd n) w'
  | renamedByFilename {w w' : World σ} {old n : Bytes} (hne : n ≠ []) (hnul : 0 ∉ n)
      (hfree : w.lib.store.wdOf old ≠ none → w.lib.store.wdOf n = none ∨ n = old)
      (h : setFilenameByFilename old n w = .ok ((), w')) :
      NameStep w (match w.lib.store.wdOf old with | none => .same | some wd => .rename wd n) w'
  | removedByWd {w w' : World σ} {wd : Int32} {ok : Bool}
      (h : removeWatchByWd wd w = .ok (ok, w')) :
      NameStep w (if w.lib.store.nameOf wd ≠ none ∧ 0 ≤ answeredRemoval w wd then .drop wd
        else .same) w'
  | removedByFilename {w w' : World σ} {n : Bytes} {ok : Bool}
      (h : removeWatchByFilename n w = .ok (ok, w')) :
      NameStep w (match w.lib.store.wdOf n with
        | none => .same
        | some wd => if 0 ≤ answeredRemoval w wd then .drop wd else .same) w'

/-- The operations one after the other. -/
inductive NameRun : World σ → List (Pairing.Change Int32 Bytes) → World σ → Prop
  | nil (w : World σ) : NameRun w [] w
  | snoc {w w' w'' : World σ} {cs : List (Pairing.Change Int32 Bytes)}
      {c : Pairing.Change Int32 Bytes} (h : NameRun w cs w') (hs : NameStep w' c w'') :
      NameRun w (cs ++ [c]) w''

namespace Shows

variable {w w' : World σ} {p : Names}

/-- The answer to a file that could not be watched. -/
theorem answered_neg (hz : ¬ AnsweredZero σ) (h : Inotify w) {fuel : Nat} {fname : Bytes}
    {events : Int32} (hrun : watchFile fuel fname events w = .ok (false, w')) :
    answeredWd w fname events < 0 := by
  by_contra hneg
  have hne : answeredWd w fname events ≠ 0 := fun he => hz ⟨_, _, _, _, he⟩
  have hpos : 0 < answeredWd w fname events := by grind
  obtain ⟨u, hok, -⟩ := watchFile_watched h hpos fuel
  rw [hok] at hrun
  cases hrun

/-- Removing the watch `id`, as the kernel decides. -/
theorem of_removeWatch (h : Shows w p) {id : Nat} {v : Watch} {ok : Bool}
    (hwd : w.lib.store.byWd[v.wd]? = some id) (hv : w.lib.store.watches[id]? = some v)
    (hrun : removeWatch (some id) w = .ok (ok, w')) :
    ∃ q, Pairing.Next p (if 0 ≤ answeredRemoval w v.wd then .drop v.wd else .same) q ∧
      Shows w' q := by
  obtain ⟨u, hrun', hl⟩ := removeWatch_run h.inotify.initialized hv
    (h.inotify.plain id v (.inl ⟨_, hwd⟩) hv)
  rw [hrun'] at hrun
  cases hrun
  unfold answeredRemoval
  by_cases hacc : 0 ≤ (Sys.inotifyRmWatch w.lib.fd v.wd w.os).1
  · rw [if_pos hacc] at hl ⊢
    exact h.removed hwd hv hl
  · rw [if_neg hacc] at hl ⊢
    exact ⟨p, .same p, h.leaves_same hl⟩

omit [Sys σ] in
/-- Renaming the watch `id`. -/
theorem of_renameWatch (h : Shows w p) {id : Nat} {v : Watch} {n : Bytes}
    (hwd : w.lib.store.byWd[v.wd]? = some id) (hv : w.lib.store.watches[id]? = some v)
    (hne : n ≠ []) (hnul : 0 ∉ n) (hfree : w.lib.store.wdOf n = none ∨ n = v.filename.bytes)
    (hrun : renameWatch id n w = .ok ((), w')) :
    ∃ q, Pairing.Next p (.rename v.wd n) q ∧ Shows w' q := by
  rw [renameWatch_run hv] at hrun
  cases hrun
  have hbytes : (cstring n).bytes = n := bytes_cstring hnul
  have hl : Leaves w (w.lib.store.rename id v (cstring n))
      { w with lib := { w.lib with store := w.lib.store.rename id v (cstring n) } } :=
    ⟨w.lib.error, w.os, rfl⟩
  have hrenamed := h.renamed hwd hv hl (by rwa [hbytes]) (by rwa [hbytes])
  rwa [hbytes] at hrenamed

/-- **Each operation is a change of the pairing.** -/
theorem step (hz : ¬ AnsweredZero σ) (h : Shows w p) {c : Pairing.Change Int32 Bytes}
    (hstep : NameStep w c w') : ∃ q, Pairing.Next p c q ∧ Shows w' q := by
  have hs := h.inotify.wellIndexed
  cases hstep with
  | outside os =>
      exact ⟨p, .same p, ⟨⟨h.inotify.initialized, h.inotify.mode, hs, h.inotify.plain⟩, h.matched,
        h.pairs, h.proper⟩⟩
  | @refused _ fuel fname events hrun =>
      obtain ⟨u, hrun', hl⟩ := watchFile_refused h.inotify (answered_neg hz h.inotify hrun) fuel
      rw [hrun'] at hrun
      cases hrun
      exact ⟨p, .same p, h.leaves_same hl⟩
  -- `create_watch` keeps an entry it finds, under either key
  | @watchedAgain _ fuel fname events hold hrun =>
      have hname := acceptedWatch_filename w fname events
      obtain ⟨u, hrun', hl⟩ := watchFile_watched h.inotify
        (h.proper _ _ ((h.pairs _ _).2 hold)).1 fuel
      rw [hrun'] at hrun
      cases hrun
      refine ⟨p, .same p, h.same ?_ ?_ ?_⟩
      · exact h.inotify.leaves hl (hs.insert _) (h.inotify.plain.insert hs rfl)
      · rw [hl.store]
        exact h.matched.insert_taken hs rfl (by rwa [hname])
      · intro wd
        rw [hl.store, Store.nameOf_insert hs]
        split
        · next he =>
            have hwd : w.lib.store.nameOf wd = some (answeredName w fname events) := he ▸ hold
            rw [hwd, Option.getD_some]
        · rfl
  | @watched _ fuel fname events hans hne hwd hn hrun =>
      have hname := acceptedWatch_filename w fname events
      obtain ⟨u, hrun', hl⟩ := watchFile_watched h.inotify hans fuel
      rw [hrun'] at hrun
      cases hrun
      have hwatched := h.watched hl rfl hans (by rwa [hname]) hwd (by rwa [hname])
      rwa [hname] at hwatched
  | @renamedByWd _ wd n hne hnul hfree hrun =>
      cases hid : w.lib.store.byWd[wd]? with
      | none =>
          rw [setFilenameByWd_missing h.inotify hid] at hrun
          cases hrun
          rw [if_pos (Store.nameOf_none hid)]
          exact ⟨p, .same p, h⟩
      | some id =>
          obtain ⟨v, hv, rfl, hname⟩ := hs.found_wd hid
          rw [if_neg (by simp [hname])]
          unfold setFilenameByWd at hrun
          rw [Prog.bind_run_ok (assertInit_run h.inotify.initialized),
            Prog.bind_run_ok (rfl : watchFromWd _ w = .ok (w.lib.store.byWd[_]?, w)), hid] at hrun
          exact h.of_renameWatch hid hv hne hnul (hfree _ hname) hrun
  -- the pairing gives the descriptor of the name, under which the entry is indexed too
  | @renamedByFilename _ old n hne hnul hfree hrun =>
      cases hid : w.lib.store.byFilename[old]? with
      | none =>
          rw [setFilenameByFilename_missing hid] at hrun
          cases hrun
          rw [Store.wdOf_none hid]
          exact ⟨p, .same p, h⟩
      | some id =>
          obtain ⟨v, hv, rfl, hwd⟩ := hs.found_filename hid
          rw [hwd]
          unfold setFilenameByFilename at hrun
          rw [Prog.bind_run_ok
            (rfl : watchFromFilename _ w = .ok (w.lib.store.byFilename[_]?, w)), hid] at hrun
          exact h.of_renameWatch (h.matched.descriptor hs hid hv) hv hne hnul
            (hfree (by simp [hwd])) hrun
  -- what is not indexed is not removed, whatever the kernel would say
  | @removedByWd _ wd ok hrun =>
      have hrun' : removeWatch w.lib.store.byWd[wd]? w = .ok (ok, w') := hrun
      cases hid : w.lib.store.byWd[wd]? with
      | none =>
          rw [hid, removeWatch_missing h.inotify.initialized] at hrun'
          cases hrun'
          rw [Store.nameOf_none hid, if_neg (by simp)]
          exact ⟨p, .same p, h⟩
      | some id =>
          obtain ⟨v, hv, rfl, hname⟩ := hs.found_wd hid
          rw [hid] at hrun'
          simp only [hname, ne_eq, reduceCtorEq, not_false_eq_true, true_and]
          exact h.of_removeWatch hid hv hrun'
  | @removedByFilename _ n ok hrun =>
      have hrun' : removeWatch w.lib.store.byFilename[n]? w = .ok (ok, w') := hrun
      cases hid : w.lib.store.byFilename[n]? with
      | none =>
          rw [hid, removeWatch_missing h.inotify.initialized] at hrun'
          cases hrun'
          rw [Store.wdOf_none hid]
          exact ⟨p, .same p, h⟩
      | some id =>
          obtain ⟨v, hv, rfl, hwd⟩ := hs.found_filename hid
          rw [hid] at hrun'
          rw [hwd]
          exact h.of_removeWatch (h.matched.descriptor hs hid hv) hv hrun'

/-- **Every run of the operations is a run of the pairing.** -/
theorem run (hz : ¬ AnsweredZero σ) (h : Shows w p) {cs : List (Pairing.Change Int32 Bytes)}
    (hrun : NameRun w cs w') : ∃ q, Pairing.Run p cs q ∧ Shows w' q := by
  induction hrun with
  | nil => exact ⟨p, .nil p, h⟩
  | snoc _ hstep ih =>
      obtain ⟨q, hq, hshows⟩ := ih
      obtain ⟨r, hnext, hshows'⟩ := hshows.step hz hstep
      exact ⟨r, .snoc hq hnext, hshows'⟩

/-- Initialising shows the empty pairing. -/
theorem init {env : σ → σ → Prop} (h : Reachable env w) (hi : w.lib.initialized = false)
    {watchFilesystem : Bool} {verbose : Int32}
    (hrun : InotifyTools.init false watchFilesystem verbose w = .ok (true, w')) :
    Shows w' .empty := by
  obtain ⟨pid, mark, os₁, fd, os, -, -, -, hrun'⟩ := init_run hi false watchFilesystem verbose
  rw [hrun] at hrun'
  split at hrun'
  · cases hrun'
  · cases hrun'
    refine ⟨⟨rfl, rfl, h.wellIndexed.clearIndexes, .clearIndexes _⟩, .clearIndexes _, ?_, ?_⟩
    · intro wd n
      have hnone : w.lib.store.clearIndexes.nameOf wd = none := by
        simp [Store.nameOf, Store.clearIndexes]
      simp [Pairing.empty, hnone]
    · intro wd n hmem
      simp [Pairing.empty] at hmem

end Shows

/-! ## What the operations answer -/

/-- What a handle that holds the pairs `p` answers. -/
structure Answers (w : World σ) (p : Names) : Prop where
  /-- A descriptor and its name lead to each other. -/
  pair : ∀ wd n, (wd, n) ∈ p.pairs →
    wdFromFilename n w = .ok (wd, w) ∧ filenameFromWd wd w = .ok (n, w)
  /-- Other names and descriptors lead to nothing. -/
  noName : ∀ n, (∀ wd, (wd, n) ∉ p.pairs) → wdFromFilename n w = .ok (-1, w)
  noWd : ∀ wd, (∀ n, (wd, n) ∉ p.pairs) → filenameFromWd wd w = .ok ([], w)
  /-- The pairs are counted. -/
  count : ∃ k : Int32, getNumWatches w = .ok (k, w) ∧ k.toInt = p.card
  /-- Removing by name is removing by the descriptor of the name. -/
  removal : ∀ n, removeWatchByFilename n w = (wdFromFilename n >>= removeWatchByWd) w

namespace Shows

variable {w : World σ} {p : Names}

omit [Sys σ] in
/-- Descriptors being positive, there are fewer than 2^31 pairs. -/
theorem card_lt (h : Shows w p) : p.card < 2 ^ 31 := by
  have hcard : (p.pairs.image Prod.fst).card = p.card := by
    refine Finset.card_image_of_injOn ?_
    rintro ⟨wd, n⟩ hmem ⟨wd', n'⟩ hmem' (rfl : wd = wd')
    rw [p.left hmem hmem']
  rw [← hcard]
  refine KeyedMap.card_lt_of_positive fun wd hwd => ?_
  obtain ⟨⟨wd, n⟩, hmem, rfl⟩ := Finset.mem_image.1 hwd
  exact (h.proper wd n hmem).1

omit [Sys σ] in
/-- The name index has as many entries as there are pairs. -/
theorem size_eq_card (h : Shows w p) : w.lib.store.byFilename.size = p.card := by
  have hs := h.inotify.wellIndexed
  have hcard : (p.pairs.image Prod.snd).card = p.card := by
    refine Finset.card_image_of_injOn ?_
    rintro ⟨wd, n⟩ hmem ⟨wd', n'⟩ hmem' (rfl : n = n')
    rw [p.right hmem hmem']
  rw [← hcard]
  refine KeyedMap.size_eq_card _ _ fun n => ?_
  constructor
  · intro hmem
    obtain ⟨⟨wd, n⟩, hpair, rfl⟩ := Finset.mem_image.1 hmem
    cases hid : w.lib.store.byFilename[n]? with
    | none =>
        rw [h.wdOf, Store.wdOf_none hid] at hpair
        cases hpair
    | some id => exact ⟨id, rfl⟩
  · rintro ⟨id, hid⟩
    obtain ⟨v, -, -, hwd⟩ := hs.found_filename hid
    exact Finset.mem_image.2 ⟨(v.wd, n), h.wdOf.2 hwd, rfl⟩

theorem wdFromFilename_run (h : Shows w p) (n : Bytes) :
    wdFromFilename n w = .ok ((w.lib.store.wdOf n).getD (-1), w) := by
  rw [InotifyTools.wdFromFilename_run h.inotify.storedNames]
  by_cases hn : n = []
  · have hnone : w.lib.store.wdOf n = none := by
      cases hwd : w.lib.store.wdOf n with
      | none => rfl
      | some wd => exact absurd hn (h.proper wd n (h.wdOf.2 hwd)).2
    rw [if_pos hn, hnone]
    rfl
  · rw [if_neg hn]

theorem filenameFromWd_run (h : Shows w p) (wd : Int32) :
    filenameFromWd wd w = .ok ((w.lib.store.nameOf wd).getD [], w) := by
  rw [InotifyTools.filenameFromWd_run h.inotify.storedNames]
  by_cases hwd : wd = 0
  · have hnone : w.lib.store.nameOf wd = none := by
      cases hn : w.lib.store.nameOf wd with
      | none => rfl
      | some n =>
          have hpos : 0 < wd := (h.proper wd n ((h.pairs wd n).2 hn)).1
          subst hwd
          exact absurd hpos (by decide)
    rw [if_pos hwd, hnone]
    rfl
  · rw [if_neg hwd]

omit [Sys σ] in
/-- No watch is found under a descriptor that is not positive. -/
theorem byWd_neg (h : Shows w p) : w.lib.store.byWd[(-1 : Int32)]? = none := by
  cases hid : w.lib.store.byWd[(-1 : Int32)]? with
  | none => rfl
  | some id =>
      obtain ⟨v, -, -, hn⟩ := h.inotify.wellIndexed.found_wd hid
      exact absurd (h.proper _ _ ((h.pairs _ _).2 hn)).1 (by decide)

theorem answers (h : Shows w p) : Answers w p where
  pair wd n hmem := by
    rw [h.wdFromFilename_run, h.filenameFromWd_run, h.wdOf.1 hmem, (h.pairs wd n).1 hmem]
    exact ⟨rfl, rfl⟩
  noName n hn := by
    rw [h.wdFromFilename_run]
    cases hwd : w.lib.store.wdOf n with
    | none => rfl
    | some wd => exact absurd (h.wdOf.2 hwd) (hn wd)
  noWd wd hwd := by
    rw [h.filenameFromWd_run]
    cases hn : w.lib.store.nameOf wd with
    | none => rfl
    | some n => exact absurd ((h.pairs wd n).2 hn) (hwd n)
  count := by
    refine ⟨_, rfl, ?_⟩
    show (Int32.ofNat w.lib.store.byFilename.size).toInt = p.card
    rw [h.size_eq_card]
    exact Int32.toInt_ofNat_of_lt h.card_lt
  removal n := by
    have hs := h.inotify.wellIndexed
    rw [Prog.bind_run_ok (h.wdFromFilename_run n)]
    show removeWatch w.lib.store.byFilename[n]? w = removeWatch w.lib.store.byWd[_]? w
    cases hid : w.lib.store.byFilename[n]? with
    | none => rw [Store.wdOf_none hid, Option.getD_none, h.byWd_neg]
    | some id =>
        obtain ⟨v, hv, rfl, hwd⟩ := hs.found_filename hid
        rw [hwd, Option.getD_some, h.matched.descriptor hs hid hv]

end Shows

/-- **The store is a bijection of descriptors and names.** After any run of the operations on a newly
    initialised handle, the handle answers as the pairing does that took the same changes: a pair
    counts when it is added, and not any more when it is dropped; and so on with each further
    operation. -/
theorem names_paired {env : σ → σ → Prop} (hz : ¬ AnsweredZero σ) {w₀ w₁ w : World σ}
    (h : Reachable env w₀) (hi : w₀.lib.initialized = false) {watchFilesystem : Bool}
    {verbose : Int32} (hinit : init false watchFilesystem verbose w₀ = .ok (true, w₁))
    {cs : List (Pairing.Change Int32 Bytes)} (hrun : NameRun w₁ cs w) :
    ∃ p : Names, Pairing.Run .empty cs p ∧ Answers w p ∧
      p.card + cs.countP Pairing.Change.isDrop = cs.countP Pairing.Change.isAdd ∧
      ∀ c w', NameStep w c w' → ∃ q, Pairing.Next p c q ∧ Answers w' q := by
  obtain ⟨p, hp, hshows⟩ := (Shows.init h hi hinit).run hz hrun
  refine ⟨p, hp, hshows.answers, ?_, ?_⟩
  · have hcard := hp.card
    rwa [show (Pairing.empty : Names).card = 0 from rfl, Nat.zero_add] at hcard
  · intro c w' hstep
    obtain ⟨q, hq, hshows'⟩ := hshows.step hz hstep
    exact ⟨q, hq, hshows'.answers⟩

/-- A directory is watched; the kernel has lost the watch and refuses to drop it, and then, knowing it
    again, drops it. -/
theorem names_paired_desk :
    let w₀ : World Desk := { lib := Inotifytools.new, os := { dirs := [ascii "d"] } }
    let w₁ := w₀.after 9 [.init false false 0]
    let w₂ := w₁.after 9 [.watchFiles [ascii "d"] 2]
    let w₃ : World Desk := { w₂ with os := { w₂.os with watched := [] } }
    let w₄ := w₃.after 9 [.removeWatchByWd 1]
    let w₅ : World Desk := { w₄ with os := w₂.os }
    let w₆ := w₅.after 9 [.removeWatchByWd 1]
    ∃ p q : Names, Pairing.Run .empty [.add 1 (ascii "d/"), .same, .same, .same] p ∧
      p.card = 1 ∧ Pairing.Next p (.drop 1) q ∧ Answers w₆ q := by
  intro w₀ w₁ w₂ w₃ w₄ w₅ w₆
  have hinit : init false false 0 w₀ = .ok (true, w₁) :=
    World.after_of_result _ _ rfl (by decide +kernel)
  have hwatch : watchFile 9 (ascii "d") 2 w₁ = .ok (true, w₂) :=
    World.after_of_result _ (.watchFiles [ascii "d"] 2) (m := watchFile 9 (ascii "d") 2) rfl
      (by decide +kernel)
  have hwd : answeredWd w₁ (ascii "d") 2 = 1 := by decide +kernel
  have hname : answeredName w₁ (ascii "d") 2 = ascii "d/" := by decide +kernel
  have hadd := NameStep.watched (by decide +kernel) (by decide +kernel) (by decide +kernel)
    (by decide +kernel) hwatch
  rw [hwd, hname] at hadd
  have hrefused : NameStep w₃ .same w₄ := by
    have hstep := NameStep.removedByWd
      (World.after_of_result (w := w₃) 9 (.removeWatchByWd 1) (m := removeWatchByWd 1) rfl
        (by decide +kernel : _ = some false))
    rwa [if_neg (by decide +kernel)] at hstep
  have hdropped : NameStep w₅ (.drop 1) w₆ := by
    have hstep := NameStep.removedByWd
      (World.after_of_result (w := w₅) 9 (.removeWatchByWd 1) (m := removeWatchByWd 1) rfl
        (by decide +kernel : _ = some true))
    rwa [if_pos (by decide +kernel)] at hstep
  obtain ⟨p, hp, -, hcard, hnext⟩ := names_paired Desk.kernelWatches.not_answeredZero
    ⟨_, World.run_after Desk.Forgets 9 w₀ []⟩ rfl hinit
    (.snoc (.snoc (.snoc (.snoc (.nil w₁) hadd) (.outside w₂ w₃.os)) hrefused) (.outside w₄ w₅.os))
  obtain ⟨q, hq, hanswers⟩ := hnext _ _ hdropped
  have hcount : ∀ k d a : Nat, k + d = a → d = 0 → a = 1 → k = 1 := by omega
  exact ⟨p, q, hp, hcount _ _ _ hcard rfl rfl, hq, hanswers⟩

end InotifyTools
