import InotifyTools.Base.Probing
import InotifyTools.Proofs.Fids

set_option autoImplicit false

/-! # The numbering of fanotify watches

The search for a free descriptor counts up from the last one handed out and starts over at 1. It
passes each occupied descriptor once at most. -/

namespace InotifyTools

open Std (TreeMap)

namespace Store

/-- The positive descriptors in use. -/
def positiveKeys (byWd : TreeMap Int32 Nat) : List Int32 := byWd.keys.filter (0 < ·)

variable {byWd : TreeMap Int32 Nat} {fuel : Nat} {n wd : Int32}

theorem searchFanotifyWd_eq_probe (byWd : TreeMap Int32 Nat) (fuel : Nat) (n : Int32) :
    searchFanotifyWd byWd fuel n = Probing.probe nextWd byWd.contains fuel n := by
  induction fuel generalizing n with
  | zero => rfl
  | succ fuel ih => rw [searchFanotifyWd_succ, Probing.probe, ih]

theorem nextWd_pos (n : Int32) : 0 < nextWd n := by
  have hlow := n.le_toInt
  rw [Int32.lt_iff_toInt_lt, toInt_nextWd, Int32.toInt_zero]
  split <;> omega

theorem searchFanotifyWd_pos (h : searchFanotifyWd byWd fuel n = some wd) : 0 < wd := by
  induction fuel generalizing n with
  | zero => cases h
  | succ fuel ih =>
      rw [searchFanotifyWd_succ] at h
      split at h
      · exact ih h
      · cases h
        exact nextWd_pos n

theorem searchFanotifyWd_free (h : searchFanotifyWd byWd fuel n = some wd) : wd ∉ byWd := by
  rw [searchFanotifyWd_eq_probe] at h
  have hcontains := Probing.probe_free h
  intro hmem
  rw [TreeMap.mem_iff_contains] at hmem
  rw [hmem] at hcontains
  cases hcontains

/-- **The search ends with a fresh descriptor, and passes each descriptor in use once at most.** -/
theorem searchFanotifyWd_fresh (hfree : ∃ wd, 0 < wd ∧ wd ∉ byWd) (n : Int32) :
    ∃ wd, searchFanotifyWd byWd ((positiveKeys byWd).length + 1) n = some wd ∧ 0 < wd ∧
      wd ∉ byWd := by
  obtain ⟨free, hpos, hfree⟩ := hfree
  have hends : ∃ fuel, Probing.probe nextWd byWd.contains fuel n ≠ none := by
    obtain ⟨fuel, hfuel⟩ := searchFanotifyWd_ends hpos
      (TreeMap.getElem?_eq_none hfree) n
    exact ⟨fuel, searchFanotifyWd_eq_probe byWd fuel n ▸ hfuel⟩
  have hvisited : ∀ i, byWd.contains (nextWd^[i + 1] n) = true →
      nextWd^[i + 1] n ∈ (positiveKeys byWd).toFinset := by
    intro i htaken
    have hnext : 0 < nextWd^[i + 1] n := by
      rw [Function.iterate_succ_apply']
      exact nextWd_pos _
    exact List.mem_toFinset.2 (List.mem_filter.2 ⟨TreeMap.mem_keys.2 htaken, decide_eq_true hnext⟩)
  obtain ⟨wd, hprobe⟩ := Probing.probe_ends hends hvisited
  have hcard := List.toFinset_card_le (positiveKeys byWd)
  have hsearch := Probing.probe_mono hprobe (Nat.succ_le_succ hcard)
  rw [← searchFanotifyWd_eq_probe] at hsearch
  exact ⟨wd, hsearch, searchFanotifyWd_pos hsearch, searchFanotifyWd_free hsearch⟩

end Store

variable {σ : Type} [Sys σ]

/-- **Registering a watch without a descriptor ends with a fresh one,** after one round more than
    there are positive descriptors in use, at most. -/
theorem createWatch_fresh (w : World σ) (hfree : ∃ wd, 0 < wd ∧ wd ∉ w.lib.store.byWd) :
    ∃ wd, Store.searchFanotifyWd w.lib.store.byWd
        ((Store.positiveKeys w.lib.store.byWd).length + 1) w.lib.store.nextFanotifyWd = some wd ∧
      0 < wd ∧ wd ∉ w.lib.store.byWd ∧
      ∀ fuel fid filename dirf, (Store.positiveKeys w.lib.store.byWd).length < fuel →
        ∃ w', createWatch fuel 0 fid filename dirf w = .ok (some wd, w') ∧
          w'.lib.store.nextFanotifyWd = wd := by
  obtain ⟨wd, hsearch, hpos, hfresh⟩ :=
    Store.searchFanotifyWd_fresh hfree w.lib.store.nextFanotifyWd
  refine ⟨wd, hsearch, hpos, hfresh, fun fuel fid filename dirf hfuel => ?_⟩
  have hassign := assignWd_zero fuel w
  rw [Store.searchFanotifyWd_more hsearch hfuel] at hassign
  have haccepts : Store.accepts { w.lib.store with nextFanotifyWd := wd }
      (Watch.mk fid (cstring filename) wd dirf {}) = true := by
    have hcontains : w.lib.store.byWd.contains wd = false :=
      Bool.eq_false_iff.2 fun h => hfresh (TreeMap.mem_iff_contains.2 h)
    simp [Store.accepts, hcontains]
  have henter := enterWatch_accepted
    (w := w.withStore { w.lib.store with nextFanotifyWd := wd }) haccepts
  unfold createWatch
  rw [if_neg (by decide)]
  exact ⟨_, (Prog.bind_run_ok hassign).trans ((Prog.bind_run_ok henter).trans rfl), rfl⟩

/-- A handle whose last descriptor was the greatest, with 1 still in use. -/
def deskWrap : World Desk where
  os := {}
  lib := { Inotifytools.new with
    store := { Store.empty.insert (Watch.mk none (cstring (ascii "a")) 1 0 {}) with
      nextFanotifyWd := 0x7fffffff } }

theorem createWatch_fresh_desk :
    ∃ w', createWatch 2 0 none (ascii "b") 0 deskWrap = .ok (some 2, w') := by
  have hfree : ∃ wd, 0 < wd ∧ wd ∉ deskWrap.lib.store.byWd := ⟨2, by decide, by decide +kernel⟩
  obtain ⟨wd, hsearch, -, -, hrun⟩ := createWatch_fresh deskWrap hfree
  have hfound : Store.searchFanotifyWd deskWrap.lib.store.byWd
      ((Store.positiveKeys deskWrap.lib.store.byWd).length + 1)
      deskWrap.lib.store.nextFanotifyWd = some 2 := by decide +kernel
  obtain rfl : wd = 2 := Option.some.inj (hsearch.symm.trans hfound)
  obtain ⟨w', hcreate, -⟩ := hrun 2 none (ascii "b") 0 (by decide +kernel)
  exact ⟨w', hcreate⟩

end InotifyTools
