import InotifyTools.Proofs.Excluded
import InotifyTools.Proofs.Rewriting

set_option autoImplicit false

/-! # Neighbours of a watch

What a bulk rename does to watches outside the directory that was moved, and what the removal of a
watch does to those that share its name. -/

namespace InotifyTools

open KeyedMap

variable {σ : Type} {w : World σ}

/-! ## Bulk renames, whatever the names -/

/-- The watch after its round of a bulk rename. -/
def Watch.renamedBelow (old new : Bytes) (v : Watch) : Watch :=
  if old <+: v.filename.bytes ∧ v.filename.bytes ≠ new then
    { v with filename := cstring (new ++ v.filename.bytes.drop old.length) }
  else v

theorem Store.watches_renameBelow {s : Store} {id : Nat} {v : Watch}
    (hv : s.watches[id]? = some v) (old new : Bytes) (i : Nat) :
    (s.renameBelow old new id v).watches[i]? =
      if id = i then some (v.renamedBelow old new) else s.watches[i]? := by
  unfold renameBelow Watch.renamedBelow
  split
  · exact lookup_insert s.watches id i _
  · split
    · next he => rw [← he, hv]
    · rfl

/-- In a bulk rename a watch gets another name in its own round alone. -/
theorem replaceFilenames_watches (old new : Bytes) {ids : List Nat} (hids : ids.Nodup)
    (w : World σ) :
    ∃ s, replaceFilenames old new ids w = .ok ((), { w with lib := { w.lib with store := s } }) ∧
      ∀ id : Nat, s.watches[id]? = w.lib.store.watches[id]?.map fun v =>
        if id ∈ ids then v.renamedBelow old new else v := by
  induction ids generalizing w with
  | nil => exact ⟨_, rfl, fun id => by simp⟩
  | cons id ids ih =>
      obtain ⟨hid, hnodup⟩ := List.nodup_cons.1 hids
      unfold replaceFilenames
      cases hv : w.lib.store.watches[id]? with
      | none =>
          have hround : replaceFilenameOf old new id w = .ok ((), w) := by
            unfold replaceFilenameOf
            rw [getLib_bind, hv]
            rfl
          obtain ⟨s, hrun, hs⟩ := ih hnodup w
          refine ⟨s, by rw [Prog.bind_run_ok hround, hrun], fun i => ?_⟩
          rw [hs]
          by_cases hi : i = id
          · rw [hi, hv, Option.map_none, Option.map_none]
          · simp only [List.mem_cons, hi, false_or]
      | some v =>
          let s₁ := w.lib.store.renameBelow old new id v
          obtain ⟨s, hrun, hs⟩ := ih hnodup { w with lib := { w.lib with store := s₁ } }
          refine ⟨s, by rw [Prog.bind_run_ok (replaceFilenameOf_run hv), hrun], fun i => ?_⟩
          rw [hs, show s₁.watches[i]? = _ from Store.watches_renameBelow hv old new i]
          by_cases hi : id = i
          · subst hi
            rw [if_pos rfl, hv, Option.map_some, Option.map_some, if_neg hid,
              if_pos List.mem_cons_self]
          · rw [if_neg hi]
            simp only [List.mem_cons, Ne.symm hi, false_or]

/-! ## Siblings -/

/-- `n` is the directory `d` or lies below it, with or without trailing '/'. -/
def AtOrBelow (d n : Bytes) : Prop := spelled d <+: spelled n

instance (d n : Bytes) : Decidable (AtOrBelow d n) :=
  inferInstanceAs (Decidable (spelled d <+: spelled n))

/-- Only watches at or below `d` have other names in `s'` than in `s`. -/
def RenamesWithin (d : Bytes) (s s' : Store) : Prop :=
  ∀ (id : Nat) (v v' : Watch), s.watches[id]? = some v → s'.watches[id]? = some v' →
    v'.filename ≠ v.filename → AtOrBelow d v.filename.bytes

theorem prefix_spelled (n : Bytes) : n <+: spelled n := by
  unfold spelled
  split
  · exact List.prefix_rfl
  · exact List.prefix_append _ _

/-- What begins with `d` lies there if `d` ends in '/', or a '/' is what comes next. -/
theorem atOrBelow_append (d t : Bytes) :
    AtOrBelow d (d ++ t) ↔ d.getLast? = some slash ∨ ∀ c ∈ t.head?, c = slash := by
  unfold AtOrBelow
  by_cases hd : d.getLast? = some slash
  · rw [spelled_of_slash hd]
    exact iff_of_true ((List.prefix_append _ _).trans (prefix_spelled _)) (.inl hd)
  · rw [show spelled d = d ++ [slash] from if_neg hd]
    cases t with
    | nil => exact iff_of_true (by rw [List.append_nil, spelled, if_neg hd]) (.inr nofun)
    | cons c t =>
        obtain ⟨rest, hrest⟩ := prefix_spelled (d ++ c :: t)
        rw [← hrest, List.append_assoc, List.prefix_append_right_inj, List.cons_append,
          List.cons_prefix_cons]
        simp [hd, eq_comm]

/-- **A bulk rename keeps to the directory** just when the old name ends in '/', or no name goes on
    after it with another byte than '/', the new name itself apart. -/
theorem replaceFilename_within_iff [Sys σ] {env : σ → σ → Prop} (h : Reachable env w)
    {old new : Bytes} (hold : old ≠ []) (hne : new ≠ []) (hnul : 0 ∉ new) :
    ∃ w', replaceFilename old new w = .ok ((), w') ∧
      (RenamesWithin old w.lib.store w'.lib.store ↔
        new = old ∨ old.getLast? = some slash ∨ ∀ (t : Bytes) (id : Nat),
          w.lib.store.byFilename[old ++ t]? = some id → old ++ t ≠ new → ∀ c ∈ t.head?, c = slash) := by
  have hw := h.wellIndexed
  have hnodup : w.lib.store.byFilename.values.Nodup :=
    nodup_values fun a b v ha hb => hw.byFilename.inj ha hb
  obtain ⟨s, hrun, hs⟩ := replaceFilenames_watches old new hnodup w
  refine ⟨_, by unfold replaceFilename; rw [if_neg (by simp [hold, hne])]; exact hrun, ?_⟩
  constructor
  · intro hwithin
    by_contra hnot
    simp only [not_or, not_forall] at hnot
    obtain ⟨hsame, hslash, t, id, hid, hnew, c, hc, hother⟩ := hnot
    obtain ⟨v, hv, hname, -⟩ := hw.found_filename hid
    -- the name goes on with something else, and changes
    have hbytes : (cstring (new ++ t)).bytes = new ++ t := by
      refine bytes_cstring ?_
      have ht : 0 ∉ t := fun hz => v.filename.noNul (hname ▸ List.mem_append_right _ hz)
      simp [hnul, ht]
    have hv' := hs id
    rw [hv, Option.map_some, if_pos ((mem_values _ _).2 ⟨_, hid⟩), Watch.renamedBelow,
      if_pos ⟨hname ▸ List.prefix_append _ _, hname ▸ hnew⟩, hname, List.drop_left] at hv'
    have hlies := hwithin id v _ hv hv' fun he => by
      have hnames : new ++ t = old ++ t := by rw [← hbytes, ← hname, ← he]
      exact hsame (List.append_cancel_right hnames)
    rw [hname, atOrBelow_append] at hlies
    exact hlies.elim hslash fun hnext => hother (hnext c hc)
  · intro hcond id v v' hv hv' hchanged
    rw [hs, hv, Option.map_some] at hv'
    split at hv'
    · next hmem =>
        obtain ⟨n, hn⟩ := (mem_values _ _).1 hmem
        obtain ⟨u, hu, rfl, -⟩ := hw.found_filename hn
        cases hv.symm.trans hu
        cases hv'
        by_cases hpre : old <+: v.filename.bytes ∧ v.filename.bytes ≠ new
        · obtain ⟨t, ht⟩ := hpre.1
          rw [← ht, atOrBelow_append]
          rcases hcond with rfl | hslash | hnext
          · refine absurd ?_ hchanged
            unfold Watch.renamedBelow
            rw [if_pos hpre, ← ht, List.drop_left, ht]
            exact cstring_bytes _
          · exact .inl hslash
          · exact .inr (hnext t id (ht ▸ hn) (ht ▸ hpre.2))
        · exact absurd (by rw [Watch.renamedBelow, if_neg hpre]) hchanged
    · cases hv'
      exact absurd rfl hchanged

/-- With the old name "d/a", as the header has it, "d/ab/" is renamed along with "d/a/". -/
theorem sibling_renamed :
    Reachable Desk.Forgets deskTree ∧ ∃ w', replaceFilename (ascii "d/a") (ascii "e/b") deskTree =
        .ok ((), w') ∧
      deskTree.lib.store.nameOf 4 = some (ascii "d/ab/") ∧
      w'.lib.store.nameOf 4 = some (ascii "e/bb/") ∧
      ¬ RenamesWithin (ascii "d/a") deskTree.lib.store w'.lib.store := by
  refine ⟨deskTree_reachable, _, Prog.run_of_result (by decide +kernel), by decide +kernel,
    by decide +kernel, fun hwithin => ?_⟩
  have hbefore : deskTree.lib.store.watches[4]?.map Watch.filename = some (cstring (ascii "d/ab/")) := by
    decide +kernel
  have hafter : ((replaceFilename (ascii "d/a") (ascii "e/b")).after deskTree).lib.store.watches[4]?.map
      Watch.filename = some (cstring (ascii "e/bb/")) := by decide +kernel
  obtain ⟨v, hv, hname⟩ := Option.map_eq_some_iff.1 hbefore
  obtain ⟨v', hv', hname'⟩ := Option.map_eq_some_iff.1 hafter
  have hlies := hwithin 4 v v' hv hv' (by rw [hname, hname']; decide)
  exact absurd (hname ▸ hlies) (by decide)

/-- With the old name "d/a/" it is not. -/
theorem replaceFilename_within_desk :
    ∃ w', replaceFilename (ascii "d/a/") (ascii "e/b/") deskTree = .ok ((), w') ∧
      RenamesWithin (ascii "d/a/") deskTree.lib.store w'.lib.store := by
  have hold : ascii "d/a/" ≠ [] := by decide
  have hne : ascii "e/b/" ≠ [] := by decide
  obtain ⟨w', hrun, hiff⟩ := replaceFilename_within_iff deskTree_reachable hold hne (by decide)
  exact ⟨w', hrun, hiff.2 (.inr (.inl (by decide)))⟩

/-! ## Watches with one name -/

/-- From `w` to `w'` nothing is lost but what led to the descriptor `wd`: every other descriptor has
    its name, and every name that did not lead to `wd` leads where it did. -/
structure LeavesOthers [Sys σ] (wd : Int32) (w w' : World σ) : Prop where
  names (f : Bytes) (h : (wdFromFilename f).result w ≠ some wd) :
    (wdFromFilename f).result w' = (wdFromFilename f).result w
  descriptors (wd' : Int32) (h : wd' ≠ wd) :
    (filenameFromWd wd').result w' = (filenameFromWd wd').result w

/-- **The removal of a watch disturbs no other** just when the name stored for it leads to its own
    descriptor, or nowhere, or the kernel refuses. -/
theorem removeWatchByWd_leaves_iff [Sys σ] (hz : ¬ AnsweredZero σ) {env : σ → σ → Prop}
    (h : Reachable env w) (hi : w.lib.initialized = true) (hm : w.lib.fanotifyMode = false)
    (wd : Int32) :
    ∃ ok w', removeWatchByWd wd w = .ok (ok, w') ∧ (LeavesOthers wd w w' ↔
      ∀ (n : Bytes) (u : Int32), w.lib.store.nameOf wd = some n → n ≠ [] →
        w.lib.store.wdOf n = some u → 0 ≤ (Sys.inotifyRmWatch w.lib.fd wd w.os).1 → u = wd) := by
  have hw := h.inotify hz hi hm
  have hpos := h.positive
  cases hid : w.lib.store.byWd[wd]? with
  | none =>
      have hrun : removeWatchByWd wd w = .ok (true, w) := by
        unfold removeWatchByWd
        rw [Prog.bind_run_ok (rfl : watchFromWd wd w = .ok (w.lib.store.byWd[wd]?, w)), hid]
        exact removeWatch_missing hi
      refine ⟨true, w, hrun, iff_of_true ⟨fun _ _ => rfl, fun _ _ => rfl⟩ fun n u hn => ?_⟩
      rw [Store.nameOf_none hid] at hn
      cases hn
  | some id =>
      obtain ⟨v, hv, rfl, hname⟩ := hw.wellIndexed.found_wd hid
      obtain ⟨w', hremove, hleaves⟩ := removeWatch_run hi hv (hw.plain id v (.inl ⟨_, hid⟩) hv)
      have hrun : removeWatchByWd v.wd w =
          .ok (decide (0 ≤ (Sys.inotifyRmWatch w.lib.fd v.wd w.os).1), w') := by
        unfold removeWatchByWd
        rw [Prog.bind_run_ok (rfl : watchFromWd v.wd w = .ok (w.lib.store.byWd[v.wd]?, w)), hid]
        exact hremove
      refine ⟨_, w', hrun, ?_⟩
      by_cases hacc : 0 ≤ (Sys.inotifyRmWatch w.lib.fd v.wd w.os).1
      · rw [if_pos hacc] at hleaves
        have hw' : Inotify w' := hw.leaves hleaves (hw.wellIndexed.remove hv) hw.plain.remove
        have hfound : ∀ f : Bytes, (wdFromFilename f).result w' = some (if f = [] then -1
            else if v.filename.bytes = f then -1 else (w.lib.store.wdOf f).getD (-1)) := by
          intro f
          rw [Prog.result_of_ok (wdFromFilename_run hw'.storedNames f), hleaves.store,
            Store.wdOf_remove hw.wellIndexed hv]
          split
          · rfl
          · split <;> rfl
        constructor
        · -- the removed name led elsewhere, and leads nowhere now
          intro hothers n u hn hne hu _
          cases hname.symm.trans hn
          by_contra hwd
          have hbefore := Prog.result_of_ok (wdFromFilename_run hw.storedNames v.filename.bytes)
          rw [if_neg hne, hu, Option.getD_some] at hbefore
          have hsame := hothers.names v.filename.bytes (by
            rw [hbefore]
            exact fun he => hwd (Option.some.inj he))
          rw [hfound, if_neg hne, if_pos rfl, hbefore] at hsame
          cases hsame
          exact absurd (hpos.wdOf hu) (by decide)
        · intro hleads
          refine ⟨fun f hf => ?_, fun wd' hne => ?_⟩
          · have hbefore := Prog.result_of_ok (wdFromFilename_run hw.storedNames f)
            rw [hbefore] at hf ⊢
            rw [hfound]
            by_cases hempty : f = []
            · rw [if_pos hempty, if_pos hempty]
            rw [if_neg hempty] at hf ⊢
            rw [if_neg hempty]
            split
            · next he =>
                cases hu : w.lib.store.wdOf f with
                | none => rfl
                | some u =>
                    rw [hu, Option.getD_some] at hf
                    exact absurd (congrArg some (hleads f u (he ▸ hname) hempty hu hacc)) hf
            · rfl
          · rw [Prog.result_of_ok (filenameFromWd_run hw.storedNames wd'),
              Prog.result_of_ok (filenameFromWd_run hw'.storedNames wd'), hleaves.store,
              Store.nameOf_remove hw.wellIndexed hv, if_neg (Ne.symm hne)]
      · -- a watch that the kernel keeps stays in both indexes
        rw [if_neg hacc] at hleaves
        have hw' := hw.leaves hleaves hw.wellIndexed hw.plain
        refine iff_of_true ⟨fun f _ => ?_, fun wd' _ => ?_⟩ fun n u _ _ _ hk => absurd hk hacc
        · rw [Prog.result_of_ok (wdFromFilename_run hw.storedNames f),
            Prog.result_of_ok (wdFromFilename_run hw'.storedNames f), hleaves.store]
        · rw [Prog.result_of_ok (filenameFromWd_run hw.storedNames wd'),
            Prog.result_of_ok (filenameFromWd_run hw'.storedNames wd'), hleaves.store]

/-- The directory "d/ab/" has been moved over "d/a/", as the tracker tells the store. -/
def deskMovedOver : World Desk :=
  World.after 9 deskTree [.replaceFilename (ascii "d/ab/") (ascii "d/a/")]

theorem deskMovedOver_reachable : Reachable Desk.Forgets deskMovedOver :=
  deskTree_reachable.imp fun _ h => h.trans (World.run_after _ _ _ _)

/-- The removal of the watch that was moved takes the name from the other. -/
theorem removal_takes_name :
    Reachable Desk.Forgets deskMovedOver ∧ deskMovedOver.lib.initialized = true ∧
      deskMovedOver.lib.fanotifyMode = false ∧
      ∃ w', removeWatchByWd 4 deskMovedOver = .ok (true, w') ∧
        (wdFromFilename (ascii "d/a/")).result deskMovedOver = some 2 ∧
        (wdFromFilename (ascii "d/a/")).result w' = some (-1) ∧
        (filenameFromWd 2).result w' = some (ascii "d/a/") ∧ ¬ LeavesOthers 4 deskMovedOver w' := by
  have hbefore : (wdFromFilename (ascii "d/a/")).result deskMovedOver = some 2 := by decide +kernel
  have hafter : (wdFromFilename (ascii "d/a/")).result ((removeWatchByWd 4).after deskMovedOver) =
      some (-1) := by decide +kernel
  refine ⟨deskMovedOver_reachable, by decide +kernel, by decide +kernel, _,
    Prog.run_of_result (by decide +kernel), hbefore, hafter, by decide +kernel, fun hothers => ?_⟩
  have hsame := hothers.names (ascii "d/a/") (by rw [hbefore]; decide)
  rw [hbefore, hafter] at hsame
  exact absurd hsame (by decide)

/-- The removal of another watch disturbs none. -/
theorem removeWatchByWd_leaves_desk :
    ∃ ok w', removeWatchByWd 3 deskMovedOver = .ok (ok, w') ∧ LeavesOthers 3 deskMovedOver w' := by
  obtain ⟨ok, w', hrun, hiff⟩ := removeWatchByWd_leaves_iff Desk.kernelWatches.not_answeredZero
    deskMovedOver_reachable (by decide +kernel) (by decide +kernel) 3
  have hname : deskMovedOver.lib.store.nameOf 3 = some (ascii "d/a/f") := by decide +kernel
  have hwd : deskMovedOver.lib.store.wdOf (ascii "d/a/f") = some 3 := by decide +kernel
  refine ⟨ok, w', hrun, hiff.2 fun n u hn _ hu _ => ?_⟩
  cases hname.symm.trans hn
  exact Option.some.inj (hu.symm.trans hwd)

end InotifyTools
