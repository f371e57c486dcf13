import InotifyTools.Proofs.Reachable

set_option autoImplicit false

/-! # The kernel's watches and the store's

`KernelWatches live env` is what inotify promises about the numbers of the live watches of an
instance. Under it no live number is ever missing from the descriptor index. -/

namespace InotifyTools

variable {σ : Type} [Sys σ]

/-! ## What the kernel promises -/

/-- `live os fd` are the numbers of the live watches of the instance behind `fd`. Only
    `inotify_add_watch` adds one, and answers with it; any may go away at any time. An instance just
    opened, or closed, or never opened, has none. -/
structure KernelWatches (live : σ → Int32 → Set Int32) (env : σ → σ → Prop) : Prop where
  env : ∀ os os' fd, env os os' → live os' fd ⊆ live os fd
  quiet : ∀ os os' fd, QuietCall os os' → live os' fd ⊆ live os fd
  notOpen : ∀ os fd, fd < 0 → live os fd = ∅
  opened : ∀ b os fd os', Opened b os fd os' → live os' fd = ∅
  closed : ∀ os fd, live (Sys.close fd os) fd = ∅
  add : ∀ os fd p mask, let r := Sys.inotifyAddWatch fd p mask os
    (r.1 < 0 ∧ live r.2 fd ⊆ live os fd) ∨ (0 < r.1 ∧ live r.2 fd ⊆ insert r.1 (live os fd))
  rm : ∀ os fd wd, let r := Sys.inotifyRmWatch fd wd os
    live r.2 fd ⊆ live os fd ∧ (0 ≤ r.1 → wd ∉ live r.2 fd)

/-- Such a kernel never numbers a watch 0. -/
theorem KernelWatches.not_answeredZero {live : σ → Int32 → Set Int32} {env : σ → σ → Prop}
    (hk : KernelWatches live env) : ¬ AnsweredZero σ := by
  rintro ⟨fd, p, mask, os, h⟩
  rcases hk.add os fd p mask with ⟨hneg, -⟩ | ⟨hpos, -⟩
  · rw [h] at hneg
    exact absurd hneg (by decide)
  · rw [h] at hpos
    exact absurd hpos (by decide)

/-! ## No live watch is lost -/

/-- Every live watch number is a key of the descriptor index. -/
def Tracked (live : σ → Int32 → Set Int32) (w : World σ) : Prop :=
  ∀ wd ∈ live w.os w.lib.fd, ∃ id, w.lib.store.byWd[wd]? = some id

namespace Tracked

variable {live : σ → Int32 → Set Int32} {env : σ → σ → Prop} {w w' : World σ}

omit [Sys σ] in
/-- Fewer live watches and no descriptor forgotten. -/
theorem of_subset (h : Tracked live w) (hlive : live w'.os w'.lib.fd ⊆ live w.os w.lib.fd)
    (hkeys : ∀ (wd : Int32) id, w.lib.store.byWd[wd]? = some id →
      ∃ id', w'.lib.store.byWd[wd]? = some id') : Tracked live w' := by
  intro wd hwd
  obtain ⟨id, hid⟩ := h wd (hlive hwd)
  exact hkeys wd id hid

omit [Sys σ] in
theorem of_empty (h : live w'.os w'.lib.fd = ∅) : Tracked live w' := by
  intro wd hwd
  rw [h] at hwd
  exact absurd hwd (Set.notMem_empty wd)

/-- Inserting a watch forgets no descriptor. -/
theorem insert_keeps {s : Store} {v : Watch} {wd : Int32} {id : Nat} (h : s.byWd[wd]? = some id) :
    ∃ id', (s.insert v).byWd[wd]? = some id' := by
  simp only [Store.insert, KeyedMap.lookup_insertIfNew, h]
  split <;> exact ⟨_, rfl⟩

theorem insert_adds (s : Store) (v : Watch) : ∃ id, (s.insert v).byWd[v.wd]? = some id := by
  refine ⟨s.byWd[v.wd]?.getD s.nextId, ?_⟩
  simp only [Store.insert, KeyedMap.lookup_insertIfNew, if_true]

/-- **Every effect keeps the live watches tracked.** -/
theorem effect (hk : KernelWatches live env) {k : Kind} (he : Effect k w w')
    (h : Tracked live w) : Tracked live w' := by
  cases he with
  | scratch | config | stream | counter | renamed | counted | collecting =>
      exact h.of_subset subset_rfl fun _ id hid => ⟨id, hid⟩
  | call _ hc => exact h.of_subset (hk.quiet _ _ _ hc) fun _ id hid => ⟨id, hid⟩
  | created | marked => exact h.of_subset subset_rfl fun _ _ hid => insert_keeps hid
  | @watched _ v p mask os hwd hadd hfid hos _ =>
      have hrest : live os w.lib.fd ⊆ live (Sys.inotifyAddWatch w.lib.fd p mask w.os).2 w.lib.fd := by
        clear hadd
        induction hos with
        | refl => exact subset_rfl
        | tail _ hc ih => exact (hk.quiet _ _ _ hc).trans ih
      intro wd hwd'
      rcases hk.add w.os w.lib.fd p mask with ⟨hneg, -⟩ | ⟨-, hsub⟩
      · rw [hadd] at hneg
        exact absurd hneg (by grind)
      · rw [hadd] at hsub
        rcases hsub (hrest hwd') with rfl | hold
        · exact insert_adds _ v
        · obtain ⟨id, hid⟩ := h wd hold
          exact insert_keeps hid
  | @refused _ p mask hadd =>
      rcases hk.add w.os w.lib.fd p mask with ⟨-, hsub⟩ | ⟨hpos, -⟩
      · exact h.of_subset hsub fun _ id hid => ⟨id, hid⟩
      · exact absurd hpos (by grind)
  | @removed _ id v hv hfid hrm =>
      obtain ⟨hsub, hgone⟩ := hk.rm w.os w.lib.fd v.wd
      intro wd hwd
      obtain ⟨id', hid'⟩ := h wd (hsub hwd)
      refine ⟨id', ?_⟩
      have hne : v.wd ≠ wd := fun he => hgone hrm (he ▸ hwd)
      simp only [Store.remove, KeyedMap.lookup_erase, if_neg hne]
      exact hid'
  | kept => exact h.of_subset (hk.rm _ _ _).1 fun _ id hid => ⟨id, hid⟩
  | notOpened _ hopen | opened _ hopen => exact of_empty (hk.opened _ _ _ _ hopen)
  | closed => exact of_empty (hk.closed _ _)

end Tracked

/-- **No kernel watch is orphaned.** In every state reached between operations each live watch number
    is a key of the descriptor index, and the watch it leads to has that number. -/
theorem no_watch_orphaned {live : σ → Int32 → Set Int32} {env : σ → σ → Prop}
    (hk : KernelWatches live env) {w : World σ} (h : Reachable env w) :
    ∀ wd ∈ live w.os w.lib.fd, ∃ id v, w.lib.store.byWd[wd]? = some id ∧
      w.lib.store.watches[id]? = some v ∧ v.wd = wd := by
  have hw := h.wellIndexed
  obtain ⟨os, hrun⟩ := h
  have hstart : Tracked live { lib := Inotifytools.new, os } :=
    Tracked.of_empty (hk.notOpen os (-1) (by decide))
  have htracked : Tracked live w :=
    Run.preserves (fun _ _ _ he hP => hP.effect hk he)
      (fun _ _ he hP => hP.of_subset (hk.env _ _ _ he) fun _ id hid => ⟨id, hid⟩)
      hrun Store.wellIndexed_empty hstart
  intro wd hwd
  obtain ⟨id, hid⟩ := htracked wd hwd
  obtain ⟨v, hv, hkey⟩ := hw.byWd wd id hid
  exact ⟨id, v, hid, hv, Option.some.inj hkey⟩

/-! ## The desk's kernel -/

namespace Desk

/-- The numbers of the watches listed for an instance. -/
def live (d : Desk) (fd : Int32) : Set Int32 :=
  {wd | 0 ≤ fd ∧ ∃ p, (fd, wd, p) ∈ d.watched}

/-- Watches only go away by themselves. -/
def Forgets (d d' : Desk) : Prop := d'.watched ⊆ d.watched

theorem live_mono {d d' : Desk} (h : Forgets d d') (fd : Int32) : live d' fd ⊆ live d fd :=
  fun _ ⟨hfd, p, hp⟩ => ⟨hfd, p, h hp⟩

theorem forgets_drop (d : Desk) (fd : Int32) : Forgets d (d.drop fd) := by
  intro e he
  exact (List.mem_filter.1 he).1

theorem live_drop (d : Desk) (fd : Int32) : live (d.drop fd) fd = ∅ := by
  ext wd
  simp [live, drop]

theorem live_negative (d : Desk) {fd : Int32} (h : fd < 0) : live d fd = ∅ := by
  ext wd
  have hfd : ¬ 0 ≤ fd := by grind
  simp [live, hfd]

theorem forgets_quiet {d d' : Desk} (h : QuietCall d d') : Forgets d d' := by
  cases h with
  | close fd => exact forgets_drop d fd
  | openPath | dup | openByHandleAt => exact forgets_drop d _
  | readlinkFd fd n =>
      dsimp only [Sys.readlinkFd]
      cases d.links <;> exact List.Subset.refl _
  | read fd n =>
      dsimp only [Sys.read]
      cases d.chunks <;> exact List.Subset.refl _
  | _ => exact List.Subset.refl _

theorem addWatch_live (d : Desk) (fd : Int32) (p : Bytes) :
    ((d.addWatch fd p).1 < 0 ∧ live (d.addWatch fd p).2 fd ⊆ live d fd) ∨
      (0 < (d.addWatch fd p).1 ∧
        live (d.addWatch fd p).2 fd ⊆ insert (d.addWatch fd p).1 (live d fd)) := by
  unfold addWatch
  by_cases hfd : fd < 0
  · rw [if_pos hfd]
    exact .inl ⟨(by decide : (-1 : Int32) < 0), subset_rfl⟩
  rw [if_neg hfd]
  split
  · next e he =>
      have hpos := List.find?_some he
      simp only [decide_eq_true_eq] at hpos
      exact .inr ⟨hpos.2.1, fun _ h => .inr h⟩
  · split
    · exact .inl ⟨(by decide : (-1 : Int32) < 0), subset_rfl⟩
    · next hwd =>
        refine .inr ⟨Int32.not_le.1 hwd, ?_⟩
        rintro wd ⟨hfd, q, hq⟩
        rcases List.mem_append.1 hq with hold | hnew
        · exact .inr ⟨hfd, q, hold⟩
        · simp only [List.mem_singleton, Prod.mk.injEq] at hnew
          exact .inl hnew.2.1

theorem rmWatch_live (d : Desk) (fd wd : Int32) :
    live (d.rmWatch fd wd).2 fd ⊆ live d fd ∧
      (0 ≤ (d.rmWatch fd wd).1 → wd ∉ live (d.rmWatch fd wd).2 fd) := by
  unfold rmWatch
  split
  · refine ⟨live_mono (fun e he => (List.mem_filter.1 he).1) fd, fun _ => ?_⟩
    rintro ⟨-, q, hq⟩
    simpa using (List.mem_filter.1 hq).2
  · exact ⟨subset_rfl, fun h => absurd h (by decide : ¬ (0 : Int32) ≤ -1)⟩

theorem kernelWatches : KernelWatches live Forgets where
  env _ _ fd h := live_mono h fd
  quiet _ _ fd h := live_mono (forgets_quiet h) fd
  notOpen d _ h := live_negative d h
  opened _ _ _ _ h := by cases h <;> exact live_drop _ _
  closed := live_drop
  add d fd p _ := addWatch_live d fd p.bytes
  rm := rmWatch_live

end Desk

/-- Two paths share a kernel watch; the one that is left is tracked after a removal and a rename. -/
theorem no_watch_orphaned_desk :
    let w := World.after 9 { lib := Inotifytools.new, os := ({ dirs := [ascii "d"] } : Desk) }
      [.init false false 0, .watchFiles [ascii "d", ascii "e", ascii "d/"] 2,
        .setFilenameByWd 2 (ascii "d/"), .removeWatchByFilename (ascii "d/")]
    (2 ∈ Desk.live w.os w.lib.fd) ∧ ∃ id v, w.lib.store.byWd[(2 : Int32)]? = some id ∧
      w.lib.store.watches[id]? = some v ∧ v.wd = 2 := by
  intro w
  have hlive : 2 ∈ Desk.live w.os w.lib.fd := ⟨by decide +kernel, ascii "e", by decide +kernel⟩
  exact ⟨hlive, no_watch_orphaned Desk.kernelWatches ⟨_, World.run_after Desk.Forgets 9 _ _⟩ 2 hlive⟩

end InotifyTools
