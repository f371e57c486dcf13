import InotifyTools.Proofs.Reachable

set_option autoImplicit false

/-! # Invariants of reachable states

Every watch has a positive descriptor, and with inotify no indexed watch has a fid. -/

namespace InotifyTools

variable {σ : Type} [Sys σ] {env : σ → σ → Prop}

/-! ## Descriptors are positive -/

/-- Every watch has a positive descriptor. -/
def Store.Positive (s : Store) : Prop :=
  ∀ (id : Nat) (v : Watch), s.watches[id]? = some v → 0 < v.wd

namespace Store.Positive

variable {s : Store} {id : Nat} {v : Watch}

theorem insert (h : s.Positive) (hv : 0 < v.wd) : (s.insert v).Positive := by
  intro id u hu
  simp only [Store.insert] at hu
  split at hu
  · rw [KeyedMap.lookup_insert] at hu
    split at hu
    · cases hu
      exact hv
    · exact h id u hu
  · exact h id u hu

/-- Writing a watch with the descriptor it had. -/
theorem update {s' : Store} (v' : Watch) (h : s.Positive) (hv : s.watches[id]? = some v)
    (hwd : v'.wd = v.wd) (hs : s'.watches = s.watches.insert id v') : s'.Positive := by
  intro i u hu
  rw [hs, KeyedMap.lookup_insert] at hu
  split at hu
  · cases hu
    exact hwd ▸ h id v hv
  · exact h i u hu

theorem remove (h : s.Positive) : (s.remove id v).Positive := by
  intro i u hu
  simp only [Store.remove, KeyedMap.lookup_erase] at hu
  split at hu
  · cases hu
  · exact h i u hu

end Store.Positive

theorem Effect.positive {k : Kind} {w w' : World σ} (he : Effect k w w')
    (h : w.lib.store.Positive) : w'.lib.store.Positive := by
  cases he with
  | scratch | call | config | stream | counter | collecting | refused | kept | notOpened
  | opened => exact h
  | created _ hwd | marked _ hwd | watched _ hwd => exact h.insert hwd
  | @renamed _ id v hv _ n => exact h.update { v with filename := n } hv rfl rfl
  | @counted _ id v hv _ stats => exact h.update { v with stats } hv rfl rfl
  | removed => exact h.remove
  | closed =>
      intro id v hv
      simp [Store.clear] at hv

theorem Reachable.positive {w : World σ} (h : Reachable env w) : w.lib.store.Positive := by
  obtain ⟨os, hrun⟩ := h
  refine Run.preserves (P := fun w => w.lib.store.Positive) (fun _ _ _ he => he.positive)
    (fun _ _ _ h => h) hrun Store.wellIndexed_empty ?_
  intro id v hv
  simp [Inotifytools.new, Store.empty] at hv

/-! ## No fids with inotify -/

/-- No listed watch has a fid. -/
def Store.Plain (s : Store) : Prop :=
  ∀ (id : Nat) (v : Watch), s.Listed id → s.watches[id]? = some v → v.fid = none

namespace Store.Plain

variable {s : Store} {id : Nat} {v : Watch}

theorem clearIndexes (s : Store) : s.clearIndexes.Plain := by
  rintro id v (⟨wd, h⟩ | ⟨n, h⟩) - <;> simp [Store.clearIndexes] at h

theorem listed_insert (h : (s.insert v).Listed id) : id = s.nextId ∨ s.Listed id := by
  rcases h with ⟨wd, h⟩ | ⟨n, h⟩
  · rcases insertIfNew_eq h with ⟨rfl, -⟩ | h
    · exact .inl rfl
    · exact .inr (.inl ⟨wd, h⟩)
  · rcases insertIfNew_eq h with ⟨rfl, -⟩ | h
    · exact .inl rfl
    · exact .inr (.inr ⟨n, h⟩)

theorem insert (h : s.Plain) (hs : s.WellIndexed) (hv : v.fid = none) : (s.insert v).Plain := by
  intro id u hid hu
  by_cases hnew : id = s.nextId
  · subst hnew
    simp only [Store.insert] at hu
    split at hu
    · rw [KeyedMap.lookup_insert, if_pos rfl] at hu
      cases hu
      exact hv
    · rw [hs.nextId_free] at hu
      cases hu
  · have hold : s.watches[id]? = some u := by
      simp only [Store.insert] at hu
      split at hu
      · rwa [KeyedMap.lookup_insert, if_neg (Ne.symm hnew)] at hu
      · exact hu
    exact h id u ((listed_insert hid).resolve_left hnew) hold

theorem remove (h : s.Plain) : (s.remove id v).Plain := by
  intro i u hi hu
  refine h i u ?_ (erase_eq hu)
  rcases hi with ⟨wd, hi⟩ | ⟨n, hi⟩
  · exact .inl ⟨wd, erase_eq hi⟩
  · exact .inr ⟨n, erase_eq hi⟩

/-- Writing a listed watch with the fid it had, when nothing else becomes listed. -/
theorem update {s' : Store} (v' : Watch) (h : s.Plain) (hv : s.watches[id]? = some v)
    (hfid : v'.fid = v.fid) (hs : s'.watches = s.watches.insert id v')
    (hlisted : ∀ i, s'.Listed i → s.Listed i) : s'.Plain := by
  intro i u hi hu
  rw [hs, KeyedMap.lookup_insert] at hu
  split at hu
  · next he =>
      subst he
      cases hu
      exact hfid.trans (h id v (hlisted id hi) hv)
  · exact h i u (hlisted i hi) hu

theorem rename (h : s.Plain) (hv : s.watches[id]? = some v) (hid : s.Listed id) (n : CString) :
    (s.rename id v n).Plain := by
  refine h.update { v with filename := n } hv rfl rfl fun i hi => ?_
  rcases hi with ⟨wd, hi⟩ | ⟨k, hi⟩
  · exact .inl ⟨wd, hi⟩
  · rw [rename_byFilename] at hi
    rcases insertIfNew_eq hi with ⟨rfl, -⟩ | hi
    · exact hid
    · unfold releaseName at hi
      split at hi
      · exact .inr ⟨k, erase_eq hi⟩
      · exact .inr ⟨k, hi⟩

end Store.Plain

/-- On an initialised handle in inotify mode no listed watch has a fid. -/
def InotifyPlain (w : World σ) : Prop :=
  w.lib.initialized = true → w.lib.fanotifyMode = false → w.lib.store.Plain

theorem Effect.inotifyPlain (hz : ¬ AnsweredZero σ) {k : Kind} {w w' : World σ}
    (he : Effect k w w') (hw : w.lib.store.WellIndexed) (h : InotifyPlain w) :
    InotifyPlain w' := by
  intro hi hm
  cases he with
  | scratch | call | config | stream | counter | collecting | refused | kept => exact h hi hm
  | created _ _ _ _ hmode => exact absurd (hmode.resolve_right hz) (by simpa using hm)
  | marked _ _ _ _ hmode => exact absurd hmode (by simpa using hm)
  | watched _ _ _ hfid => exact (h hi hm).insert hw hfid
  | renamed _ hv hid n => exact (h hi hm).rename hv hid n
  | @counted _ id v hv _ stats =>
      exact (h hi hm).update { v with stats } hv rfl rfl fun _ hi => hi
  | removed => exact (h hi hm).remove
  | notOpened _ _ hinit => exact absurd hi (by simp [hinit])
  | opened => exact Store.Plain.clearIndexes _
  | closed => exact absurd hi (by simp)

/-- **With inotify no listed watch has a fid**, as long as the kernel never answers with descriptor
    0. -/
theorem Reachable.plain (hz : ¬ AnsweredZero σ) {w : World σ} (h : Reachable env w)
    (hi : w.lib.initialized = true) (hm : w.lib.fanotifyMode = false) : w.lib.store.Plain := by
  obtain ⟨os, hrun⟩ := h
  have hall : w.lib.store.WellIndexed ∧ InotifyPlain w := by
    refine Run.preserves (P := fun w => w.lib.store.WellIndexed ∧ InotifyPlain w) ?_
      (fun _ _ _ h => h) hrun Store.wellIndexed_empty ⟨Store.wellIndexed_empty, nofun⟩
    exact fun _ _ _ he h => ⟨(he.integrity h.1).1, he.inotifyPlain hz h.1 h.2⟩
  exact hall.2 hi hm

end InotifyTools
