import InotifyTools.Proofs.Sound

set_option autoImplicit false

/-! # Every operation is sound: lookups, watching, formatting and reading -/

namespace InotifyTools

variable {σ α β : Type} {S : Set Kind} [Sys σ] {w : World σ} {Q : α → World σ → Prop}

/-! ## Lookups -/

/-- A program that goes on with the watch looked up in an index: the watch is there. -/
theorem SoundAt.lookup {x : M σ (Option Nat)} {f : Option Nat → M σ α} (id : Option Nat)
    (hx : x w = .ok (id, w)) (hp : ∀ i, id = some i → ∃ v, w.lib.store.watches[i]? = some v)
    (hnone : SoundAt S w (f none) Q)
    (hsome : ∀ i v, id = some i → w.lib.store.watches[i]? = some v → SoundAt S w (f (some i)) Q) :
    SoundAt S w (x >>= f) Q := by
  refine .step w hx (.refl w) ?_
  cases id with
  | none => exact hnone
  | some i =>
      obtain ⟨v, hv⟩ := hp i rfl
      exact hsome i v rfl hv

theorem SoundAt.watchFromFid {f : Option Nat → M σ α} {fid : Bytes} (hw : w.lib.store.WellIndexed)
    (hnone : SoundAt S w (f none) Q)
    (hsome : ∀ i v, w.lib.store.watches[i]? = some v → SoundAt S w (f (some i)) Q) :
    SoundAt S w (InotifyTools.watchFromFid fid >>= f) Q := by
  refine .lookup w.lib.store.byFid[FidKey.new fid]? rfl (fun i hi => ?_) hnone
    fun i v _ => hsome i v
  obtain ⟨v, hv, -⟩ := hw.byFid _ _ hi
  exact ⟨v, hv⟩

theorem SoundAt.watchFromWd {f : Option Nat → M σ α} {wd : Int32} (hw : w.lib.store.WellIndexed)
    (hnone : SoundAt S w (f none) Q)
    (hsome : ∀ i v, w.lib.store.byWd[wd]? = some i → w.lib.store.watches[i]? = some v →
      SoundAt S w (f (some i)) Q) :
    SoundAt S w (InotifyTools.watchFromWd wd >>= f) Q := by
  refine .lookup w.lib.store.byWd[wd]? rfl (fun i hi => ?_) hnone hsome
  obtain ⟨v, hv, -⟩ := hw.byWd _ _ hi
  exact ⟨v, hv⟩

theorem SoundAt.watchFromFilename {f : Option Nat → M σ α} {n : Bytes}
    (hw : w.lib.store.WellIndexed) (hnone : SoundAt S w (f none) Q)
    (hsome : ∀ i v, w.lib.store.byFilename[n]? = some i → w.lib.store.watches[i]? = some v →
      SoundAt S w (f (some i)) Q) :
    SoundAt S w (InotifyTools.watchFromFilename n >>= f) Q := by
  refine .lookup w.lib.store.byFilename[n]? rfl (fun i hi => ?_) hnone hsome
  obtain ⟨v, hv, -⟩ := hw.byFilename _ _ hi
  exact ⟨v, hv⟩

theorem setFidname_sound (i : Nat) (b : UInt8) : Sound S (setFidname i b : M σ Unit) :=
  .bind (.guard (by decide)) fun _ => .scratch fun _ => rfl

theorem blitFidname_sound (off : Nat) (bs : Bytes) : Sound S (blitFidname off bs : M σ Unit) :=
  .bind (.guard (by decide)) fun _ => .scratch fun _ => rfl

theorem mountFd_sound (f : Bytes) : Sound S (mountFd f : M σ Int32) := by
  intro w hw
  exact .watchFromFid hw (.pure trivial) fun i v hv => .watch hv (.pure trivial)

theorem openFid_sound (f : Bytes) (nameLen : Int32) :
    Sound S (openFid f nameLen : M σ (Option Int32)) := by
  refine .bind (mountFd_sound f) fun mount => .bind (.call fun os => .openByHandleAt _ _ os) fun d => ?_
  refine .ite (.pure _) (.bind .getLib fun _ => ?_)
  refine .ite (.bind (ceprint_sound _) fun _ => .pure _) (.ite (.pure _) ?_)
  intro w hw
  refine .watchFromFid hw ?_ fun i v hv => .watch hv ?_
  · exact (Sound.bind (ceprint_sound _) fun _ => .pure none).at hw
  · refine Sound.at (.bind (.ite (.call fun os => .dup _ os) (.pure _)) fun d => ?_) hw
    exact .ite (.bind (ceprint_sound _) fun _ => .pure _) (.pure _)

theorem markDeleted_sound : Sound S (markDeleted : M σ Unit) := by
  unfold markDeleted
  refine .bind .getLib fun _ => ?_
  dsimp only
  exact .ite (blitFidname_sound _ _) (.pure _)

theorem appendFidName_sound (f : Bytes) (nameLen dirf : Int32) (len : Nat) :
    Sound S (appendFidName f nameLen dirf len : M σ Bool) := by
  unfold appendFidName
  refine .bind (.call fun os => .faccessat _ _ os) fun deleted => .bind errno_sound fun e => ?_
  refine .ite (.bind (strerror_sound e) fun _ => .bind (ceprint_sound _) fun _ => .pure _) ?_
  dsimp only
  refine .bind (blitFidname_sound _ _) fun _ => .bind (setFidname_sound _ _) fun _ => ?_
  exact .bind (.ite markDeleted_sound (.pure _)) fun _ => .pure _

theorem filenameFromFid_sound (f : Bytes) : Sound S (filenameFromFid f : M σ (Option CString)) := by
  refine .bind (openFid_sound f _) fun
    | none => .pure _
    | some dirf => .bind (.call fun os => .readlinkFd _ _ os) fun
      | none => ?_
      | some target => ?_
  · exact .bind (.exec fun os => .close _ os) fun _ => .bind (ceprint_sound _) fun _ => .pure _
  · refine .bind (blitFidname_sound _ _) fun _ => .bind (setFidname_sound _ _) fun _ => ?_
    refine .bind (setFidname_sound _ _) fun _ => ?_
    refine .bind (.ite (appendFidName_sound _ _ _ _) (.pure _)) fun ok => ?_
    exact .bind (.exec fun os => .close _ os) fun _ => .ite (.pure _) (.bind .getLib fun _ => .pure _)

theorem filenameFromWatchId_sound {id : Nat} {v : Watch} (hv : w.lib.store.watches[id]? = some v)
    (hw : w.lib.store.WellIndexed) :
    SoundAt S w (filenameFromWatchId id : M σ CString) fun _ _ => True := by
  unfold filenameFromWatchId
  refine .watch hv ?_
  split
  · exact .pure trivial
  · next f _ =>
      refine .getLib (.ite (fun _ => .pure trivial) fun _ => ?_)
      refine .bind hw ((filenameFromFid_sound f).quiet hw) fun p w' hw' _ hsame => ?_
      cases p with
      | some p => exact .pure trivial
      | none =>
          -- the watch is still there: resolving a fid leaves the store alone
          rw [← hsame.store] at hv
          exact .watch hv (.pure trivial)

theorem filenameFromWdPtr_sound (wd : Int32) : Sound S (filenameFromWdPtr wd : M σ CString) := by
  refine .bind assertInit_sound fun _ => .ite (.pure _) ?_
  intro w hw
  exact .watchFromWd hw (.pure trivial) fun i v _ hv => filenameFromWatchId_sound hv hw

theorem filenameFromWd_sound (wd : Int32) : Sound S (filenameFromWd wd : M σ Bytes) :=
  .bind (filenameFromWdPtr_sound wd) fun _ => .pure _

theorem filenameFromEvent_sound (ev : Event) : Sound S (filenameFromEvent ev : M σ EventPath) := by
  refine .bind (.bind (.bind (filenameFromWdPtr_sound _) fun _ => .bind .getLib fun _ => ?_)
    fun _ => .pure _) fun _ => .pure _
  dsimp only
  split <;> exact .pure _

theorem dirpathFromEvent_sound (ev : Event) :
    Sound S (dirpathFromEvent ev : M σ (Option Bytes)) :=
  .bind (filenameFromWd_sound _) fun _ => .ite (.pure _) (.bind .getLib fun _ => .pure _)

theorem filenameFromWatch_sound (id : Nat) : Sound S (filenameFromWatch id : M σ Bytes) := by
  intro w hw
  unfold filenameFromWatch
  refine .getLib (.ite (fun _ => .pure trivial) fun hc => ?_)
  rw [KeyedMap.contains_eq_isSome] at hc
  obtain ⟨v, hv⟩ := Option.isSome_iff_exists.1 (by simpa only [Bool.not_eq_true, Bool.not_eq_false'] using hc)
  exact .bind hw (filenameFromWatchId_sound hv hw) fun _ _ _ _ _ => .pure trivial

theorem wdFromFilename_sound (n : Bytes) : Sound S (wdFromFilename n : M σ Int32) := by
  refine .bind assertInit_sound fun _ => .ite (.pure _) ?_
  intro w hw
  exact .watchFromFilename hw (.pure trivial) fun i v _ hv => .watch hv (.pure trivial)

theorem getNumWatches_sound : Sound S (getNumWatches : M σ Int32) := .bind .getLib fun _ => .pure _

/-! ## Renaming and removing -/

theorem renameWatch_sound (hS : Kind.rename ∈ S) {id : Nat} {v : Watch}
    (hv : w.lib.store.watches[id]? = some v) (hid : w.lib.store.Listed id) (n : Bytes) :
    SoundAt S w (renameWatch id n : M σ Unit) fun _ w' =>
      w'.lib.store = w.lib.store.rename id v (cstring n) :=
  .effect (.inr hS) (renameWatch_run hv n) (.renamed w hv hid (cstring n)) rfl

theorem setFilenameByWd_sound (hS : Kind.rename ∈ S) (wd : Int32) (n : Bytes) :
    Sound S (setFilenameByWd wd n : M σ Unit) := by
  refine .bind assertInit_sound fun _ => ?_
  intro w hw
  exact .watchFromWd hw (.pure trivial) fun i v hi hv =>
    (renameWatch_sound hS hv (.inl ⟨wd, hi⟩) n).mono fun _ _ _ => trivial

theorem setFilenameByFilename_sound (hS : Kind.rename ∈ S) (old n : Bytes) :
    Sound S (setFilenameByFilename old n : M σ Unit) :=
  fun _ hw => .watchFromFilename hw (.pure trivial) fun _ _ hi hv =>
    (renameWatch_sound hS hv (.inr ⟨old, hi⟩) n).mono fun _ _ _ => trivial

/-- One round of the bulk rename: the watch is renamed, or nothing happens. -/
theorem replaceFilenameOf_sound (hS : Kind.rename ∈ S) (old new : Bytes) {id : Nat}
    (hid : w.lib.store.Listed id) :
    SoundAt S w (replaceFilenameOf old new id : M σ Unit) fun _ w' =>
      w'.lib.store = w.lib.store ∨ ∃ v n, w.lib.store.watches[id]? = some v ∧
        w'.lib.store = w.lib.store.rename id v n := by
  unfold replaceFilenameOf
  refine .getLib ?_
  cases hv : w.lib.store.watches[id]? with
  | none => exact .pure (.inl rfl)
  | some v =>
      refine .ite (fun _ => ?_) fun _ => .pure (.inl rfl)
      exact (renameWatch_sound hS hv hid _).mono fun _ _ h =>
        .inr ⟨v, _, rfl, h⟩

/-- The rounds of the bulk rename: each id comes up once, and is listed by name until it does. -/
theorem replaceFilenames_sound (hS : Kind.rename ∈ S) (old new : Bytes) (ids : List Nat)
    (hids : ids.Nodup) (hw : w.lib.store.WellIndexed)
    (hlisted : ∀ id ∈ ids, ∃ n : Bytes, w.lib.store.byFilename[n]? = some id) :
    SoundAt S w (replaceFilenames old new ids : M σ Unit) fun _ _ => True := by
  induction ids generalizing w with
  | nil => exact .pure trivial
  | cons id ids ih =>
      obtain ⟨hnew, hids⟩ := List.nodup_cons.1 hids
      refine .bind hw (replaceFilenameOf_sound hS old new (.inr (hlisted id List.mem_cons_self)))
        fun _ w' hw' _ hstore => ih hids hw' fun i hi => ?_
      obtain ⟨n, hn⟩ := hlisted i (List.mem_cons_of_mem _ hi)
      have hne : i ≠ id := fun he => hnew (he ▸ hi)
      rcases hstore with hsame | ⟨v, m, hv, hrenamed⟩
      · exact ⟨n, hsame ▸ hn⟩
      · exact ⟨n, hrenamed ▸ Store.rename_keeps v m hne hn⟩

theorem replaceFilename_sound (hS : Kind.rename ∈ S) (old new : Bytes) :
    Sound S (replaceFilename old new : M σ Unit) := by
  refine .ite (.pure _) ?_
  intro w hw
  refine .getLib (replaceFilenames_sound hS old new _ ?_ hw fun id hid => ?_)
  · exact KeyedMap.nodup_values fun _ _ _ => hw.byFilename.inj
  · exact (KeyedMap.mem_values _ _).1 hid

/-- Removing a watch that is there: the kernel drops it and then the store, or nothing changes. -/
theorem removeWatch_sound (hS : Kind.remove ∈ S) {id : Nat} {v : Watch}
    (hv : w.lib.store.watches[id]? = some v) (hw : w.lib.store.WellIndexed) :
    SoundAt S w (removeWatch (some id) : M σ Bool) fun _ _ => True := by
  unfold removeWatch
  refine .bind hw (assertInit_sound.quiet hw) fun _ w' hw' _ hsame => ?_
  rw [← hsame.store] at hv
  let w₁ : World σ := { w' with lib := { w'.lib with error := 0 } }
  have herr : Effects S w' w₁ := .quiet (.scratch w' _ _ _ _)
  have hrun := removeInotifyWatch_run hv
  by_cases hfid : v.fid.isSome = true
  · rw [if_pos hfid] at hrun
    exact .step w₁ hrun herr (.pure trivial)
  · rw [if_neg hfid] at hrun
    by_cases hrm : (Sys.inotifyRmWatch w'.lib.fd v.wd w'.os).1 < 0
    · rw [if_pos hrm] at hrun
      have hkept : Effects S w₁ _ := .single hS (.kept w₁ hrm)
      refine .step _ hrun (herr.trans (hkept.trans ?_)) (.pure trivial)
      exact (Effects.quiet (.call _ (.fwrite _ _ _))).trans (.quiet (.scratch _ _ _ _ _))
    · rw [if_neg hrm] at hrun
      have hfid : v.fid = none := by simpa using hfid
      have hremoved := Effects.single hS (.removed w₁ hv hfid (Int32.not_lt.1 hrm))
      refine .run _ ?_ (herr.trans hremoved)
        (Sound.at (.bind (dropWatch_sound v) fun _ => .pure true) (hw'.remove hv))
      refine (Prog.bind_run_ok hrun).trans ?_
      show (destroyWatch id >>= fun _ => pure true) _ = _
      rw [Prog.bind_run, destroyWatch_run (w := ⟨{ w'.lib with error := 0 }, _⟩) hv]
      rfl

theorem removeWatchByWd_sound (hS : Kind.remove ∈ S) (wd : Int32) :
    Sound S (removeWatchByWd wd : M σ Bool) :=
  fun _ hw => .watchFromWd hw (Sound.at (.bind assertInit_sound fun _ => .pure true) hw)
    fun _ _ _ hv => removeWatch_sound hS hv hw

theorem removeWatchByFilename_sound (hS : Kind.remove ∈ S) (n : Bytes) :
    Sound S (removeWatchByFilename n : M σ Bool) :=
  fun _ hw => .watchFromFilename hw (Sound.at (.bind assertInit_sound fun _ => .pure true) hw)
    fun _ _ _ hv => removeWatch_sound hS hv hw

/-! ## Watching -/

theorem isdir_sound (p : Bytes) : Sound S (isdir p : M σ Bool) := by
  refine .bind (.call fun os => .lstat _ os) fun
    | some mode => .pure _
    | none => .bind errno_sound fun e => .bind (strerror_sound e) fun _ => ?_
  exact .bind (.ite (ceprint_sound _) (.pure _)) fun _ => .pure _

section FidWatches

variable (hS : Kind.watch ∈ S) (hl : Kind.lifecycle ∉ S)
include hS hl

theorem registerMount_sound (fuel : Nat) (f : Bytes) (dirname : Option Bytes) :
    SoundFid S (registerMount fuel f dirname : M σ Bool) := by
  cases dirname with
  | none => exact Sound.fid (.pure true)
  | some d =>
      unfold registerMount
      refine .bind hl (Sound.fid (.bind .getLib fun _ => .pure _)) fun known => ?_
      refine .ite (Sound.fid (.pure true)) ?_
      refine .bind hl (Sound.fid (.call fun os => .openPath _ _ os)) fun mntid => ?_
      refine .ite (Sound.fid ?_) ?_
      · exact .bind errno_sound fun e => .bind (strerror_sound e) fun _ =>
          .bind (ceprint_sound _) fun _ => .pure false
      · exact .bind hl (createWatch_fid_sound hS hl fuel _ _ _) fun _ => Sound.fid (.pure true)

theorem fanotifyEncodeFid_sound (fuel : Nat) (p : CString) (dirname : Option Bytes) :
    SoundFid S (fanotifyEncodeFid fuel p dirname : M σ (Option (Bytes × Int32))) := by
  have hreport : ∀ msg : Bytes → List Piece, Sound S (do
      let e ← strerror (← errno)
      ceprint (msg e)
      return (none : Option (Bytes × Int32)) : M σ _) :=
    fun msg => .bind errno_sound fun e => .bind (strerror_sound e) fun _ =>
      .bind (ceprint_sound _) fun _ => .pure none
  unfold fanotifyEncodeFid
  refine .bind hl (Sound.fid (.call fun os => .statfs _ os)) fun fsid => ?_
  cases fsid with
  | none => exact (hreport _).fid
  | some fsid =>
      refine .bind hl (registerMount_sound hS hl fuel _ dirname) fun ok => ?_
      refine .ite (Sound.fid (.pure none)) ?_
      refine .bind hl (Sound.fid (.call fun os => .nameToHandleAt _ os)) fun r => ?_
      refine .ite (hreport _).fid ?_
      cases dirname with
      | none => exact Sound.fid (.pure _)
      | some d =>
          refine .bind hl (Sound.fid (.call fun os => .openPath _ _ os)) fun dirf => ?_
          exact .ite (hreport _).fid (Sound.fid (.pure _))

/-- Descriptor 0: the fid of the file stands for it. -/
theorem watchFid_zero_sound (fuel : Nat) (p : CString) (dirname : Option Bytes)
    (hw : w.lib.store.WellIndexed) (hm : FidWatches w) :
    SoundAt S w (watchFid fuel 0 p dirname : M σ _) fun r _ =>
      ∀ fid dirf, r = some (fid, dirf) → ∃ f, fid = some f := by
  unfold watchFid
  refine .ite (fun h => absurd rfl h) fun _ => ?_
  refine .bind hw (fanotifyEncodeFid_sound hS hl fuel p dirname w hw hm) fun r w' _ _ _ => ?_
  cases r with
  | none => exact .pure nofun
  | some fd =>
      refine .pure fun fid dirf h => ?_
      cases h
      exact ⟨fd.1, rfl⟩

theorem storeWatch_zero_sound (fuel : Nat) (p : CString) :
    SoundFid S (storeWatch fuel p 0 : M σ Bool) := by
  intro w hw hm
  unfold storeWatch
  refine .bind hw ((isdir_sound _).at hw) fun isDir w₁ hw₁ he₁ _ => ?_
  have hm₁ := hm.effects hl he₁
  refine .bind hw₁ (watchFid_zero_sound hS hl fuel p _ hw₁ hm₁) fun r w₂ hw₂ he₂ hfid => ?_
  cases r with
  | none => exact .pure trivial
  | some fd =>
      obtain ⟨f, hf⟩ := hfid fd.1 fd.2 rfl
      dsimp only
      rw [hf]
      exact .bind hw₂ (createWatch_fid_sound hS hl fuel f _ _ w₂ hw₂ (hm₁.effects hl he₂))
        fun _ _ _ _ _ => .pure trivial

end FidWatches

theorem watchRefused_sound (fname : Bytes) (wd : Int32) :
    Sound S (watchRefused fname wd : M σ Unit) :=
  .ite (.bind errno_sound fun e => setError_sound e) (ceprint_sound _)

theorem watchOne_sound (hS : Kind.watch ∈ S) (hl : Kind.lifecycle ∉ S) (fuel : Nat)
    (fname : Bytes) (events : Int32) : Sound S (watchOne fuel fname events : M σ (Bool × Int32)) := by
  intro w hw
  let p := cstring fname
  have hrefused : ∀ (wd events' : Int32) (os : σ), SoundAt S { w with os }
      (watchRefused p.bytes wd >>= fun _ => pure (false, events')) fun _ _ => True :=
    fun wd events' os => Sound.at (.bind (watchRefused_sound _ _) fun _ => .pure _) hw
  have hfid : ∀ (events' : Int32) (os : σ), FidWatches { w with os } → SoundAt S { w with os }
      (storeWatch fuel p 0 >>= fun ok => pure (ok, events')) fun _ _ => True :=
    fun events' os hm => .bind hw (storeWatch_zero_sound hS hl fuel p _ hw hm)
      fun _ _ _ _ _ => .pure trivial
  by_cases hm : w.lib.fanotifyMode = true
  · obtain ⟨flags, mask, events', hadd⟩ := addWatch_run_fanotify hm p events
    let r := Sys.fanotifyMark w.lib.fd flags mask p w.os
    have hmark : Effects S w { w with os := r.2 } := .quiet (.call w (.fanotifyMark _ _ _ _ _))
    unfold watchOne
    refine .step _ hadd hmark (.ite (fun _ => hrefused _ _ _) fun hneg => ?_)
    show SoundAt S _ (storeWatch fuel p r.1 >>= fun ok => pure (ok, events')) _
    by_cases hzero : r.1 = 0
    · rw [hzero]
      exact hfid _ _ (.inl hm)
    · have hpos : 0 < r.1 := by grind
      obtain ⟨os, hos, hrun⟩ := storeWatch_run hpos fuel p { w with os := r.2 }
      have hcalls : Effects S { w with os := r.2 } { w with os } := .calls hos
      refine .step _ hrun (hcalls.trans (.single hS (.marked _ hpos ?_ rfl hm rfl))) (.pure trivial)
      exact ⟨_, _, _, _, _, rfl⟩
  · have hm : w.lib.fanotifyMode = false := Bool.eq_false_iff.2 hm
    let r := addAnswer w p events
    by_cases hpos : 0 < r.1
    · -- the kernel has the watch before the store does: one effect from before the call
      obtain ⟨os, hos, hrun⟩ := watchOne_run_watched hm hpos fuel
      have he := Effect.watched w (v := numberedWatch p r.1 r.2) hpos rfl rfl hos rfl
      exact .run _ hrun (.single hS he) (.pure (a := (true, events)) trivial)
    · have hle : r.1 ≤ 0 := Int32.not_lt.1 hpos
      unfold watchOne
      refine .step _ (addWatch_run_inotify hm p events) (.single hS (.refused w hle)) ?_
      refine .ite (fun _ => hrefused _ _ _) fun hneg => ?_
      show SoundAt S _ (storeWatch fuel p r.1 >>= fun ok => pure (ok, events)) _
      have hge : 0 ≤ r.1 := Int32.not_lt.1 hneg
      have hzero : r.1 = 0 := Int32.le_antisymm hle hge
      rw [hzero]
      exact hfid _ _ (.inr ⟨_, _, _, _, hzero⟩)

theorem watchEach_sound (hS : Kind.watch ∈ S) (hl : Kind.lifecycle ∉ S) (fuel : Nat)
    (fnames : List Bytes) (events : Int32) :
    Sound S (watchEach fuel fnames events : M σ Bool) := by
  induction fnames generalizing events with
  | nil => exact .pure true
  | cons fname fnames ih =>
      refine .bind (watchOne_sound hS hl fuel fname events) fun r => ?_
      exact .ite (.pure false) (ih r.2)

theorem watchFiles_sound (hS : Kind.watch ∈ S) (hl : Kind.lifecycle ∉ S) (fuel : Nat)
    (fnames : List Bytes) (events : Int32) : Sound S (watchFiles fuel fnames events : M σ Bool) :=
  .bind assertInit_sound fun _ => .bind (setError_sound 0) fun _ =>
    watchEach_sound hS hl fuel fnames events

theorem walkEntry_sound {descend : Bytes → M σ Bool} (hd : ∀ p, Sound S (descend p))
    (path : Bytes) (excl : List Bytes) (name : Bytes) :
    Sound S (walkEntry descend path excl name : M σ Bool) := by
  refine .bind (.call fun os => .lstat _ os) fun
    | none => .bind errno_sound fun e => .bind (setError_sound e) fun _ => .pure _
    | some mode => .ite (.pure true) ?_
  refine .ite (.pure true) (.bind (hd _) fun status => .bind .getLib fun _ => .pure _)

theorem walkEntries_sound {descend : Bytes → M σ Bool} (hd : ∀ p, Sound S (descend p)) (dir : Nat)
    (path : Bytes) (excl : List Bytes) (fuel : Nat) :
    Sound S (walkEntries descend dir path excl fuel : M σ Bool) := by
  induction fuel with
  | zero => exact .fault (by decide)
  | succ fuel ih =>
      refine .bind (.call fun os => .readdir _ os) fun
        | none => .pure true
        | some name => ?_
      refine .bind (.ite (walkEntry_sound hd _ _ _) (.pure true)) fun ok => ?_
      exact .ite (.pure false) (.bind (setError_sound 0) fun _ => ih)

theorem watchRecursivelyWithExclude_sound (hS : Kind.watch ∈ S) (hl : Kind.lifecycle ∉ S)
    (fuel : Nat) (path : Bytes) (events : Int32) (excl : List Bytes) :
    Sound S (watchRecursivelyWithExclude fuel path events excl : M σ Bool) := by
  induction fuel generalizing path with
  | zero => exact .fault (by decide)
  | succ fuel ih =>
      refine .bind assertInit_sound fun _ => .bind (setError_sound 0) fun _ => ?_
      refine .bind (.call fun os => .opendir _ os) fun
        | none => .bind errno_sound fun e => .ite (watchFiles_sound hS hl fuel _ events) ?_
        | some dir => ?_
      · exact .bind (setError_sound e) fun _ => .pure false
      · refine .bind (walkEntries_sound (fun p => ih p) _ _ _ _) fun ok => ?_
        refine .bind (.exec fun os => .closedir _ os) fun _ => .ite (.pure false) ?_
        exact watchFiles_sound hS hl fuel _ events

end InotifyTools
