import InotifyTools.Implementation.Reading
import InotifyTools.Proofs.Frames
import InotifyTools.Proofs.Runs

set_option autoImplicit false

/-! # Every operation is sound

The rules for `Sound` along a program, and `Sound` for each operation of the library, with the kinds
of effects it has. -/

namespace InotifyTools

variable {σ α β : Type} {S : Set Kind}

/-! ## Primitive programs -/

section Primitives

variable {E : Fault → Prop} {w : World σ}

@[simp] theorem wp_getLib (Q : Inotifytools → World σ → Prop) :
    Prog.wp E (getLib : M σ _) Q w ↔ Q w.lib w := Iff.rfl

@[simp] theorem wp_modifyLib (f : Inotifytools → Inotifytools) (Q : Unit → World σ → Prop) :
    Prog.wp E (modifyLib f : M σ Unit) Q w ↔ Q () { w with lib := f w.lib } := Iff.rfl

@[simp] theorem wp_setError (e : Int32) (Q : Unit → World σ → Prop) :
    Prog.wp E (setError e : M σ Unit) Q w ↔ Q () { w with lib := { w.lib with error := e } } :=
  Iff.rfl

@[simp] theorem wp_setStore (s : Store) (Q : Unit → World σ → Prop) :
    Prog.wp E (setStore s : M σ Unit) Q w ↔ Q () { w with lib := { w.lib with store := s } } :=
  Iff.rfl

@[simp] theorem wp_call (f : σ → α × σ) (Q : α → World σ → Prop) :
    Prog.wp E (call f) Q w ↔ Q (f w.os).1 { w with os := (f w.os).2 } := Iff.rfl

@[simp] theorem wp_exec (f : σ → σ) (Q : Unit → World σ → Prop) :
    Prog.wp E (exec f) Q w ↔ Q () { w with os := f w.os } := Iff.rfl

variable [Sys σ]

@[simp] theorem wp_errno (Q : Int32 → World σ → Prop) :
    Prog.wp E (errno : M σ Int32) Q w ↔ Q (Sys.errno w.os) w := Iff.rfl

@[simp] theorem wp_strerror (e : Int32) (Q : Bytes → World σ → Prop) :
    Prog.wp E (strerror e : M σ Bytes) Q w ↔ Q (Sys.strerror σ e) w := Iff.rfl

omit [Sys σ] in
/-- Looking up a watch that is there. -/
theorem wp_watch {id : Nat} {v : Watch} {Q : Watch → World σ → Prop}
    (hv : w.lib.store.watches[id]? = some v) (h : Q v w) :
    Prog.wp E (watch id : M σ Watch) Q w := by
  unfold watch
  simp only [Prog.wp_bind, wp_getLib, hv]
  exact h

end Primitives

/-! ## Rules -/

variable [Sys σ] {w : World σ} {Q R : α → World σ → Prop}

theorem SoundAt.mono {m : M σ α} (h : SoundAt S w m Q) (hQ : ∀ a w', Q a w' → R a w') :
    SoundAt S w m R :=
  Prog.wp.mono h fun a w' ⟨he, hq⟩ => ⟨he, hQ a w' hq⟩

theorem SoundAt.pure {a : α} (h : Q a w) : SoundAt S w (Pure.pure a) Q := ⟨.refl w, h⟩

/-- Along a sequence: the second part starts from a well-indexed store again. -/
theorem SoundAt.bind {x : M σ α} {f : α → M σ β} {P : β → World σ → Prop}
    (hw : w.lib.store.WellIndexed) (hx : SoundAt S w x Q)
    (hf : ∀ a w', w'.lib.store.WellIndexed → Effects S w w' → Q a w' → SoundAt S w' (f a) P) :
    SoundAt S w (x >>= f) P := by
  refine (Prog.wp_bind ..).2 (Prog.wp.mono hx fun a w' ⟨he, hq⟩ => ?_)
  exact Prog.wp.mono (hf a w' (he.wellIndexed hw) he hq) fun b w'' ⟨he', hp⟩ =>
    ⟨he.trans he', hp⟩

theorem SoundAt.fault {e : Fault} (h : e ≠ .missingWatch) : SoundAt S w (Prog.fault e) Q := h

theorem SoundAt.getLib {f : Inotifytools → M σ α} (h : SoundAt S w (f w.lib) Q) :
    SoundAt S w (InotifyTools.getLib >>= f) Q := h

theorem SoundAt.watch {id : Nat} {v : Watch} {f : Watch → M σ α}
    (hv : w.lib.store.watches[id]? = some v) (h : SoundAt S w (f v) Q) :
    SoundAt S w (InotifyTools.watch id >>= f) Q :=
  (Prog.wp_bind ..).2 (wp_watch hv h)

theorem SoundAt.ite {c : Prop} [Decidable c] {m n : M σ α} (hm : c → SoundAt S w m Q)
    (hn : ¬ c → SoundAt S w n Q) : SoundAt S w (if c then m else n) Q :=
  Prog.wp_ite hm hn

/-- A step that is one effect. -/
theorem SoundAt.effect {m : M σ α} {w' : World σ} {a : α} {k : Kind} (hk : k = .quiet ∨ k ∈ S)
    (hm : m w = .ok (a, w')) (he : Effect k w w') (hQ : Q a w') : SoundAt S w m Q :=
  Prog.wp_of_run
    (fun b w'' h => by
      cases hm.symm.trans h
      exact ⟨Relation.ReflTransGen.single ⟨k, hk, he⟩, hQ⟩)
    (fun e h => nomatch hm.symm.trans h)

/-- `m` first moves to `w'` and then behaves as `n`. -/
theorem SoundAt.run {m n : M σ α} (w' : World σ) (hm : m w = n w') (he : Effects S w w')
    (h : SoundAt S w' n Q) : SoundAt S w m Q := by
  unfold SoundAt Prog.wp at h ⊢
  rw [hm]
  split
  · next hn =>
      rw [hn] at h
      exact ⟨he.trans h.1, h.2⟩
  · next hn =>
      rw [hn] at h
      exact h

/-- The first step returns `a` and leaves `w'`. -/
theorem SoundAt.step {m : M σ α} {f : α → M σ β} {P : β → World σ → Prop} {a : α}
    (w' : World σ) (hm : m w = .ok (a, w')) (he : Effects S w w') (h : SoundAt S w' (f a) P) :
    SoundAt S w (m >>= f) P :=
  .run w' (Prog.bind_run_ok hm) he h

theorem Sound.at {m : M σ α} (h : Sound S m) (hw : w.lib.store.WellIndexed) :
    SoundAt S w m fun _ _ => True := h w hw

theorem Sound.mono {T : Set Kind} {m : M σ α} (hST : S ⊆ T) (h : Sound S m) : Sound T m :=
  fun w hw => Prog.wp.mono (h w hw) fun _ _ ⟨he, ht⟩ => ⟨he.mono hST, ht⟩

/-- Quiet programs change nothing that the bookkeeping depends on. -/
theorem Sound.quiet {m : M σ α} (h : Sound ∅ m) (hw : w.lib.store.WellIndexed) :
    SoundAt S w m fun _ w' => SameBooks w.lib w'.lib :=
  Prog.wp.mono (h w hw) fun _ _ ⟨he, _⟩ => ⟨he.mono (Set.empty_subset S), he.sameBooks⟩

theorem Sound.pure (a : α) : Sound S (Pure.pure a : M σ α) := fun _ _ => .pure trivial

theorem Sound.bind {x : M σ α} {f : α → M σ β} (hx : Sound S x) (hf : ∀ a, Sound S (f a)) :
    Sound S (x >>= f) :=
  fun w hw => .bind hw (hx w hw) fun a w' hw' _ _ => hf a w' hw'

theorem Sound.ite {c : Prop} [Decidable c] {m n : M σ α} (hm : Sound S m) (hn : Sound S n) :
    Sound S (if c then m else n) :=
  fun w hw => .ite (fun _ => hm w hw) (fun _ => hn w hw)

theorem Sound.fault {e : Fault} (h : e ≠ .missingWatch) :
    Sound S (Prog.fault e : M σ α) := fun _ _ => .fault h

theorem Sound.guard {c : Bool} {e : Fault} (h : e ≠ .missingWatch) :
    Sound S (Prog.guard c e : M σ Unit) := .ite (.pure ()) (.fault h)

theorem Sound.getLib : Sound S (getLib : M σ Inotifytools) := fun w _ => ⟨.refl w, trivial⟩

theorem Sound.call {f : σ → α × σ} (h : ∀ os, QuietCall os (f os).2) : Sound S (call f) :=
  fun w _ => .effect (.inl rfl) rfl (.call w (h w.os)) trivial

theorem Sound.exec {f : σ → σ} (h : ∀ os, QuietCall os (f os)) : Sound S (exec f) :=
  fun w _ => .effect (.inl rfl) rfl (.call w (h w.os)) trivial

/-- Changing nothing but scratch buffers and the error number. -/
theorem Sound.scratch {f : Inotifytools → Inotifytools}
    (h : ∀ l, f l = { l with error := (f l).error, evstr := (f l).evstr, fidname := (f l).fidname,
                             printOut := (f l).printOut }) :
    Sound S (modifyLib f : M σ Unit) := by
  intro w _
  refine .effect (.inl rfl) rfl ?_ trivial
  show Effect .quiet w { w with lib := f w.lib }
  rw [h w.lib]
  exact .scratch w _ _ _ _

/-- Changing nothing but options and timestamps' format. -/
theorem Sound.config (hS : Kind.config ∈ S) {f : Inotifytools → Inotifytools}
    (h : ∀ l, f l = { l with recursiveWatch := (f l).recursiveWatch
                             invertRegexp := (f l).invertRegexp
                             verbosity := (f l).verbosity
                             selfPid := (f l).selfPid
                             fanotifyMarkType := (f l).fanotifyMarkType
                             timefmt := (f l).timefmt
                             regex := (f l).regex }) :
    Sound S (modifyLib f : M σ Unit) := by
  intro w _
  refine .effect (.inr hS) rfl ?_ trivial
  show Effect .config w { w with lib := f w.lib }
  rw [h w.lib]
  exact .config w _ _ _ _ _ _ _

theorem Sound.modifyStream (hS : Kind.stream ∈ S) (f : EventStream → EventStream) :
    Sound S (modifyStream f : M σ Unit) :=
  fun w _ => .effect (.inr hS) rfl (.stream w _) trivial

theorem setError_sound (e : Int32) : Sound S (setError e : M σ Unit) := .scratch fun _ => rfl

theorem errno_sound : Sound S (errno : M σ Int32) := fun w _ => ⟨.refl w, trivial⟩

theorem strerror_sound (e : Int32) : Sound S (strerror e : M σ Bytes) := fun w _ => ⟨.refl w, trivial⟩

theorem ceprint_sound (ps : List Piece) : Sound S (ceprint ps : M σ Unit) :=
  .exec fun os => .fwrite _ _ os

theorem cprint_sound (ps : List Piece) : Sound S (cprint ps : M σ Unit) :=
  .exec fun os => .fwrite _ _ os

theorem niceassert_sound (c : Bool) (line : Nat) (s t : String) :
    Sound S (niceassert c line s t : M σ Unit) := .ite (.pure ()) (ceprint_sound _)

theorem assertInit_sound : Sound S (assertInit : M σ Unit) :=
  .bind .getLib fun _ => niceassert_sound _ _ _ _

/-! ## The handle -/

theorem dropWatch_sound (v : Watch) : Sound S (dropWatch v : M σ Unit) :=
  .ite (.exec fun os => .close _ os) (.pure ())

theorem dropWatches_sound (vs : List Watch) : Sound S (dropWatches vs : M σ Unit) := by
  induction vs with
  | nil => exact .pure ()
  | cons v vs ih => exact .bind (dropWatch_sound v) fun _ => ih

theorem init_sound (hc : Kind.config ∈ S) (hl : Kind.lifecycle ∈ S) (hs : Kind.stats ∈ S)
    (fanotify watchFilesystem : Bool) (verbose : Int32) :
    Sound S (init fanotify watchFilesystem verbose : M σ Bool) := by
  intro w hw
  by_cases hi : w.lib.initialized = true
  · unfold init
    exact .getLib (.ite (fun _ => .pure trivial) fun h => absurd hi h)
  have hi : w.lib.initialized = false := Bool.eq_false_iff.2 hi
  obtain ⟨pid, mark, os₁, fd, os, hcalls, hopen, -, hrun⟩ := init_run hi fanotify watchFilesystem
    verbose
  have hos : Effects S w { w with os := os₁ } := .calls hcalls
  split at hrun
  · next hfd =>
      let w₁ : World σ := { lib := { w.lib with error := Sys.errno os }, os := os₁ }
      let w₂ : World σ := { lib := { w₁.lib with verbosity := verbose, selfPid := pid
                                                 fanotifyMarkType := mark }
                            os := os₁ }
      have herr : Effects S { w with os := os₁ } w₁ := .quiet (.scratch _ _ _ _ _)
      have hcfg : Effects S w₁ w₂ := .single hc (.config w₁ _ _ _ _ _ _ _)
      have hfailed : Effects S w₂ _ := .single hl (.notOpened w₂ hopen hi)
      exact .run (n := pure false) _ hrun (hos.trans (herr.trans (hcfg.trans hfailed)))
        (.pure trivial)
  · next hfd =>
      let w₁ : World σ := { lib := { w.lib with error := 0 }, os := os₁ }
      let w₂ : World σ := { lib := { w₁.lib with verbosity := verbose, selfPid := pid
                                                 fanotifyMarkType := mark, timefmt := none }
                            os := os₁ }
      let w₃ : World σ :=
        { lib := { w₂.lib with fanotifyMode := fanotify, fd, initialized := true
                               store := w₂.lib.store.clearIndexes }
          os }
      have herr : Effects S { w with os := os₁ } w₁ := .quiet (.scratch _ _ _ _ _)
      have hcfg : Effects S w₁ w₂ := .single hc (.config w₁ _ _ _ _ _ _ _)
      have hopened : Effects S w₂ w₃ := .single hl (.opened w₂ hopen hi (Int32.not_lt.1 hfd))
      have hcoll : Effects S w₃ _ := .single hs (.collecting w₃ false w₃.lib.totals fun _ wd => by
        simp [w₃, Store.clearIndexes])
      exact .run (n := pure true) _ hrun
        (hos.trans (herr.trans (hcfg.trans (hopened.trans hcoll)))) (.pure trivial)

theorem cleanup_sound (hc : Kind.config ∈ S) (hl : Kind.lifecycle ∈ S) (hs : Kind.stats ∈ S) :
    Sound S (cleanup : M σ Unit) := by
  intro w hw
  unfold cleanup
  refine .getLib (.ite (fun _ => .pure trivial) fun hi => ?_)
  let w₁ : World σ :=
    { lib := { w.lib with initialized := false, store := w.lib.store.clear }
      os := Sys.close w.lib.fd w.os }
  let w₂ : World σ := { w₁ with lib := { w₁.lib with error := 0 } }
  let w₃ : World σ := { w₂ with lib := { w₂.lib with collectStats := false } }
  have hclosed : Effects S w w₁ := .single hl (.closed w)
  have herr : Effects S w₁ w₂ := .quiet (.scratch w₁ _ _ _ _)
  have hcoll : Effects S w₂ w₃ := .single hs (.collecting w₂ false w₂.lib.totals fun _ wd => by
    simp [w₂, w₁, Store.clear, Store.clearIndexes])
  refine .run (n := dropWatches w.lib.store.watches.values) _ rfl
    (hclosed.trans (herr.trans (hcoll.trans (.single hc (.config w₃ _ _ _ _ _ _ _))))) ?_
  exact dropWatches_sound _ _ (Store.WellIndexed.clear _)

/-! ## Creating watches -/

/-- Watches for fids are made in fanotify mode, or because the kernel answered with descriptor 0. -/
def FidWatches (w : World σ) : Prop := w.lib.fanotifyMode = true ∨ AnsweredZero σ

theorem FidWatches.effects {w w' : World σ} (hl : Kind.lifecycle ∉ S) (h : FidWatches w)
    (he : Effects S w w') : FidWatches w' :=
  h.imp (he.fanotifyMode_eq hl).trans id

/-- Like `Sound`, from worlds where watches for fids may be made. -/
def SoundFid (S : Set Kind) (m : M σ α) : Prop :=
  ∀ w, w.lib.store.WellIndexed → FidWatches w → SoundAt S w m fun _ _ => True

theorem Sound.fid {m : M σ α} (h : Sound S m) : SoundFid S m := fun w hw _ => h w hw

theorem SoundFid.bind {x : M σ α} {f : α → M σ β} (hl : Kind.lifecycle ∉ S) (hx : SoundFid S x)
    (hf : ∀ a, SoundFid S (f a)) : SoundFid S (x >>= f) :=
  fun w hw hm => .bind hw (hx w hw hm) fun a w' hw' he _ => hf a w' hw' (hm.effects hl he)

theorem SoundFid.ite {c : Prop} [Decidable c] {m n : M σ α} (hm : SoundFid S m)
    (hn : SoundFid S n) : SoundFid S (if c then m else n) :=
  fun w hw hf => .ite (fun _ => hm w hw hf) (fun _ => hn w hw hf)

/-- The search hands out a positive descriptor that is not in use. -/
theorem searchFanotifyWd_spec {byWd : Std.TreeMap Int32 Nat} {fuel : Nat} {n wd : Int32}
    (h : Store.searchFanotifyWd byWd fuel n = some wd) : 0 < wd ∧ byWd[wd]? = none := by
  induction fuel generalizing n with
  | zero => cases h
  | succ fuel ih =>
      have hpos : 0 < (if n + 1 ≤ 0 then 1 else n + 1) := by
        split
        · decide
        · grind
      simp only [Store.searchFanotifyWd] at h
      generalize (if n + 1 ≤ 0 then 1 else n + 1) = m at h hpos
      by_cases hc : byWd.contains m = true
      · rw [if_pos hc] at h
        exact ih h
      · rw [if_neg hc] at h
        cases h
        refine ⟨hpos, ?_⟩
        rw [KeyedMap.contains_eq_isSome] at hc
        simpa using hc

/-- Descriptor 0 is replaced by a new one. -/
theorem assignWd_sound (hS : Kind.watch ∈ S) (fuel : Nat) :
    SoundAt S w (assignWd fuel 0 : M σ Int32) fun wd w' =>
      0 < wd ∧ w'.lib.store.byWd[wd]? = none := by
  unfold assignWd
  refine .ite (fun h => absurd rfl h) fun _ => .getLib ?_
  dsimp only
  split
  · next wd hs =>
      refine .step _ rfl (.single hS (.counter w wd)) (.pure ?_)
      exact searchFanotifyWd_spec hs
  · exact .fault (by decide)

/-- Entering a watch is one effect, and closing its directory if no index takes it. -/
theorem enterWatch_sound {v : Watch} {k : Kind} (hk : k ∈ S)
    (he : Effect k w { w with lib := { w.lib with store := w.lib.store.insert v } })
    (hw : w.lib.store.WellIndexed) : SoundAt S w (enterWatch v : M σ Unit) fun _ _ => True := by
  unfold enterWatch
  refine .getLib (.step _ rfl (.single hk he) ?_)
  exact (Sound.ite (.pure ()) (dropWatch_sound v)).at (hw.insert v)

/-- A watch for a fid gets a descriptor of its own. -/
theorem createWatch_fid_sound (hS : Kind.watch ∈ S) (hl : Kind.lifecycle ∉ S) (fuel : Nat)
    (f filename : Bytes) (dirf : Int32) :
    SoundFid S (createWatch fuel 0 (some f) filename dirf : M σ (Option Int32)) := by
  intro w hw hm
  unfold createWatch
  refine .ite (fun _ => .pure trivial) fun _ => ?_
  refine .bind hw (assignWd_sound hS fuel) fun wd w₁ hw₁ he₁ ⟨hpos, hnew⟩ => ?_
  refine .bind hw₁ (enterWatch_sound hS ?_ hw₁) fun _ _ _ _ _ => .pure trivial
  exact .created w₁ hpos hnew rfl (hm.effects hl he₁) rfl

end InotifyTools
