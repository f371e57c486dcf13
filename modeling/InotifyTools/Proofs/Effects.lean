import InotifyTools.Proofs.Store
import Mathlib.Data.Set.Basic
import Mathlib.Logic.Relation

set_option autoImplicit false

/-! # What the library does

The changes an operation makes are compositions of a few *effects*: one constructor of `Effect` for
each change of the handle or of the inotify instance behind it, with what is known when it is made.
`Sound S m` says that `m` never looks up an absent watch and that all it does is effects of the kinds
`S`. An invariant of the library is proved once, of effects. -/

namespace InotifyTools

open Relation

variable {σ : Type} [Sys σ]

/-! ## Effects -/

/-- A system call that touches no inotify instance except by closing it. -/
inductive QuietCall : σ → σ → Prop
  | fwrite (st : Stream) (b : Bytes) (os : σ) : QuietCall os (Sys.fwrite st b os)
  | getpid (os : σ) : QuietCall os (Sys.getpid os).2
  | close (fd : Int32) (os : σ) : QuietCall os (Sys.close fd os)
  | fanotifyMark (fd : Int32) (flags : UInt32) (mask : UInt64) (p : CString) (os : σ) :
      QuietCall os (Sys.fanotifyMark fd flags mask p os).2
  | lstat (p : CString) (os : σ) : QuietCall os (Sys.lstat p os).2
  | statfs (p : CString) (os : σ) : QuietCall os (Sys.statfs p os).2
  | openPath (p : CString) (flags : Int32) (os : σ) : QuietCall os (Sys.openPath p flags os).2
  | dup (fd : Int32) (os : σ) : QuietCall os (Sys.dup fd os).2
  | nameToHandleAt (p : CString) (os : σ) : QuietCall os (Sys.nameToHandleAt p os).2
  | openByHandleAt (fd : Int32) (h : Bytes) (os : σ) : QuietCall os (Sys.openByHandleAt fd h os).2
  | readlinkFd (fd : Int32) (n : Nat) (os : σ) : QuietCall os (Sys.readlinkFd fd n os).2
  | faccessat (fd : Int32) (p : CString) (os : σ) : QuietCall os (Sys.faccessat fd p os).2
  | opendir (p : CString) (os : σ) : QuietCall os (Sys.opendir p os).2
  | readdir (d : Nat) (os : σ) : QuietCall os (Sys.readdir d os).2
  | closedir (d : Nat) (os : σ) : QuietCall os (Sys.closedir d os)
  | ppoll (fd : Int32) (t : Option Int) (os : σ) : QuietCall os (Sys.ppoll fd t os).2
  | fionread (fd : Int32) (os : σ) : QuietCall os (Sys.fionread fd os).2
  | read (fd : Int32) (n : Nat) (os : σ) : QuietCall os (Sys.read fd n os).2
  | regcomp (p : CString) (flags : Int32) (os : σ) : QuietCall os (Sys.regcomp p flags os).2
  | strftimeNow (f : CString) (os : σ) : QuietCall os (Sys.strftimeNow f os).2
  | flushAll (os : σ) : QuietCall os (Sys.flushAll os)
  | syslog (b : Bytes) (os : σ) : QuietCall os (Sys.syslog b os)
  | slurp (p : Option CString) (os : σ) : QuietCall os (Sys.slurp p os).2
  | printNow (os : σ) : QuietCall os (Sys.printNow os).2
  | done (os : σ) : QuietCall os (Sys.done os).2

/-- The kernel has answered `inotify_add_watch` with descriptor 0. -/
def AnsweredZero (σ : Type) [Sys σ] : Prop :=
  ∃ (fd : Int32) (p : CString) (mask : UInt32) (os : σ), (Sys.inotifyAddWatch fd p mask os).1 = 0

/-- The kernel has answered `fanotify_mark` with the positive number `wd`. -/
def MarkedWith (σ : Type) [Sys σ] (wd : Int32) : Prop :=
  ∃ (fd : Int32) (flags : UInt32) (mask : UInt64) (p : CString) (os : σ),
    (Sys.fanotifyMark fd flags mask p os).1 = wd

/-- Asking for a new inotify instance or fanotify group: the answer and the system afterwards. -/
inductive Opened : Bool → σ → Int32 → σ → Prop
  | inotify (os : σ) : Opened false os (Sys.inotifyInit os).1 (Sys.inotifyInit os).2
  | fanotify (flags : UInt32) (os : σ) :
      Opened true os (Sys.fanotifyInit flags os).1 (Sys.fanotifyInit flags os).2

/-- The kinds of effects. -/
inductive Kind
  /-- Scratch buffers, the error number, and calls that touch no watch. -/
  | quiet
  | config
  | stream
  | watch
  | rename
  | stats
  | remove
  | lifecycle

/-- One change of the handle or of the watches of its inotify instance. -/
inductive Effect : Kind → World σ → World σ → Prop
  | scratch (w : World σ) (error : Int32) (evstr fidname : Mem) (printOut : Option NString) :
      Effect .quiet w { w with lib := { w.lib with error, evstr, fidname, printOut } }
  | call (w : World σ) {os : σ} (h : QuietCall w.os os) : Effect .quiet w { w with os }
  | config (w : World σ) (recursiveWatch : Int32) (invertRegexp : Bool) (verbosity selfPid : Int32)
      (fanotifyMarkType : UInt32) (timefmt : Option CString) (regex : Option Regex) :
      Effect .config w
        { w with lib :=
          { w.lib with recursiveWatch, invertRegexp, verbosity, selfPid, fanotifyMarkType, timefmt,
                       regex } }
  | stream (w : World σ) (stream : EventStream) :
      Effect .stream w { w with lib := { w.lib with stream } }
  /-- The counter for fanotify descriptors moves on. -/
  | counter (w : World σ) (wd : Int32) :
      Effect .watch w { w with lib := { w.lib with store :=
        { w.lib.store with nextFanotifyWd := wd } } }
  /-- A watch for a fid is entered under a new descriptor. -/
  | created (w : World σ) {v : Watch} (hwd : 0 < v.wd) (hnew : w.lib.store.byWd[v.wd]? = none)
      (hfid : v.fid.isSome) (hmode : w.lib.fanotifyMode = true ∨ AnsweredZero σ)
      (hstats : v.stats = {}) :
      Effect .watch w { w with lib := { w.lib with store := w.lib.store.insert v } }
  /-- `fanotify_mark` has handed out a descriptor (the kernel's does not). -/
  | marked (w : World σ) {v : Watch} (hwd : 0 < v.wd) (hmark : MarkedWith σ v.wd)
      (hfid : v.fid = none) (hmode : w.lib.fanotifyMode = true) (hstats : v.stats = {}) :
      Effect .watch w { w with lib := { w.lib with store := w.lib.store.insert v } }
  /-- The kernel has accepted a watch, and it is entered after some calls. -/
  | watched (w : World σ) {v : Watch} {p : CString} {mask : UInt32} {os : σ} (hwd : 0 < v.wd)
      (hadd : (Sys.inotifyAddWatch w.lib.fd p mask w.os).1 = v.wd) (hfid : v.fid = none)
      (hos : ReflTransGen QuietCall (Sys.inotifyAddWatch w.lib.fd p mask w.os).2 os)
      (hstats : v.stats = {}) :
      Effect .watch w { w with lib := { w.lib with store := w.lib.store.insert v }, os }
  /-- The kernel has handed out no watch. -/
  | refused (w : World σ) {p : CString} {mask : UInt32}
      (hadd : (Sys.inotifyAddWatch w.lib.fd p mask w.os).1 ≤ 0) :
      Effect .watch w { w with os := (Sys.inotifyAddWatch w.lib.fd p mask w.os).2 }
  | renamed (w : World σ) {id : Nat} {v : Watch} (hv : w.lib.store.watches[id]? = some v)
      (hid : w.lib.store.Listed id) (n : CString) :
      Effect .rename w { w with lib := { w.lib with store := w.lib.store.rename id v n } }
  | counted (w : World σ) {id : Nat} {v : Watch} (hv : w.lib.store.watches[id]? = some v)
      (hcoll : w.lib.collectStats = true) (stats totals : WatchStats) :
      Effect .stats w { w with lib :=
        { w.lib with store := w.lib.store.setStats id v stats, totals } }
  /-- Counting is turned on, or off while no descriptor is indexed. -/
  | collecting (w : World σ) (collectStats : Bool) (totals : WatchStats)
      (h : collectStats = false → ∀ wd : Int32, w.lib.store.byWd[wd]? = none) :
      Effect .stats w { w with lib := { w.lib with collectStats, totals } }
  /-- The kernel has dropped a watch, and its keys are erased. -/
  | removed (w : World σ) {id : Nat} {v : Watch} (hv : w.lib.store.watches[id]? = some v)
      (hfid : v.fid = none) (hrm : 0 ≤ (Sys.inotifyRmWatch w.lib.fd v.wd w.os).1) :
      Effect .remove w
        { w with
          lib := { w.lib with store := w.lib.store.remove id v }
          os := (Sys.inotifyRmWatch w.lib.fd v.wd w.os).2 }
  | kept (w : World σ) {wd : Int32} (hrm : (Sys.inotifyRmWatch w.lib.fd wd w.os).1 < 0) :
      Effect .remove w { w with os := (Sys.inotifyRmWatch w.lib.fd wd w.os).2 }
  | notOpened (w : World σ) {fanotify : Bool} {fd : Int32} {os : σ}
      (hopen : Opened fanotify w.os fd os) (hi : w.lib.initialized = false) :
      Effect .lifecycle w { lib := { w.lib with fanotifyMode := fanotify, fd }, os }
  | opened (w : World σ) {fanotify : Bool} {fd : Int32} {os : σ}
      (hopen : Opened fanotify w.os fd os) (hi : w.lib.initialized = false) (hfd : 0 ≤ fd) :
      Effect .lifecycle w
        { lib := { w.lib with fanotifyMode := fanotify, fd, initialized := true,
                              store := w.lib.store.clearIndexes }
          os }
  | closed (w : World σ) :
      Effect .lifecycle w
        { w with
          lib := { w.lib with initialized := false, store := w.lib.store.clear }
          os := Sys.close w.lib.fd w.os }

/-- A composition of effects of the kinds `S`, besides quiet ones. -/
def Effects (S : Set Kind) : World σ → World σ → Prop :=
  ReflTransGen fun w w' => ∃ k, (k = .quiet ∨ k ∈ S) ∧ Effect k w w'

namespace Effects

variable {S T : Set Kind} {w w' w'' : World σ}

theorem refl (w : World σ) : Effects S w w := ReflTransGen.refl

theorem trans (h : Effects S w w') (h' : Effects S w' w'') : Effects S w w'' :=
  ReflTransGen.trans h h'

theorem quiet (h : Effect .quiet w w') : Effects S w w' :=
  ReflTransGen.single ⟨.quiet, .inl rfl, h⟩

theorem single {k : Kind} (hk : k ∈ S) (h : Effect k w w') : Effects S w w' :=
  ReflTransGen.single ⟨k, .inr hk, h⟩

theorem calls {os : σ} (h : ReflTransGen QuietCall w.os os) : Effects S w { w with os } := by
  induction h with
  | refl => exact refl w
  | tail _ hc ih => exact ih.trans (quiet (.call _ hc))

theorem mono (hST : S ⊆ T) (h : Effects S w w') : Effects T w w' := by
  induction h with
  | refl => exact refl w
  | tail _ he ih =>
      obtain ⟨k, hk, he⟩ := he
      exact ih.tail ⟨k, hk.imp id fun h => hST h, he⟩

/-- What every effect of the kinds preserves, the run preserves. -/
theorem preserves {P : World σ → Prop} (h : Effects S w w')
    (step : ∀ k w w', (k = .quiet ∨ k ∈ S) → Effect k w w' → P w → P w') (hP : P w) : P w' := by
  induction h with
  | refl => exact hP
  | tail _ he ih =>
      obtain ⟨k, hk, he⟩ := he
      exact step k _ _ hk he ih

end Effects

/-- Quiet effects leave the handle alone except for scratch buffers and the error number. -/
structure SameBooks (l l' : Inotifytools) : Prop where
  store : l'.store = l.store
  fd : l'.fd = l.fd
  initialized : l'.initialized = l.initialized
  fanotifyMode : l'.fanotifyMode = l.fanotifyMode
  fanotifyMarkType : l'.fanotifyMarkType = l.fanotifyMarkType
  stream : l'.stream = l.stream
  selfPid : l'.selfPid = l.selfPid

theorem Effects.sameBooks {w w' : World σ} (h : Effects ∅ w w') : SameBooks w.lib w'.lib := by
  refine h.preserves (P := fun w' => SameBooks w.lib w'.lib) ?_ ⟨rfl, rfl, rfl, rfl, rfl, rfl, rfl⟩
  rintro k w₁ w₂ (rfl | hk) he ih
  · cases he <;> exact ⟨ih.store, ih.fd, ih.initialized, ih.fanotifyMode, ih.fanotifyMarkType,
      ih.stream, ih.selfPid⟩
  · exact absurd hk (Set.notMem_empty k)

/-! ## Store integrity along effects -/

/-- An effect keeps the store well indexed, and every old id to its watch. -/
theorem Effect.integrity {k : Kind} {w w' : World σ} (h : Effect k w w')
    (hw : w.lib.store.WellIndexed) :
    w'.lib.store.WellIndexed ∧ w.lib.store.Precedes w'.lib.store := by
  cases h with
  | scratch | call | config | stream | collecting | refused | kept | notOpened =>
      exact ⟨hw, .refl _⟩
  | counter _ wd => exact ⟨hw.counter wd, Store.precedes_counter ..⟩
  | created | marked | watched => exact ⟨hw.insert _, Store.precedes_insert ..⟩
  | renamed _ hv _ n => exact ⟨hw.rename hv n, Store.precedes_rename hv n⟩
  | counted _ hv _ stats => exact ⟨hw.setStats hv stats, Store.precedes_setStats hv stats⟩
  | removed _ hv => exact ⟨hw.remove hv, Store.precedes_remove ..⟩
  | opened => exact ⟨hw.clearIndexes, Store.precedes_clearIndexes _⟩
  | closed => exact ⟨Store.WellIndexed.clear _, Store.precedes_clear _⟩

theorem Effects.integrity {S : Set Kind} {w w' : World σ} (h : Effects S w w')
    (hw : w.lib.store.WellIndexed) :
    w'.lib.store.WellIndexed ∧ w.lib.store.Precedes w'.lib.store := by
  induction h with
  | refl => exact ⟨hw, .refl _⟩
  | tail _ he ih =>
      obtain ⟨k, -, he⟩ := he
      obtain ⟨hi, hp⟩ := ih
      obtain ⟨hi', hp'⟩ := he.integrity hi
      exact ⟨hi', hp.trans hp'⟩

theorem Effects.wellIndexed {S : Set Kind} {w w' : World σ} (h : Effects S w w')
    (hw : w.lib.store.WellIndexed) : w'.lib.store.WellIndexed := (h.integrity hw).1

/-! ## Sound programs -/

/-- The faults a sound program may stop with: no lookup of an absent watch. -/
abbrev Tolerated (e : Fault) : Prop := e ≠ .missingWatch

/-- From the world `w`, which need not be well indexed here, `m` looks up no absent watch and its
    effects are of the kinds `S`; the value it returns and the world it leaves satisfy `Q`. -/
def SoundAt {α : Type} (S : Set Kind) (w : World σ) (m : M σ α) (Q : α → World σ → Prop) : Prop :=
  Prog.wp Tolerated m (fun a w' => Effects S w w' ∧ Q a w') w

/-- From any well-indexed store, `m` looks up no absent watch and its effects are of the kinds
    `S`. -/
def Sound {α : Type} (S : Set Kind) (m : M σ α) : Prop :=
  ∀ w, w.lib.store.WellIndexed → SoundAt S w m fun _ _ => True

end InotifyTools
