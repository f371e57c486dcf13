import InotifyTools.Proofs.Effects

set_option autoImplicit false

/-! # What effects leave alone

The parts of a handle that only some kinds of effects change. -/

namespace InotifyTools

open KeyedMap

variable {σ : Type} [Sys σ] {S : Set Kind} {w w' : World σ}

namespace Effects

/-- A part of the handle that no effect of the kinds changes. -/
theorem same {α : Type} (f : World σ → α) (h : Effects S w w')
    (step : ∀ k w w', (k = .quiet ∨ k ∈ S) → Effect k w w' → f w' = f w) : f w' = f w :=
  h.preserves (P := fun w' => f w' = f w) (fun k w₁ w₂ hk he ih => (step k w₁ w₂ hk he).trans ih) rfl

/-- Only the reading and decoding of events touches the event stream. -/
theorem stream_eq (h : Effects S w w') (hS : Kind.stream ∉ S) : w'.lib.stream = w.lib.stream := by
  refine h.same (fun w => w.lib.stream) fun k w₁ w₂ hk he => ?_
  cases he with
  | stream => exact absurd (hk.resolve_left nofun) hS
  | _ => rfl

/-- Whether the handle is initialised, for what, and its descriptor, until it is closed. -/
theorem instance_eq (h : Effects S w w') (hS : Kind.lifecycle ∉ S) :
    (w'.lib.initialized, w'.lib.fanotifyMode, w'.lib.fd)
      = (w.lib.initialized, w.lib.fanotifyMode, w.lib.fd) := by
  refine h.same (fun w => (w.lib.initialized, w.lib.fanotifyMode, w.lib.fd)) fun k w₁ w₂ hk he => ?_
  cases he with
  | notOpened | opened | closed => exact absurd (hk.resolve_left nofun) hS
  | _ => rfl

theorem initialized_eq (h : Effects S w w') (hS : Kind.lifecycle ∉ S) :
    w'.lib.initialized = w.lib.initialized := congrArg Prod.fst (h.instance_eq hS)

theorem fanotifyMode_eq (h : Effects S w w') (hS : Kind.lifecycle ∉ S) :
    w'.lib.fanotifyMode = w.lib.fanotifyMode := congrArg (·.2.1) (h.instance_eq hS)

/-- The installed filter. -/
theorem filter_eq (h : Effects S w w') (hS : Kind.config ∉ S) :
    (w'.lib.regex, w'.lib.invertRegexp, w'.lib.recursiveWatch)
      = (w.lib.regex, w.lib.invertRegexp, w.lib.recursiveWatch) := by
  refine h.same (fun w => (w.lib.regex, w.lib.invertRegexp, w.lib.recursiveWatch))
    fun k w₁ w₂ hk he => ?_
  cases he with
  | config => exact absurd (hk.resolve_left nofun) hS
  | _ => rfl

/-- How much is told, and what fanotify marks. -/
theorem settings_eq (h : Effects S w w') (hS : Kind.config ∉ S) :
    (w'.lib.verbosity, w'.lib.fanotifyMarkType) = (w.lib.verbosity, w.lib.fanotifyMarkType) := by
  refine h.same (fun w => (w.lib.verbosity, w.lib.fanotifyMarkType)) fun k w₁ w₂ hk he => ?_
  cases he with
  | config => exact absurd (hk.resolve_left nofun) hS
  | _ => rfl

theorem verbosity_eq (h : Effects S w w') (hS : Kind.config ∉ S) :
    w'.lib.verbosity = w.lib.verbosity := congrArg Prod.fst (h.settings_eq hS)

theorem fanotifyMarkType_eq (h : Effects S w w') (hS : Kind.config ∉ S) :
    w'.lib.fanotifyMarkType = w.lib.fanotifyMarkType := congrArg Prod.snd (h.settings_eq hS)

/-- Reading changes nothing in the store. -/
theorem store_eq (h : Effects {.stream} w w') : w'.lib.store = w.lib.store := by
  refine h.same (fun w => w.lib.store) fun k w₁ w₂ hk he => ?_
  cases he with
  | scratch | call | stream => rfl
  | _ => exact hk.elim nofun nofun

end Effects

/-! ## Index entries -/

namespace Store

variable {s : Store} {id : Nat}

/-- An entry stays when another is made. -/
theorem insertIfNew_keeps {κ : Type} {cmp : κ → κ → Ordering} [Std.TransCmp cmp]
    [Std.LawfulEqCmp cmp] [DecidableEq κ] {idx : Std.TreeMap κ Nat cmp} {k : κ} (n : Nat) {a : κ}
    (h : idx[a]? = some id) : (idx.insertIfNew k n)[a]? = some id := by
  rw [lookup_insertIfNew, h]
  split <;> rfl

theorem byFid_insert_keeps (v : Watch) {k : FidKey} (h : s.byFid[k]? = some id) :
    (s.insert v).byFid[k]? = some id := by
  show (insertFid s.byFid v.fid s.nextId)[k]? = some id
  unfold insertFid
  split
  · exact insertIfNew_keeps _ h
  · exact h

end Store

/-- What is indexed by fid and by descriptor stays so until it is removed. -/
theorem Effects.keeps (h : Effects S w w') (hr : Kind.remove ∉ S) (hl : Kind.lifecycle ∉ S) :
    (∀ (k : FidKey) (id : Nat), w.lib.store.byFid[k]? = some id →
      w'.lib.store.byFid[k]? = some id) ∧
    ∀ (wd : Int32) (id : Nat), w.lib.store.byWd[wd]? = some id →
      w'.lib.store.byWd[wd]? = some id := by
  refine h.preserves (P := fun w' => (∀ (k : FidKey) (id : Nat), w.lib.store.byFid[k]? = some id →
    w'.lib.store.byFid[k]? = some id) ∧ ∀ (wd : Int32) (id : Nat), w.lib.store.byWd[wd]? = some id →
    w'.lib.store.byWd[wd]? = some id) (fun k w₁ w₂ hk he ih => ?_) ⟨fun _ _ h => h, fun _ _ h => h⟩
  obtain ⟨hfid, hwd⟩ := ih
  cases he with
  | created | marked | watched =>
      exact ⟨fun k id hid => Store.byFid_insert_keeps _ (hfid k id hid),
        fun wd id hid => Store.insertIfNew_keeps _ (hwd wd id hid)⟩
  | removed => exact absurd (hk.resolve_left nofun) hr
  | notOpened | opened | closed => exact absurd (hk.resolve_left nofun) hl
  | _ => exact ⟨hfid, hwd⟩

/-- A watch that is there stays until it is removed. -/
theorem Effects.watches_stay (h : Effects S w w') (hr : Kind.remove ∉ S) (hl : Kind.lifecycle ∉ S)
    {id : Nat} (hid : id < w.lib.store.nextId) (hv : w.lib.store.watches[id]?.isSome) :
    w'.lib.store.watches[id]?.isSome := by
  refine (h.preserves (P := fun w => id < w.lib.store.nextId ∧ w.lib.store.watches[id]?.isSome)
    (fun k w₁ w₂ hk he ih => ?_) ⟨hid, hv⟩).2
  obtain ⟨hid, hv⟩ := ih
  have hset : ∀ (i : Nat) (v : Watch), (w₁.lib.store.watches.insert i v)[id]?.isSome := by
    intro i v
    rw [lookup_insert]
    split
    · rfl
    · exact hv
  have hinsert : ∀ v : Watch, id < (w₁.lib.store.insert v).nextId ∧
      (w₁.lib.store.insert v).watches[id]?.isSome := by
    intro v
    refine ⟨hid.trans (Nat.lt_succ_self _), ?_⟩
    unfold Store.insert
    dsimp only
    split
    · exact hset _ _
    · exact hv
  cases he with
  | created | marked | watched => exact hinsert _
  | renamed | counted => exact ⟨hid, hset _ _⟩
  | removed => exact absurd (hk.resolve_left nofun) hr
  | notOpened | opened | closed => exact absurd (hk.resolve_left nofun) hl
  | _ => exact ⟨hid, hv⟩

end InotifyTools
