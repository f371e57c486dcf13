import InotifyTools.Proofs.Cookies

set_option autoImplicit false

/-! # What the tracker does

Settling a pending move removes a watch; following an event enters and renames watches. A directory
that moved away is unwatched when the next event arrives, and it alone: the watches below it stay. -/

namespace InotifyTools

variable {σ : Type} [Sys σ] {w w' : World σ} {S : Set Kind}

/-! ## Effects -/

/-- `out` prints, and does nothing else. -/
def Prints (out : List Piece → M σ Unit) : Prop := ∀ ps, Sound ∅ (out ps)

namespace MoveTracker

variable {out : List Piece → M σ Unit}

theorem settle_sound (hS : Kind.remove ∈ S) (hout : Prints out) (t : MoveTracker) (event : Event) :
    Sound S (t.settle event out) := by
  unfold settle
  cases t.movedFrom with
  | none => exact .pure t
  | some mf =>
      refine .ite (.bind (removeWatchByFilename_sound hS mf) fun ok => .bind (.ite ?_ (.pure _)) fun _ =>
        .pure _) (.pure t)
      exact .bind .getLib fun _ => .bind (strerror_sound _) fun _ =>
        (hout _).mono (Set.empty_subset S)

theorem watchNew_sound (hS : Kind.watch ∈ S) (hl : Kind.lifecycle ∉ S) (hout : Prints out)
    (fuel : Nat) (event : Event) (events : Int32) (announce : Bool) :
    Sound S (watchNew fuel event events announce out) := by
  have hprint : ∀ ps, Sound S (out ps) := fun ps => (hout ps).mono (Set.empty_subset S)
  refine .bind (dirpathFromEvent_sound event) fun
    | none => .pure ()
    | some newFile => .ite (.pure ()) (.bind (isdir_sound newFile) fun _ => .ite (.pure ()) ?_)
  refine .bind (.ite (hprint _) (.pure ())) fun _ => ?_
  refine .bind (watchRecursivelyWithExclude_sound hS hl fuel newFile events []) fun ok => ?_
  exact .ite (.bind .getLib fun _ => .bind (strerror_sound _) fun _ => hprint _) (.pure ())

theorem follow_sound (hw : Kind.watch ∈ S) (hr : Kind.rename ∈ S) (hl : Kind.lifecycle ∉ S)
    (hout : Prints out) (t : MoveTracker) (fuel : Nat) (event : Event) (events : Int32)
    (announce : Bool) : Sound S (t.follow fuel event events announce out) := by
  unfold follow
  refine .ite (.bind (watchNew_sound hw hl hout fuel event events announce) fun _ => .pure t)
    (.ite ?_ (.ite ?_ (.pure t)))
  · exact .bind (dirpathFromEvent_sound event) fun path => .bind (wdFromFilename_sound _) fun _ =>
      .ite (.pure _) (.pure _)
  · cases t.movedFrom with
    | none => exact .pure t
    | some mf =>
        exact .bind (dirpathFromEvent_sound event) fun path =>
          .bind (replaceFilename_sound hr mf _) fun _ => .pure _

theorem handle_sound (hw : Kind.watch ∈ S) (hr : Kind.rename ∈ S) (hrm : Kind.remove ∈ S)
    (hl : Kind.lifecycle ∉ S) (hout : Prints out) (t : MoveTracker) (fuel : Nat) (event : Event)
    (recursive : Bool) (events : Int32) (announce : Bool) :
    Sound S (t.handle fuel event recursive events announce out) :=
  .bind (settle_sound hrm hout t event) fun t => .ite (.pure t)
    (follow_sound hw hr hl hout t fuel event events announce)

end MoveTracker

/-! ## Directories that leave the tree -/

/-- No effect on an initialised inotify handle makes it anything else. -/
theorem Inotify.effects (hz : ¬ AnsweredZero σ) (h : Inotify w) (he : Effects S w w')
    (hl : Kind.lifecycle ∉ S) : Inotify w' := by
  have hi := (he.initialized_eq hl).trans h.initialized
  have hm := (he.fanotifyMode_eq hl).trans h.mode
  have hplain := he.preserves (P := fun w => w.lib.store.WellIndexed ∧ InotifyPlain w)
    (fun k w₁ w₂ _ he h => ⟨(he.integrity h.1).1, he.inotifyPlain hz h.1 h.2⟩)
    ⟨h.wellIndexed, fun _ _ => h.plain⟩
  exact ⟨hi, hm, hplain.1, hplain.2 hi hm⟩

namespace MoveTracker

/-- The event after a directory moved away, if nothing moves in: the watch of the directory goes. -/
theorem settle_removes (h : Inotify w) {d : Bytes} {id : Nat} {v : Watch}
    (hid : w.lib.store.byFilename[d]? = some id) (hv : w.lib.store.watches[id]? = some v)
    {ev : Event} (hev : ev.mask.toInt32 &&& inMovedTo = 0)
    (hrm : 0 ≤ (Sys.inotifyRmWatch w.lib.fd v.wd w.os).1) (out : List Piece → M σ Unit) :
    ∃ w', settle { movedFrom := some d } ev out w = .ok ({}, w') ∧
      Leaves w (w.lib.store.remove id v) w' := by
  have hfid : v.fid = none := h.plain id v (.inr ⟨d, hid⟩) hv
  obtain ⟨w', hrun, hleaves⟩ := removeWatch_run h.initialized hv hfid
  rw [if_pos hrm] at hleaves
  rw [decide_eq_true hrm] at hrun
  refine ⟨w', ?_, hleaves⟩
  have hremove : removeWatchByFilename d w = .ok (true, w') := by
    unfold removeWatchByFilename
    rw [Prog.bind_run_ok (rfl : watchFromFilename d w = .ok (w.lib.store.byFilename[d]?, w)), hid]
    exact hrun
  unfold settle
  dsimp only
  rw [if_pos hev, Prog.bind_run_ok hremove]
  rfl

/-- A move that is pending when anything but a move in arrives is settled. -/
theorem settle_pending {t t' : MoveTracker} {ev : Event} (hev : ev.mask.toInt32 &&& inMovedTo = 0)
    {out : List Piece → M σ Unit} (hrun : t.settle ev out w = .ok (t', w')) : t' = {} := by
  cases t with
  | mk movedFrom =>
      unfold settle at hrun
      cases movedFrom with
      | none =>
          cases hrun
          rfl
      | some mf =>
          dsimp only at hrun
          rw [if_pos hev] at hrun
          obtain ⟨ok, w₁, -, hrun⟩ := Prog.bind_ok hrun
          obtain ⟨-, w₂, -, hrun⟩ := Prog.bind_ok hrun
          cases hrun
          rfl

/-- A directory that is found under its old name when it moves away is pending afterwards. -/
theorem handle_movedFrom_pending (hz : ¬ AnsweredZero σ) (h : Inotify w) {t t' : MoveTracker}
    {ev : Event} (hev : MovedFromDir ev) {fuel : Nat} {events : Int32} {announce : Bool}
    {out : List Piece → M σ Unit} (hout : Prints out)
    (hrun : t.handle fuel ev true events announce out w = .ok (t', w')) {n : Bytes} {wd : Int32}
    (hwd : ev.wd ≠ 0) (hname : w'.lib.store.nameOf ev.wd = some n) (hn : n ≠ [])
    (hold : w'.lib.store.wdOf (n ++ ev.name ++ [slash]) = some wd) (hneg : wd ≠ -1) :
    t' = { movedFrom := some (n ++ ev.name ++ [slash]) } ∧ Inotify w' := by
  obtain ⟨t₁, w₁, hsettle, hfollow⟩ := Prog.bind_ok hrun
  cases settle_pending hev.noMovedTo hsettle
  have he := ((settle_sound (Set.mem_singleton _) hout t ev w h.wellIndexed).ok hsettle).1
  have hw₁ : Inotify w₁ := h.effects hz he nofun
  -- following a directory that moves away changes nothing
  obtain ⟨path, hpath⟩ := dirpathFromEvent_returns hw₁ ev
  have hsame : w' = w₁ := by
    change follow {} fuel ev events announce out w₁ = _ at hfollow
    unfold follow at hfollow
    dsimp only at hfollow
    rw [if_neg (by simp [hev.noCreate, hev.noMovedTo]), if_pos hev.movedFrom,
      Prog.bind_run_ok hpath, Prog.bind_run_ok (wdFromFilename_run hw₁.storedNames _)] at hfollow
    generalize (if path.getD [] = [] then -1 else _ : Int32) = found at hfollow
    by_cases hfound : found = -1
    · rw [if_pos hfound] at hfollow
      cases hfollow
      rfl
    · rw [if_neg hfound] at hfollow
      cases hfollow
      rfl
  subst hsame
  have hrun' := handle_movedFrom hw₁ hev hwd hname hn hold hneg fuel events announce out
  cases hfollow.symm.trans hrun'
  exact ⟨rfl, hw₁⟩

end MoveTracker

/-- The watches that `w` has at or below `d` are gone in `w'`. -/
def Unwatched (w w' : World σ) (d : Bytes) : Prop :=
  ∀ (n : Bytes) (id : Nat), w.lib.store.byFilename[n]? = some id → d <+: n →
    w'.lib.store.watches[id]? = none

/-- **A directory that leaves the tree is unwatched alone.** When the event after its MOVED_FROM is no
    MOVED_TO, and the kernel removes what it is asked to: all watches at or below the directory are
    gone afterwards exactly if there was none below it. -/
theorem directory_unwatched_iff {env : σ → σ → Prop} (hz : ¬ AnsweredZero σ) {w₀ : World σ}
    (h : Reachable env w₀) (hi : w₀.lib.initialized = true) (hm : w₀.lib.fanotifyMode = false)
    {t₀ t t' : MoveTracker} {evFrom ev : Event} (hfrom : MovedFromDir evFrom) {fuel : Nat}
    {events : Int32} {announce : Bool} {out : List Piece → M σ Unit} (hout : Prints out)
    (haway : t₀.handle fuel evFrom true events announce out w₀ = .ok (t, w)) {n : Bytes} {wd : Int32}
    (hparent : w.lib.store.nameOf evFrom.wd = some n) (hn : n ≠ [])
    (hd : w.lib.store.wdOf (n ++ evFrom.name ++ [slash]) = some wd) {w₁ : World σ}
    (hlib : w₁.lib = w.lib) (hev : ev.mask.toInt32 &&& inMovedTo = 0)
    (hrm : 0 ≤ (Sys.inotifyRmWatch w.lib.fd wd w₁.os).1)
    (hnext : t.handle fuel ev true events announce out w₁ = .ok (t', w')) :
    Unwatched w w' (n ++ evFrom.name ++ [slash]) ↔
      ∀ m, w.lib.store.wdOf m ≠ none → n ++ evFrom.name ++ [slash] <+: m →
        m = n ++ evFrom.name ++ [slash] := by
  have hw₀ := h.inotify hz hi hm
  have hmoves : Kind.lifecycle ∉ ({.watch, .rename, .remove} : Set Kind) := by
    rintro (h | h | h) <;> cases h
  have haway' := ((t₀.handle_sound (.inl rfl) (.inr (.inl rfl)) (.inr (.inr rfl)) hmoves hout fuel
    evFrom true events announce w₀ hw₀.wellIndexed).ok haway).1
  have hpos : w.lib.store.Positive :=
    haway'.preserves (P := fun w => w.lib.store.Positive) (fun _ _ _ _ he h => he.positive h) h.positive
  have hs := haway'.wellIndexed hw₀.wellIndexed
  have hwd : 0 < evFrom.wd := hpos.nameOf hs hparent
  have hfound : 0 < wd := by
    obtain ⟨id, -, hfound⟩ := Option.bind_eq_some_iff.1 hd
    obtain ⟨v, hv, rfl⟩ := Option.map_eq_some_iff.1 hfound
    exact hpos id v hv
  obtain ⟨rfl, hw⟩ := MoveTracker.handle_movedFrom_pending hz hw₀ hfrom hout haway (by grind) hparent hn
    hd (by grind)
  generalize n ++ evFrom.name ++ [slash] = d at *
  cases hid : w.lib.store.byFilename[d]? with
  | none => rw [Store.wdOf_none hid] at hd; cases hd
  | some id =>
      obtain ⟨v, hv, hname, hwd'⟩ := hs.found_filename hid
      cases hwd'.symm.trans hd
      -- the watch of the directory goes first, then the event is followed
      have hw₁ : Inotify w₁ := by
        cases w₁
        cases hlib
        exact ⟨hw.initialized, hw.mode, hs, hw.plain⟩
      rw [← hlib] at hid hv hrm
      obtain ⟨w₂, hsettle, hleaves⟩ := MoveTracker.settle_removes hw₁ hid hv hev hrm out
      rw [hlib] at hid hv
      have hfollow : MoveTracker.follow {} fuel ev events announce out w₂ = .ok (t', w') := by
        unfold MoveTracker.handle at hnext
        rw [Prog.bind_run_ok hsettle] at hnext
        exact hnext
      have hstore : w₂.lib.store = w.lib.store.remove id v := by rw [hleaves.store, hlib]
      have hs₂ : w₂.lib.store.WellIndexed := hstore ▸ hs.remove hv
      have hl : Kind.lifecycle ∉ ({.watch, .rename} : Set Kind) := by rintro (h | h) <;> cases h
      have hr : Kind.remove ∉ ({.watch, .rename} : Set Kind) := by rintro (h | h) <;> cases h
      have he := ((MoveTracker.follow_sound (.inl rfl) (.inr rfl) hl hout {} fuel ev events announce
        w₂ hs₂).ok hfollow).1
      have hnextId : w₂.lib.store.nextId = w.lib.store.nextId := by rw [hstore]; rfl
      have hwatches : ∀ i : Nat, w₂.lib.store.watches[i]? =
          if id = i then none else w.lib.store.watches[i]? := by
        intro i
        rw [hstore]
        exact KeyedMap.lookup_erase _ _ _
      refine ⟨fun hgone m hm hpre => ?_, fun hall m i hi hpre => ?_⟩
      · by_contra hne
        cases hi : w.lib.store.byFilename[m]? with
        | none => exact hm (Store.wdOf_none hi)
        | some i =>
            obtain ⟨u, hu, hname', -⟩ := hs.found_filename hi
            have hii : id ≠ i := by
              rintro rfl
              cases hu.symm.trans hv
              exact hne (hname'.symm.trans hname)
            have hstays := he.watches_stay hr hl (hnextId ▸ hs.idLt i u hu)
              (by rw [hwatches, if_neg hii, hu]; rfl)
            rw [hgone m i hi hpre] at hstays
            cases hstays
      · have hm : m = d := by
          refine hall m ?_ hpre
          obtain ⟨u, -, -, hu⟩ := hs.found_filename hi
          rw [hu]
          exact nofun
        subst hm
        cases hid.symm.trans hi
        cases hgone : w'.lib.store.watches[id]? with
        | none => rfl
        | some u =>
            obtain ⟨u₁, hu₁, -⟩ := (he.integrity hs₂).2.same id u (hnextId ▸ hs.idLt id v hv) hgone
            rw [hwatches, if_pos rfl] at hu₁
            cases hu₁

/-- A directory has moved away, and a file is modified. -/
theorem modify_settles (h : Inotify w) {d : Bytes} {id : Nat} {v : Watch}
    (hid : w.lib.store.byFilename[d]? = some id) (hv : w.lib.store.watches[id]? = some v)
    (hrm : 0 ≤ (Sys.inotifyRmWatch w.lib.fd v.wd w.os).1) :
    ∃ w', MoveTracker.handle { movedFrom := some d } 9 { wd := 5, mask := 2 } true 2 false
        (fun _ => pure ()) w = .ok ({}, w') ∧ w'.lib.store = w.lib.store.remove id v := by
  have hev : ({ wd := 5, mask := 2 } : Event).mask.toInt32 &&& inMovedTo = 0 := by decide
  obtain ⟨w', hrun, hleaves⟩ := MoveTracker.settle_removes h hid hv hev hrm fun _ => pure ()
  refine ⟨w', ?_, hleaves.store⟩
  unfold MoveTracker.handle
  rw [Prog.bind_run_ok hrun]
  rfl

/-- "d/a/" moves away and is unwatched, and the file "d/a/f" stays watched under that name. -/
theorem subtree_stays_watched :
    let away : Event := { wd := 1, mask := 0x40000040, name := ascii "a" }
    MoveTracker.handle {} 9 away true 2 false (fun _ => pure ()) deskTree
        = .ok ({ movedFrom := some (ascii "d/a/") }, deskTree) ∧
      ∃ w', MoveTracker.handle { movedFrom := some (ascii "d/a/") } 9 { wd := 5, mask := 2 } true 2
          false (fun _ => pure ()) deskTree = .ok ({}, w') ∧
        w'.lib.store.nameOf 3 = some (ascii "d/a/f") ∧ ¬ Unwatched deskTree w' (ascii "d/a/") := by
  have hw := deskTree_inotify
  have hid : deskTree.lib.store.byFilename[ascii "d/a/"]? = some 2 := by decide +kernel
  have hfile : deskTree.lib.store.byFilename[ascii "d/a/f"]? = some 3 := by decide +kernel
  have hmap : deskTree.lib.store.watches[2]?.map Watch.wd = some 2 := by decide +kernel
  have hd : deskTree.lib.store.nameOf 1 = some (ascii "d/") := by decide +kernel
  have hf : deskTree.lib.store.nameOf 3 = some (ascii "d/a/f") := by decide +kernel
  have hrm : 0 ≤ (Sys.inotifyRmWatch deskTree.lib.fd 2 deskTree.os).1 := by decide +kernel
  have hold : deskTree.lib.store.wdOf (ascii "d/" ++ ascii "a" ++ [slash]) = some 2 := by
    decide +kernel
  have haway : MovedFromDir { wd := 1, mask := 0x40000040, name := ascii "a" } :=
    ⟨by decide, by decide, by decide, by decide⟩
  generalize hdesk : deskTree = desk at *
  obtain ⟨v, hv, -, -⟩ := hw.wellIndexed.found_filename hid
  obtain ⟨u, hu, -, -⟩ := hw.wellIndexed.found_filename hfile
  rw [hv] at hmap
  have hwd : v.wd = 2 := Option.some_inj.1 hmap
  obtain ⟨w', hrun, hstore⟩ := modify_settles hw hid hv (hwd ▸ hrm)
  refine ⟨?_, w', hrun, ?_, fun hgone => ?_⟩
  · exact MoveTracker.handle_movedFrom hw haway (by decide) hd (by decide) hold (by decide) 9 2 false _
  · rw [hstore, Store.nameOf_remove hw.wellIndexed hv, hwd, if_neg (by decide), hf]
  · have hnone := hgone _ _ hfile (by decide)
    have hstays : (desk.lib.store.remove 2 v).watches[3]? = desk.lib.store.watches[3]? :=
      (KeyedMap.lookup_erase _ _ _).trans (if_neg (by decide))
    rw [hstore, hstays, hu] at hnone
    cases hnone

/-- "d/ab/" moves away, and nothing is below it. -/
theorem directory_unwatched_desk :
    ∃ w', Unwatched deskTree w' (ascii "d/" ++ ascii "ab" ++ [slash]) := by
  have hw := deskTree_inotify
  have hreach := deskTree_reachable
  have hid : deskTree.lib.store.byFilename[ascii "d/ab/"]? = some 4 := by decide +kernel
  have hmap : deskTree.lib.store.watches[4]?.map Watch.wd = some 4 := by decide +kernel
  have hparent : deskTree.lib.store.nameOf 1 = some (ascii "d/") := by decide +kernel
  have hfound : deskTree.lib.store.wdOf (ascii "d/" ++ ascii "ab" ++ [slash]) = some 4 := by
    decide +kernel
  have hrm : 0 ≤ (Sys.inotifyRmWatch deskTree.lib.fd 4 deskTree.os).1 := by decide +kernel
  have hnames : ∀ m ∈ deskTree.lib.store.byFilename.keys, ascii "d/" ++ ascii "ab" ++ [slash] <+: m →
      m = ascii "d/" ++ ascii "ab" ++ [slash] := by decide +kernel
  have haway : MovedFromDir { wd := 1, mask := 0x40000040, name := ascii "ab" } :=
    ⟨by decide, by decide, by decide, by decide⟩
  generalize hdesk : deskTree = desk at *
  obtain ⟨v, hv, -, -⟩ := hw.wellIndexed.found_filename hid
  rw [hv] at hmap
  have hwd : v.wd = 4 := Option.some_inj.1 hmap
  obtain ⟨w', hrun, -⟩ := modify_settles hw hid hv (hwd ▸ hrm)
  have hpending := MoveTracker.handle_movedFrom hw haway (by decide) hparent (by decide) hfound
    (by decide) 9 2 false fun _ => pure ()
  exact ⟨w', (directory_unwatched_iff Desk.kernelWatches.not_answeredZero hreach hw.initialized
    hw.mode haway (fun _ => .pure ()) hpending hparent (by decide) hfound rfl (by decide) hrm hrun).2
    fun m hm => hnames m (Store.mem_keys_of_wdOf hm)⟩

end InotifyTools
