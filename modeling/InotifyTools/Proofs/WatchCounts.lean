import InotifyTools.Proofs.Descriptors
import InotifyTools.Proofs.Errno
import InotifyTools.Proofs.Kernel

set_option autoImplicit false

/-! # How many watches are counted

The count is the size of the name index. Watching a file enters its name; with fanotify, watching a
directory also enters the descriptor of its mount, under the name without the '/'. -/

namespace InotifyTools

variable {σ α : Type}

/-! ## What the calls of a run say -/

/-- A path that was looked at, and whether it was found to be a directory. -/
def SysCall.looked : SysCall → Option (CString × Bool)
  | .lstat p answer => some (p, isDirMode answer)
  | _ => none

/-- The number inotify gave a path. -/
def SysCall.numbered : SysCall → Option Int32
  | .addWatch _ answer => some answer
  | _ => none

/-- The paths that were looked at, in order. -/
def looked (log : List Entry) : List (CString × Bool) := log.filterMap fun e => e.call.looked

/-- The numbers inotify gave, in order. -/
def numbered (log : List Entry) : List Int32 := log.filterMap fun e => e.call.numbered

theorem looked_append (a b : List Entry) : looked (a ++ b) = looked a ++ looked b :=
  List.filterMap_append

theorem numbered_append (a b : List Entry) : numbered (a ++ b) = numbered a ++ numbered b :=
  List.filterMap_append

/-- The name a path is stored under. -/
def seenName (s : CString × Bool) : Bytes := (storedName s.1.bytes s.2).1

/-- The name the mount of a directory is stored under. -/
def mountName (s : CString × Bool) : Option Bytes := (storedName s.1.bytes s.2).2.map List.dropLast

/-- The names that watching a path enters. -/
def enteredNames (fanotify : Bool) (s : CString × Bool) : List Bytes :=
  (if fanotify then (mountName s).toList else []) ++ [seenName s]

/-! ## Fids with a length -/

namespace Fid

theorem hdrLen_setHdrLen {f : Bytes} (h : 4 ≤ f.length) (n : UInt16) :
    hdrLen (setHdrLen f n) = n := by
  have hlow : get (setHdrLen f n) 2 = UInt8.ofNat n.toNat := by
    simp [get, setHdrLen, List.getD_eq_getElem?_getD, show 2 < f.length by omega]
  have hhigh : get (setHdrLen f n) 3 = UInt8.ofNat (n.toNat / 256) := by
    simp [get, setHdrLen, List.getD_eq_getElem?_getD, show 3 < f.length by omega]
  unfold hdrLen
  rw [hlow, hhigh]
  exact (congrArg UInt16.ofNat (leNat_leBytes_of_lt (k := 2) n.toNat_lt)).trans (UInt16.ofNat_toNat)

theorem hdrLen_fsidKey (f : Bytes) : hdrLen (fsidKey f) = 20 := by
  unfold fsidKey
  rw [hdrLen_setHdrLen (by simp [setInfoType, fidHdr])]
  rfl

end Fid

theorem hdrLen_encodedFid {f : Bytes} (hf : 4 ≤ f.length) (handle : Mem) {hb : Nat}
    (hhb : hb ≤ maxFidLen) (isDir : Bool) : Fid.hdrLen (encodedFid f handle hb isDir) ≠ 0 := by
  have hshort : hb ≤ 20 := hhb
  unfold encodedFid
  rw [Fid.hdrLen_setHdrLen (by simp [Fid.setInfoType, handleOff]; omega)]
  intro hzero
  have hnat : (UInt16.ofNat (fidHdr + hb)).toNat = fidHdr + hb :=
    UInt16.toNat_ofNat_of_lt (by simp [fidHdr, UInt16.size]; omega)
  rw [hzero] at hnat
  simp only [fidHdr, UInt16.toNat_zero] at hnat
  omega

/-! ## Names with descriptors -/

/-- Every name was entered with a descriptor of its own, and every fid has a length. -/
structure Store.Numbered (s : Store) : Prop where
  room : s.byFilename.size ≤ s.byWd.size
  positive : ∀ wd ∈ s.byWd, 0 < wd
  sized : ∀ k ∈ s.byFid, k.len ≠ 0

namespace Store.Numbered

variable {s : Store}

theorem clearIndexes (s : Store) : s.clearIndexes.Numbered where
  room := Nat.le_refl 0
  positive _ h := absurd h Std.TreeMap.not_mem_emptyc
  sized _ h := absurd h Std.TreeMap.not_mem_emptyc

/-- Entering a watch with a fid under a descriptor that is not in use. -/
theorem insert (h : s.Numbered) {v : Watch} (hpos : 0 < v.wd) (hfresh : v.wd ∉ s.byWd)
    (hfid : ∀ f ∈ v.fid, Fid.hdrLen f ≠ 0) : (s.insert v).Numbered where
  room := by
    have hroom := h.room
    simp only [Store.insert, Std.TreeMap.size_insertIfNew, if_neg hfresh]
    split <;> omega
  positive wd hwd := by
    rcases Std.TreeMap.mem_insertIfNew.1 hwd with heq | hold
    · exact Std.LawfulEqCmp.eq_of_compare heq ▸ hpos
    · exact h.positive wd hold
  sized k hk := by
    cases hf : v.fid with
    | none =>
        simp only [Store.insert, insertFid, hf] at hk
        exact h.sized k hk
    | some f =>
        simp only [Store.insert, insertFid, hf] at hk
        rcases Std.TreeMap.mem_insertIfNew.1 hk with heq | hold
        · exact Std.LawfulEqCmp.eq_of_compare heq ▸ hfid f hf
        · exact h.sized k hold

/-- The fid of a filesystem to which no length is given yet is not found. -/
theorem byFid_eq_none (h : s.Numbered) {f : Bytes} (hf : Fid.hdrLen f = 0) :
    s.byFid[FidKey.new f]? = none :=
  Std.TreeMap.getElem?_eq_none fun hmem => h.sized _ hmem hf

/-- Descriptors being positive, there are fewer than 2^31 names. -/
theorem size_lt (h : s.Numbered) : s.byFilename.size < 2 ^ 31 :=
  Nat.lt_of_le_of_lt h.room (KeyedMap.size_lt_of_positive h.positive)

end Store.Numbered

/-! ## What is entered -/

/-- From `w` to `w'` names were entered, paths looked at, and numbers given. -/
structure Gains (names : List Bytes) (seen : List (CString × Bool)) (wds : List Int32)
    (w w' : World (Logged σ)) : Prop where
  mode : w'.lib.fanotifyMode = w.lib.fanotifyMode
  calls : Grows (fun new => looked new = seen ∧ numbered new = wds) w w'
  names : ∀ n, n ∈ w'.lib.store.byFilename ↔ n ∈ w.lib.store.byFilename ∨ n ∈ names
  counted : w.lib.fanotifyMode = true → w.lib.store.Numbered → w'.lib.store.Numbered

/-- Nothing was entered. -/
abbrev Gains.Nothing (w w' : World (Logged σ)) : Prop := Gains [] [] [] w w'

namespace Gains

variable {w w' w'' : World (Logged σ)} {names names' : List Bytes}
  {seen seen' : List (CString × Bool)} {wds wds' : List Int32}

theorem trans (h : Gains names seen wds w w') (h' : Gains names' seen' wds' w' w'') :
    Gains (names ++ names') (seen ++ seen') (wds ++ wds') w w'' where
  mode := h'.mode.trans h.mode
  calls := by
    obtain ⟨old, hold, hlooked, hnumbered⟩ := h.calls
    obtain ⟨new, hnew, hlooked', hnumbered'⟩ := h'.calls
    refine ⟨old ++ new, by rw [hnew, hold, List.append_assoc], ?_, ?_⟩
    · rw [looked_append, hlooked, hlooked']
    · rw [numbered_append, hnumbered, hnumbered']
  names n := by rw [h'.names, h.names, List.mem_append, or_assoc]
  counted hm hw := h'.counted (h.mode.trans hm) (h.counted hm hw)

/-- Calls that neither look at a path nor number one, the store staying as it is. -/
theorem nothing (hmode : w'.lib.fanotifyMode = w.lib.fanotifyMode)
    (hstore : w'.lib.store = w.lib.store) {new : List Entry} (hlog : w'.os.log = w.os.log ++ new)
    (hlooked : looked new = []) (hnumbered : numbered new = []) : Nothing w w' where
  mode := hmode
  calls := ⟨new, hlog, hlooked, hnumbered⟩
  names n := by simp [hstore]
  counted _ hw := hstore ▸ hw

theorem refl (w : World (Logged σ)) : Nothing w w :=
  .nothing rfl rfl (List.append_nil _).symm rfl rfl

instance : Std.Refl (Nothing (σ := σ)) := ⟨refl⟩

instance : IsTrans (World (Logged σ)) Nothing := ⟨fun _ _ _ h h' => h.trans h'⟩

variable [Sys σ]

/-- A call that neither looks at a path nor numbers one. -/
theorem call {g : σ → α × σ} {entry : α → SysCall} (hlooked : ∀ a, (entry a).looked = none)
    (hnumbered : ∀ a, (entry a).numbered = none) {a : α}
    (hrun : call (Logged.enter g entry) w = .ok (a, w')) : Nothing w w' := by
  obtain ⟨hlog, hlib⟩ := call_logged hrun
  refine .nothing (by rw [hlib]) (by rw [hlib]) hlog ?_ ?_
  · simp [looked, hlooked]
  · simp [numbered, hnumbered]

theorem ceprint (ps : List Piece) : Prog.Keeps Nothing (ceprint ps : M (Logged σ) Unit) :=
  .update fun _ => .nothing rfl rfl (List.append_nil _).symm rfl rfl

omit [Sys σ] in
theorem setError (e : Int32) : Prog.Keeps Nothing (setError e : M (Logged σ) Unit) :=
  .update fun _ => .nothing rfl rfl (List.append_nil _).symm rfl rfl

theorem assertInit : Prog.Keeps Nothing (assertInit : M (Logged σ) Unit) :=
  .bind (.bind .read fun _ => .pure _) fun _ => .ite (.pure _) (ceprint _)

/-! ## Watching a file -/

/-- `isdir` looks at its path. -/
theorem isdir {p : Bytes} {isDir : Bool} (hrun : isdir p w = .ok (isDir, w')) :
    Gains [] [(cstring p, isDir)] [] w w' := by
  obtain ⟨mode, w₁, hstat, hrest⟩ := Prog.bind_ok hrun
  obtain ⟨hlog, hlib⟩ := call_logged hstat
  have hlook : Gains [] [(cstring p, isDirMode mode)] [] w w₁ :=
    { mode := by rw [hlib]
      calls := ⟨_, hlog, rfl, rfl⟩
      names := fun n => by simp [hlib]
      counted := fun _ hw => hlib ▸ hw }
  cases mode with
  | some mode =>
      cases hrest
      exact hlook
  | none =>
      obtain ⟨_, _, herrno, hrest⟩ := Prog.bind_ok hrest
      cases herrno
      obtain ⟨_, _, hreason, hrest⟩ := Prog.bind_ok hrest
      cases hreason
      obtain ⟨_, w₂, hprint, hrest⟩ := Prog.bind_ok hrest
      cases hrest
      exact hlook.trans (Prog.Keeps.ite (ceprint _) (.pure _) _ _ _ hprint)

omit [Sys σ] in
/-- Entering a watch enters its name. -/
theorem insert {v : Watch} {s : Store} {w : World (Logged σ)}
    (hs : s.byFilename = w.lib.store.byFilename)
    (hcounted : w.lib.fanotifyMode = true → w.lib.store.Numbered → (s.insert v).Numbered) :
    Gains [v.filename.bytes] [] [] w (w.withStore (s.insert v)) where
  mode := rfl
  calls := ⟨[], (List.append_nil _).symm, rfl, rfl⟩
  names n := by
    show n ∈ s.byFilename.insertIfNew v.filename.bytes s.nextId ↔ _
    rw [Std.TreeMap.mem_insertIfNew, hs, List.mem_singleton, Std.LawfulEqCmp.compare_eq_iff_eq,
      or_comm, eq_comm]
  counted := hcounted

/-- A watch with a fid gets a fresh descriptor. -/
theorem createWatch_fid {fuel : Nat} {fid filename : Bytes} {dirf : Int32} {wd : Option Int32}
    (hfid : Fid.hdrLen fid ≠ 0)
    (hrun : createWatch fuel 0 (some fid) filename dirf w = .ok (wd, w')) :
    Gains [(cstring filename).bytes] [] [] w w' := by
  have hassign := assignWd_zero fuel w
  unfold createWatch at hrun
  rw [if_neg (by decide)] at hrun
  cases hsearch : Store.searchFanotifyWd w.lib.store.byWd fuel w.lib.store.nextFanotifyWd with
  | none =>
      rw [hsearch] at hassign
      rw [Prog.bind_run_error hassign] at hrun
      cases hrun
  | some wd =>
      rw [hsearch] at hassign
      rw [Prog.bind_run_ok hassign] at hrun
      have hpos := Store.searchFanotifyWd_pos hsearch
      have hfree := Store.searchFanotifyWd_free hsearch
      let s : Store := { w.lib.store with nextFanotifyWd := wd }
      let v : Watch := Watch.mk (some fid) (cstring filename) wd dirf {}
      have haccepts : s.accepts v = true := by
        have hcontains : w.lib.store.byWd.contains wd = false :=
          Bool.eq_false_iff.2 fun h => hfree (Std.TreeMap.mem_iff_contains.2 h)
        simp [s, v, Store.accepts, hcontains]
      rw [Prog.bind_run_ok (enterWatch_accepted (w := w.withStore s) haccepts)] at hrun
      cases hrun
      refine .insert (v := v) (s := s) (w := w) rfl fun _ hnumbered => ?_
      have hs : s.Numbered := ⟨hnumbered.room, hnumbered.positive, hnumbered.sized⟩
      exact hs.insert hpos hfree fun f hf => Option.some.inj hf ▸ hfid

/-- Every directory registers the descriptor of its mount: the fid looked up has no length. -/
theorem registerMount {fuel : Nat} {f : Bytes} {dirname : Option Bytes} (hf : Fid.hdrLen f = 0)
    (hnul : ∀ d ∈ dirname, 0 ∉ d) (hnumbered : w.lib.store.Numbered)
    (hrun : registerMount fuel f dirname w = .ok (true, w')) :
    Gains (dirname.map List.dropLast).toList [] [] w w' := by
  cases dirname with
  | none =>
      cases hrun
      exact .refl w
  | some d =>
      unfold InotifyTools.registerMount at hrun
      dsimp only at hrun
      rw [Prog.bind_run_ok (rfl : watchFromFid f w = .ok (w.lib.store.byFid[FidKey.new f]?, w)),
        hnumbered.byFid_eq_none hf] at hrun
      dsimp only [Option.isSome_none] at hrun
      rw [if_neg (by decide)] at hrun
      obtain ⟨mntid, w₁, hopen, hrest⟩ := Prog.bind_ok hrun
      have hopened : Nothing w w₁ := .call (fun _ => rfl) (fun _ => rfl) hopen
      split at hrest
      · cases (@stops_printing _ _ _ id _ rfl _ _ _ _ _ hrest).1
      · obtain ⟨wd, w₂, hcreate, hrest⟩ := Prog.bind_ok hrest
        cases hrest
        have hname : (cstring d.dropLast).bytes = d.dropLast :=
          bytes_cstring fun h => hnul d rfl (List.mem_of_mem_dropLast h)
        have hmount := createWatch_fid (by rw [Fid.hdrLen_fsidKey]; decide) hcreate
        rw [hname] at hmount
        exact hopened.trans hmount

/-- Encoding the fid of a directory registers its mount. The fid has a length. -/
theorem fanotifyEncodeFid {fuel : Nat} {p : CString} {dirname : Option Bytes} {f : Bytes}
    {dirf : Int32} (hnul : ∀ d ∈ dirname, 0 ∉ d) (hm : w.lib.fanotifyMode = true)
    (hnumbered : w.lib.store.Numbered)
    (hrun : fanotifyEncodeFid fuel p dirname w = .ok (some (f, dirf), w')) :
    Gains (dirname.map List.dropLast).toList [] [] w w' ∧ Fid.hdrLen f ≠ 0 := by
  unfold InotifyTools.fanotifyEncodeFid at hrun
  obtain ⟨fsid, w₁, hstatfs, hrun⟩ := Prog.bind_ok hrun
  have hw₁ : Nothing w w₁ := .call (fun _ => rfl) (fun _ => rfl) hstatfs
  cases fsid with
  | none => cases (@stops_printing _ _ _ Option.isSome _ rfl _ _ _ _ _ hrun).1
  | some fsid =>
      dsimp only at hrun
      obtain ⟨registered, w₂, hregister, hrun⟩ := Prog.bind_ok hrun
      cases registered with
      | false => cases hrun
      | true =>
          have hmount := Gains.registerMount rfl hnul (hw₁.counted hm hnumbered) hregister
          obtain ⟨⟨ret, handle⟩, w₃, hhandle, hrun⟩ := Prog.bind_ok hrun
          have hw₃ : Nothing w₂ w₃ := .call (fun _ => rfl) (fun _ => rfl) hhandle
          dsimp only at hrun
          split at hrun
          · cases (@stops_printing _ _ _ Option.isSome _ rfl _ _ _ _ _ hrun).1
          · next hencoded =>
              have hsize : leNat (handle.slice 0 4) ≤ maxFidLen := by omega
              have hlen := hdrLen_encodedFid (f := (List.range (fidHdr + maxFidLen)).map fun i =>
                if h : 4 ≤ i ∧ i < 12 then fsid ⟨i - 4, by omega⟩ else 0)
                (by simp [fidHdr, maxFidLen]) handle hsize dirname.isSome
              have hgains := (hw₁.trans hmount).trans hw₃
              rw [List.append_nil] at hgains
              cases dirname with
              | none =>
                  cases hrun
                  exact ⟨hgains, hlen⟩
              | some d =>
                  dsimp only at hrun
                  obtain ⟨fd, w₄, hopen, hrun⟩ := Prog.bind_ok hrun
                  have hw₄ : Nothing w₃ w₄ := .call (fun _ => rfl) (fun _ => rfl) hopen
                  split at hrun
                  · cases (@stops_printing _ _ _ Option.isSome _ rfl _ _ _ _ _ hrun).1
                  · cases hrun
                    exact ⟨hgains.trans hw₄, hlen⟩

/-- A stored name is free of NUL, like its path. -/
theorem storedName_noNul (p : CString) (isDir : Bool) : 0 ∉ (storedName p.bytes isDir).1 := by
  have hp := p.noNul
  unfold storedName
  split
  · exact hp
  · split
    · exact hp
    · simpa [slash] using hp

theorem storedName_dir {b : Bytes} {isDir : Bool} {d : Bytes}
    (h : d ∈ (storedName b isDir).2) : d = (storedName b isDir).1 := by
  unfold storedName at h ⊢
  split at h
  · cases h
  · next hdir =>
      rw [if_neg hdir]
      split at h
      · next hslash => rw [if_pos hslash]; exact (Option.some.inj h).symm
      · next hslash => rw [if_neg hslash]; exact (Option.some.inj h).symm

/-- With inotify, a watched path enters its name. -/
theorem storeWatch_inotify {fuel : Nat} {p : CString} {wd : Int32} (hwd : 0 < wd)
    (hm : w.lib.fanotifyMode = false) (hrun : storeWatch fuel p wd w = .ok (true, w')) :
    ∃ s : CString × Bool, s.1 = p ∧ Gains (enteredNames false s) [s] [] w w' := by
  unfold storeWatch at hrun
  obtain ⟨isDir, w₁, hisdir, hrun⟩ := Prog.bind_ok hrun
  have hlook := Gains.isdir hisdir
  rw [cstring_bytes] at hlook
  unfold watchFid at hrun
  dsimp only at hrun
  have hne : wd ≠ 0 := by grind
  rw [if_pos hne, Prog.bind_run_ok (Prog.pure_run _ _)] at hrun
  dsimp only at hrun
  rw [Prog.bind_run_ok (createWatch_run hwd fuel none _ _)] at hrun
  cases hrun
  have henter := Gains.insert (s := w₁.lib.store)
    (v := Watch.mk none (cstring (storedName p.bytes isDir).1) wd 0 {}) rfl
    fun hf => absurd (hlook.mode ▸ hf) (by simp [hm])
  rw [bytes_cstring (storedName_noNul p isDir)] at henter
  exact ⟨(p, isDir), rfl, hlook.trans henter⟩

/-- With fanotify, a watched directory also enters its mount. -/
theorem storeWatch_fanotify {fuel : Nat} {p : CString} (hm : w.lib.fanotifyMode = true)
    (hnumbered : w.lib.store.Numbered) (hrun : storeWatch fuel p 0 w = .ok (true, w')) :
    ∃ s : CString × Bool, s.1 = p ∧ Gains (enteredNames true s) [s] [] w w' := by
  unfold storeWatch at hrun
  obtain ⟨isDir, w₁, hisdir, hrun⟩ := Prog.bind_ok hrun
  have hlook := Gains.isdir hisdir
  rw [cstring_bytes] at hlook
  unfold watchFid at hrun
  dsimp only at hrun
  rw [if_neg (by decide)] at hrun
  obtain ⟨fid, w₂, hfid, hrun⟩ := Prog.bind_ok hrun
  obtain ⟨encoded, w₃, hencode, hfid⟩ := Prog.bind_ok hfid
  cases encoded with
  | none =>
      cases hfid
      cases hrun
  | some encoded =>
      obtain ⟨f, dirf⟩ := encoded
      cases hfid
      have hnul : ∀ d ∈ (storedName p.bytes isDir).2, 0 ∉ d := fun d hd =>
        storedName_dir hd ▸ storedName_noNul p isDir
      obtain ⟨hmount, hlen⟩ := Gains.fanotifyEncodeFid hnul (hlook.mode.trans hm)
        (hlook.counted hm hnumbered) hencode
      dsimp only at hrun
      obtain ⟨wd, w₄, hcreate, hrun⟩ := Prog.bind_ok hrun
      cases hrun
      have henter := createWatch_fid hlen hcreate
      rw [bytes_cstring (storedName_noNul p isDir)] at henter
      exact ⟨(p, isDir), rfl, (hlook.trans hmount).trans henter⟩

end Gains

/-! ## Watching files, call after call -/

/-- A sequence of calls that watch files, all of them successful, and the paths they were given. -/
inductive WatchCalls [Sys σ] : World σ → List Bytes → World σ → Prop
  | none (w : World σ) : WatchCalls w [] w
  | call {w w₁ w₂ : World σ} {paths filenames : List Bytes} {fuel : Nat} {events : Int32}
      (h : WatchCalls w paths w₁) (hcall : watchFiles fuel filenames events w₁ = .ok (true, w₂)) :
      WatchCalls w (paths ++ filenames) w₂

/-- Between `w` and `w'` each path was looked at, numbered with inotify, and its names entered. -/
def Watches (fanotify : Bool) (paths : List Bytes) (w w' : World (Logged σ)) : Prop :=
  ∃ seen wds, Gains (seen.flatMap (enteredNames fanotify)) seen wds w w' ∧
    seen.map Prod.fst = paths.map cstring ∧
    (fanotify = false → wds.length = paths.length ∧ ∀ wd ∈ wds, 0 < wd)

namespace Watches

variable {fanotify : Bool} {paths paths' : List Bytes} {w w' w'' : World (Logged σ)}

theorem of_nothing (h : Gains.Nothing w w') : Watches fanotify [] w w' :=
  ⟨[], [], h, rfl, fun _ => ⟨rfl, nofun⟩⟩

theorem append (h : Watches fanotify paths w w') (h' : Watches fanotify paths' w' w'') :
    Watches fanotify (paths ++ paths') w w'' := by
  obtain ⟨seen, wds, hgains, hseen, hwds⟩ := h
  obtain ⟨seen', wds', hgains', hseen', hwds'⟩ := h'
  refine ⟨seen ++ seen', wds ++ wds', ?_, ?_, fun hf => ⟨?_, ?_⟩⟩
  · rw [List.flatMap_append]
    exact hgains.trans hgains'
  · rw [List.map_append, List.map_append, hseen, hseen']
  · rw [List.length_append, List.length_append, (hwds hf).1, (hwds' hf).1]
  · exact fun wd hwd => (List.mem_append.1 hwd).elim ((hwds hf).2 wd) ((hwds' hf).2 wd)

theorem mode (h : Watches fanotify paths w w') : w'.lib.fanotifyMode = w.lib.fanotifyMode :=
  h.choose_spec.choose_spec.1.mode

theorem counted (h : Watches fanotify paths w w') (hm : w.lib.fanotifyMode = true)
    (hw : w.lib.store.Numbered) : w'.lib.store.Numbered :=
  h.choose_spec.choose_spec.1.counted hm hw

variable [Sys σ]

/-- Inotify numbers the file. -/
theorem addWatch_inotify (hz : ¬ AnsweredZero σ) (hm : w.lib.fanotifyMode = false) {p : CString}
    {events events' wd : Int32} (hrun : addWatch p events w = .ok ((wd, events'), w')) :
    Gains [] [] [wd] w w' ∧ wd ≠ 0 := by
  rw [addWatch_run_inotify hm] at hrun
  cases hrun
  refine ⟨⟨rfl, ⟨_, rfl, rfl, rfl⟩, fun n => by simp, fun _ hw => hw⟩, fun hzero => ?_⟩
  exact Logged.not_answeredZero hz ⟨_, _, _, _, hzero⟩

/-- Fanotify marks the file. -/
theorem addWatch_fanotify (hmark : ∀ wd, 0 < wd → ¬ MarkedWith σ wd)
    (hm : w.lib.fanotifyMode = true) {p : CString} {events events' wd : Int32}
    (hrun : addWatch p events w = .ok ((wd, events'), w')) : Gains.Nothing w w' ∧ wd ≤ 0 := by
  obtain ⟨flags, mask, events₁, hadd⟩ := addWatch_run_fanotify hm p events
  rw [hadd] at hrun
  cases hrun
  refine ⟨.nothing rfl rfl rfl rfl rfl, Int32.not_lt.1 fun hpos => ?_⟩
  exact hmark _ hpos ⟨w.lib.fd, flags, mask, p, w.os.os, rfl⟩

/-- One file: with inotify under the number it got, with fanotify under its fid. -/
theorem watchOne (hz : ¬ AnsweredZero σ) (hmark : ∀ wd, 0 < wd → ¬ MarkedWith σ wd)
    (hm : w.lib.fanotifyMode = fanotify) (hw : fanotify = true → w.lib.store.Numbered)
    {fuel : Nat} {fname : Bytes} {events events' : Int32}
    (hrun : watchOne fuel fname events w = .ok ((true, events'), w')) :
    Watches fanotify [fname] w w' := by
  unfold InotifyTools.watchOne at hrun
  obtain ⟨⟨wd, events₁⟩, w₁, hadd, hrun⟩ := Prog.bind_ok hrun
  dsimp only at hrun
  split at hrun
  · obtain ⟨_, _, -, hrun⟩ := Prog.bind_ok hrun
    cases hrun
  · next hwd =>
      obtain ⟨stored, w₂, hstore, hrun⟩ := Prog.bind_ok hrun
      cases hrun
      cases fanotify with
      | false =>
          obtain ⟨hasked, hne⟩ := addWatch_inotify hz hm hadd
          have hpos : 0 < wd := by grind
          obtain ⟨s, hs, hgains⟩ := Gains.storeWatch_inotify hpos (hasked.mode.trans hm) hstore
          refine ⟨[s], [wd], ?_, by rw [List.map_singleton, hs]; rfl, fun _ => ⟨rfl, ?_⟩⟩
          · rw [List.flatMap_singleton]
            exact hasked.trans hgains
          · exact fun d hd => List.mem_singleton.1 hd ▸ hpos
      | true =>
          obtain ⟨hasked, hle⟩ := addWatch_fanotify hmark hm hadd
          have hzero : wd = 0 := by grind
          rw [hzero] at hstore
          obtain ⟨s, hs, hgains⟩ := Gains.storeWatch_fanotify (hasked.mode.trans hm)
            (hasked.counted hm (hw rfl)) hstore
          refine ⟨[s], [], ?_, by rw [List.map_singleton, hs]; rfl, nofun⟩
          rw [List.flatMap_singleton]
          exact hasked.trans hgains

theorem watchEach (hz : ¬ AnsweredZero σ) (hmark : ∀ wd, 0 < wd → ¬ MarkedWith σ wd)
    (hm : w.lib.fanotifyMode = fanotify) (hw : fanotify = true → w.lib.store.Numbered)
    {fuel : Nat} {filenames : List Bytes} {events : Int32}
    (hrun : watchEach fuel filenames events w = .ok (true, w')) :
    Watches fanotify filenames w w' := by
  induction filenames generalizing w events with
  | nil =>
      cases hrun
      exact .of_nothing (.refl _)
  | cons fname filenames ih =>
      obtain ⟨⟨ok, events₁⟩, w₁, hone, hrun⟩ := Prog.bind_ok hrun
      cases ok with
      | false => cases hrun
      | true =>
          have hfirst := watchOne hz hmark hm hw hone
          exact hfirst.append (ih (hfirst.mode.trans hm)
            (fun hf => hfirst.counted (hm.trans hf) (hw hf)) hrun)

theorem watchFiles (hz : ¬ AnsweredZero σ) (hmark : ∀ wd, 0 < wd → ¬ MarkedWith σ wd)
    (hm : w.lib.fanotifyMode = fanotify) (hw : fanotify = true → w.lib.store.Numbered)
    {fuel : Nat} {filenames : List Bytes} {events : Int32}
    (hrun : watchFiles fuel filenames events w = .ok (true, w')) :
    Watches fanotify filenames w w' := by
  obtain ⟨_, w₁, hassert, hrun⟩ := Prog.bind_ok hrun
  obtain ⟨_, w₂, hclear, hrun⟩ := Prog.bind_ok hrun
  have hquiet : Gains.Nothing w w₂ :=
    (Gains.assertInit _ _ _ hassert).trans (Gains.setError 0 _ _ _ hclear)
  have heach := watchEach hz hmark (hquiet.mode.trans hm)
    (fun hf => hquiet.counted (hm.trans hf) (hw hf)) hrun
  exact (of_nothing hquiet).append heach

/-- A sequence of calls watches all their files. -/
theorem of_calls (hz : ¬ AnsweredZero σ) (hmark : ∀ wd, 0 < wd → ¬ MarkedWith σ wd)
    (hm : w.lib.fanotifyMode = fanotify) (hw : fanotify = true → w.lib.store.Numbered)
    (hcalls : WatchCalls w paths w') : Watches fanotify paths w w' := by
  induction hcalls with
  | none => exact .of_nothing (.refl _)
  | call _ hcall ih =>
      exact ih.append (watchFiles hz hmark (ih.mode.trans hm)
        (fun hf => ih.counted (hm.trans hf) (hw hf)) hcall)

end Watches

/-! ## The count -/

variable [Sys σ] {w₀ w₁ w₂ : World (Logged σ)} {paths : List Bytes}

/-- The indexes of a newly initialised handle are empty. -/
theorem init_fresh {fanotify watchFilesystem : Bool} {verbose : Int32}
    (hi : w₀.lib.initialized = false)
    (hinit : init fanotify watchFilesystem verbose w₀ = .ok (true, w₁)) :
    w₁.lib.fanotifyMode = fanotify ∧ w₁.lib.store = w₀.lib.store.clearIndexes := by
  obtain ⟨pid, mark, os₁, fd, os, -, -, -, hrun⟩ := init_run hi fanotify watchFilesystem verbose
  rw [hrun] at hinit
  split at hinit
  · cases hinit
  · cases hinit
    exact ⟨rfl, rfl⟩

/-- The names that were entered are counted, each once. -/
theorem numWatches_eq (hz : ¬ AnsweredZero σ) (hmark : ∀ wd, 0 < wd → ¬ MarkedWith σ wd)
    {fanotify watchFilesystem : Bool} {verbose : Int32} (hi : w₀.lib.initialized = false)
    (hinit : init fanotify watchFilesystem verbose w₀ = .ok (true, w₁))
    (hcalls : WatchCalls w₁ paths w₂)
    (hwds : fanotify = false → (numbered (callsBetween w₁ w₂)).Nodup) :
    (looked (callsBetween w₁ w₂)).map Prod.fst = paths.map cstring ∧
    ∃ k, getNumWatches w₂ = .ok (k, w₂) ∧ k.toInt =
      ((looked (callsBetween w₁ w₂)).flatMap (enteredNames fanotify)).toFinset.card := by
  obtain ⟨hm, hstore⟩ := init_fresh hi hinit
  have hfresh : w₁.lib.store.Numbered := hstore ▸ .clearIndexes _
  obtain ⟨seen, wds, hgains, hseen, hnumbers⟩ :=
    Watches.of_calls hz hmark hm (fun _ => hfresh) hcalls
  obtain ⟨new, hlog, rfl, rfl⟩ := hgains.calls
  rw [callsBetween_eq hlog] at hwds ⊢
  refine ⟨hseen, _, rfl, ?_⟩
  -- the names of the index are those that were entered
  have hnames : ∀ n, n ∈ ((looked new).flatMap (enteredNames fanotify)).toFinset ↔
      ∃ id, w₂.lib.store.byFilename[n]? = some id := by
    intro n
    have hempty : n ∉ w₁.lib.store.byFilename := by
      rw [hstore]
      exact Std.TreeMap.not_mem_emptyc
    have hmem := hgains.names n
    rw [or_iff_right hempty] at hmem
    rw [List.mem_toFinset, ← hmem, Std.TreeMap.mem_iff_isSome_getElem?, Option.isSome_iff_exists]
  have hsize := KeyedMap.size_eq_card w₂.lib.store.byFilename _ hnames
  have hbound : w₂.lib.store.byFilename.size < 2 ^ 31 := by
    cases fanotify with
    | true => exact (hgains.counted hm hfresh).size_lt
    | false =>
        -- as many different numbers were given
        obtain ⟨hlength, hpos⟩ := hnumbers rfl
        have hcard := KeyedMap.card_lt_of_positive fun wd hwd => hpos wd (List.mem_toFinset.1 hwd)
        rw [List.toFinset_card_of_nodup (hwds rfl), hlength] at hcard
        have hpaths := congrArg List.length hseen
        rw [List.length_map, List.length_map] at hpaths
        have hle := List.toFinset_card_le ((looked new).flatMap (enteredNames false))
        have hflat : ((looked new).flatMap (enteredNames false)).length = (looked new).length := by
          simp [enteredNames]
        omega
  rw [← hsize]
  exact Int32.toInt_ofNat_of_lt hbound

/-- Different names are entered once each, and nothing more unless a mount has a name of its own. -/
theorem card_enteredNames_iff {fanotify : Bool} {seen : List (CString × Bool)}
    (hnames : (seen.map seenName).Nodup) :
    (seen.flatMap (enteredNames fanotify)).toFinset.card = seen.length ↔
      (fanotify = true → ∀ s ∈ seen, ∀ m ∈ mountName s, m ∈ seen.map seenName) := by
  have hcard : (seen.map seenName).toFinset.card = seen.length := by
    rw [List.toFinset_card_of_nodup hnames, List.length_map]
  have hsub : (seen.map seenName).toFinset ⊆ (seen.flatMap (enteredNames fanotify)).toFinset := by
    intro n hn
    obtain ⟨s, hs, rfl⟩ := List.mem_map.1 (List.mem_toFinset.1 hn)
    exact List.mem_toFinset.2 (List.mem_flatMap.2 ⟨s, hs, by simp [enteredNames]⟩)
  constructor
  · rintro hsame rfl s hs m hm
    have heq := Finset.eq_of_subset_of_card_le hsub (by rw [hsame, hcard])
    rw [← List.mem_toFinset, heq, List.mem_toFinset, List.mem_flatMap]
    exact ⟨s, hs, by simp [enteredNames, Option.mem_def.1 hm]⟩
  · intro hmounts
    rw [← hcard]
    refine congrArg Finset.card (Finset.Subset.antisymm (fun n hn => ?_) hsub)
    obtain ⟨s, hs, hn⟩ := List.mem_flatMap.1 (List.mem_toFinset.1 hn)
    rw [List.mem_toFinset]
    rcases List.mem_append.1 hn with hmount | hname
    · cases fanotify with
      | false => cases hmount
      | true => exact hmounts rfl s hs n (Option.mem_toList.1 hmount)
    · exact List.mem_map.2 ⟨s, hs, (List.mem_singleton.1 hname).symm⟩

/-- **The paths that were watched are counted if and only if no mount has a name of its own:** with
    inotify, or where the name of each directory without the '/' is that of another path, as where
    there are no directories. -/
theorem numWatches_paths_iff (hz : ¬ AnsweredZero σ) (hmark : ∀ wd, 0 < wd → ¬ MarkedWith σ wd)
    {fanotify watchFilesystem : Bool} {verbose : Int32} (hi : w₀.lib.initialized = false)
    (hinit : init fanotify watchFilesystem verbose w₀ = .ok (true, w₁))
    (hcalls : WatchCalls w₁ paths w₂)
    (hnames : ((looked (callsBetween w₁ w₂)).map seenName).Nodup)
    (hwds : fanotify = false → (numbered (callsBetween w₁ w₂)).Nodup) :
    (looked (callsBetween w₁ w₂)).map Prod.fst = paths.map cstring ∧
    ∃ k, getNumWatches w₂ = .ok (k, w₂) ∧
      (k.toInt = paths.length ↔ (fanotify = true → ∀ s ∈ looked (callsBetween w₁ w₂),
        ∀ m ∈ mountName s, m ∈ (looked (callsBetween w₁ w₂)).map seenName)) := by
  obtain ⟨hpaths, k, hrun, hk⟩ := numWatches_eq hz hmark hi hinit hcalls hwds
  have hlength := congrArg List.length hpaths
  rw [List.length_map, List.length_map] at hlength
  refine ⟨hpaths, k, hrun, ?_⟩
  rw [hk, ← hlength, Int.ofNat_inj]
  exact card_enteredNames_iff hnames

/-- A fanotify group, one of whose paths is a directory. -/
def deskGroup : World (Logged Desk) :=
  { lib := Inotifytools.new, os := { os := { dirs := [ascii "d"] } } }

/-- One directory makes two watches. -/
theorem directory_counted_twice :
    let w₁ := deskGroup.after 9 [.init true false 0]
    let w₂ := w₁.after 9 [.watchFiles [ascii "d"] 2]
    init true false 0 deskGroup = .ok (true, w₁) ∧ WatchCalls w₁ [ascii "d"] w₂ ∧
      getNumWatches w₂ = .ok (2, w₂) := by
  intro w₁ w₂
  have hinit : init true false 0 deskGroup = .ok (true, w₁) :=
    World.after_of_result _ _ rfl (by decide +kernel)
  have hwatch : watchFiles 9 [ascii "d"] 2 w₁ = .ok (true, w₂) :=
    World.after_of_result _ _ rfl (by decide +kernel)
  have hsize : w₂.lib.store.byFilename.size = 2 := by decide +kernel
  refine ⟨hinit, .call (.none w₁) hwatch, ?_⟩
  unfold getNumWatches
  rw [getLib_bind, hsize]
  rfl

/-- Two files, watched by two calls. -/
theorem numWatches_paths_desk :
    let w₁ := deskGroup.after 9 [.init true false 0]
    let w₂ := w₁.after 9 [.watchFiles [ascii "a"] 2]
    let w₃ := w₂.after 9 [.watchFiles [ascii "b"] 2]
    ∃ k, getNumWatches w₃ = .ok (k, w₃) ∧ k.toInt = 2 := by
  intro w₁ w₂ w₃
  have hinit : init true false 0 deskGroup = .ok (true, w₁) :=
    World.after_of_result _ _ rfl (by decide +kernel)
  have hfirst : watchFiles 9 [ascii "a"] 2 w₁ = .ok (true, w₂) :=
    World.after_of_result _ _ rfl (by decide +kernel)
  have hsecond : watchFiles 9 [ascii "b"] 2 w₂ = .ok (true, w₃) :=
    World.after_of_result _ _ rfl (by decide +kernel)
  have hmark : ∀ wd, 0 < wd → ¬ MarkedWith Desk wd := by
    rintro wd hpos ⟨_, _, _, _, _, rfl⟩
    cases hpos
  obtain ⟨-, k, hrun, hcount⟩ := numWatches_paths_iff Desk.kernelWatches.not_answeredZero hmark rfl
    hinit (.call (.call (.none w₁) hfirst) hsecond) (by decide +kernel) nofun
  exact ⟨k, hrun, hcount.2 (by decide +kernel)⟩

end InotifyTools
