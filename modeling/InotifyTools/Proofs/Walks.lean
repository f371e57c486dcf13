import InotifyTools.Proofs.Errno
import InotifyTools.Proofs.Excluded

set_option autoImplicit false

/-! # When a walk is given up

The walk of a directory tree goes on after some failures. If all that it meets are of this kind, it
comes to the end and watches the directory it started from. -/

namespace InotifyTools

variable {σ : Type}

/-! ## Failures -/

/-- The numbers a walk goes on after in a subdirectory. -/
def Tolerable (e : Int32) : Prop := e = eacces ∨ e = enoent ∨ e = eloop

instance : DecidablePred Tolerable := fun e =>
  inferInstanceAs (Decidable (e = eacces ∨ e = enoent ∨ e = eloop))

/-- `p` is the path of an entry of `root`. -/
def EntryOf (root p : Bytes) : Prop := root <+: p ∧ slash ∉ p.drop root.length

instance (root p : Bytes) : Decidable (EntryOf root p) :=
  inferInstanceAs (Decidable (root <+: p ∧ slash ∉ p.drop root.length))

/-- A call that does not make the walk of `root` be given up: it succeeds, or it fails on something
    below and the walk goes on after it. Whether `root` itself is accepted is not asked here. -/
def SysCall.Passed (root : Bytes) (errno : Int32) : SysCall → Prop
  | lstat p none => p.bytes.getLast? = some slash ∨ errno = eacces ∨
      Tolerable errno ∧ ¬ EntryOf root p.bytes
  | opendir p none => errno = enotdir ∨ Tolerable errno ∧ p.bytes ≠ root
  | addWatch p a => p.bytes = root ∨ 0 < a ∨ a = -1 ∧ Tolerable errno
  | _ => True

instance (root : Bytes) (errno : Int32) : DecidablePred (SysCall.Passed root errno)
  | .lstat p none => inferInstanceAs (Decidable (p.bytes.getLast? = some slash ∨ errno = eacces ∨
      Tolerable errno ∧ ¬ EntryOf root p.bytes))
  | .opendir p none =>
      inferInstanceAs (Decidable (errno = enotdir ∨ Tolerable errno ∧ p.bytes ≠ root))
  | .addWatch p a =>
      inferInstanceAs (Decidable (p.bytes = root ∨ 0 < a ∨ a = -1 ∧ Tolerable errno))
  | .lstat _ (some _) | .opendir _ (some _) | .inotifyInit _ | .rmWatch .. | .fanotifyInit _
  | .fanotifyMark .. | .statfs .. | .openPath .. | .dup _ | .nameToHandleAt .. | .openByHandleAt _
  | .readlinkFd _ | .faccessat _ | .readdir .. | .ppoll _ | .fionread _ | .read .. => .isTrue trivial

/-- No call between `w` and `w'` makes the walk of `root` be given up. -/
def AllPassed (root : Bytes) (w w' : World (Logged σ)) : Prop :=
  ∀ e ∈ callsBetween w w', e.call.Passed root e.errno

instance (root : Bytes) (w w' : World (Logged σ)) : Decidable (AllPassed root w w') :=
  inferInstanceAs (Decidable (∀ e ∈ callsBetween w w', e.call.Passed root e.errno))

variable {w w₁ w₂ w' : World (Logged σ)}

/-- A part of a run makes some of its calls. -/
theorem callsBetween_subset (h₁ : w.os.log <+: w₁.os.log) (h₂ : w₁.os.log <+: w₂.os.log)
    (h₃ : w₂.os.log <+: w'.os.log) : callsBetween w₁ w₂ ⊆ callsBetween w w' := by
  obtain ⟨a, ha⟩ := h₁
  obtain ⟨b, hb⟩ := h₂
  obtain ⟨c, hc⟩ := h₃
  have hwhole : w'.os.log = w.os.log ++ (a ++ b ++ c) := by rw [← hc, ← hb, ← ha]; simp
  rw [callsBetween_eq hb.symm, callsBetween_eq hwhole]
  intro e he
  exact List.mem_append_left c (List.mem_append_right a he)

theorem AllPassed.part {root : Bytes} (h : AllPassed root w w') (h₁ : w.os.log <+: w₁.os.log)
    (h₂ : w₁.os.log <+: w₂.os.log) (h₃ : w₂.os.log <+: w'.os.log) : AllPassed root w₁ w₂ :=
  fun e he => h e (callsBetween_subset h₁ h₂ h₃ he)

/-! ## One file -/

variable [Sys σ]

/-- Watching one file asks the kernel once, and goes by its answer. -/
theorem watchFile_answer (hz : ¬ AnsweredZero (Logged σ)) (h : Inotify w) {fuel : Nat} {p : Bytes}
    {events : Int32} {ok : Bool} (hrun : watchFile fuel p events w = .ok (ok, w')) :
    ∃ e ∈ callsBetween w w', ∃ wd, e.call = .addWatch (cstring p) wd ∧
      (0 < wd → ok = true ∧ ∃ id, w'.lib.store.byWd[wd]? = some id) ∧
      (wd = -1 → w'.lib.error = e.errno) := by
  let v : World (Logged σ) := { w with lib := { w.lib with error := 0 } }
  let r := addAnswer v (cstring p) events
  have hlog : r.2.log = w.os.log ++ [⟨.addWatch (cstring p) r.1, Sys.errno r.2⟩] := rfl
  rw [watchFile_eq h.initialized] at hrun
  by_cases hneg : r.1 < 0
  · have hadd := addWatch_run_inotify (w := v) h.mode (cstring p) events
    unfold watchOne at hrun
    dsimp only at hrun
    rw [Prog.bind_assoc, Prog.bind_run_ok hadd] at hrun
    dsimp only at hrun
    rw [if_pos (show (Sys.inotifyAddWatch v.lib.fd (cstring p) events.toUInt32 v.os).1 < 0 from hneg),
      watchRefused] at hrun
    refine ⟨⟨.addWatch (cstring p) r.1, Sys.errno r.2⟩, ?_, r.1, rfl, fun hpos => ?_, fun hwd => ?_⟩
    · have hend : w'.os.log = r.2.log := by
        split at hrun <;> cases hrun <;> rfl
      rw [callsBetween_eq (hend.trans hlog)]
      exact List.mem_singleton_self _
    · exact absurd hpos (by grind)
    · rw [if_pos (show (Sys.inotifyAddWatch v.lib.fd (cstring p) events.toUInt32 v.os).1 = -1
        from hwd)] at hrun
      cases hrun
      rfl
  · have hpos : 0 < r.1 := by
      have hne : r.1 ≠ 0 := fun he => hz ⟨_, _, _, _, he⟩
      grind
    obtain ⟨os, hos, hone⟩ := watchOne_run_watched (w := v) h.mode hpos fuel
    obtain ⟨new, hnew, -⟩ := QuietCall.logs hos
    rw [Prog.bind_run_ok hone] at hrun
    cases hrun
    refine ⟨⟨.addWatch (cstring p) r.1, Sys.errno r.2⟩, ?_, r.1, rfl, fun _ => ⟨rfl, ?_⟩, fun hwd => ?_⟩
    · rw [callsBetween_eq (by rw [hnew, hlog, List.append_assoc])]
      exact List.mem_append_left _ (List.mem_singleton_self _)
    · exact Tracked.insert_adds _ _
    · exact absurd (hwd ▸ hpos) (by decide)

/-- A file below the root is watched, or the walk goes on. -/
theorem watchFile_passed (hz : ¬ AnsweredZero (Logged σ)) (h : Inotify w) {fuel : Nat}
    {root p : Bytes} {events : Int32} {ok : Bool} (hrun : watchFile fuel p events w = .ok (ok, w'))
    (hne : (cstring p).bytes ≠ root) (hpassed : AllPassed root w w') :
    ok = true ∨ Tolerable w'.lib.error := by
  obtain ⟨⟨c, errno⟩, he, wd, rfl, hpos, hneg⟩ := watchFile_answer hz h hrun
  rcases hpassed _ he with hroot | hwd | ⟨hwd, htol⟩
  · exact absurd hroot hne
  · exact .inl (hpos hwd).1
  · rw [hneg hwd]
    exact .inr htol

/-! ## The walk -/

/-- One directory of the walk of `root`: it is watched, or its error is one to go on after. -/
def GoesOn (root : Bytes) (m : M (Logged σ) Bool) : Prop :=
  ∀ w ok w', Inotify w → m w = .ok (ok, w') → AllPassed root w w' →
    ok = true ∨ Tolerable w'.lib.error

section Walk

variable {root myPath : Bytes} {E : Int32 → Prop} {descend : Bytes → M (Logged σ) Bool}

/-- An entry of a directory is passed, or its failure has one of the numbers `E`. -/
theorem walkEntry_passed {name : CString}
    (hd : GoesOn root (descend (myPath ++ name.bytes ++ [slash])))
    (hE : ∀ errno, SysCall.Passed root errno (.lstat (cstring (myPath ++ name.bytes)) none) →
      errno = eacces ∨ E errno) {ex : List Bytes} {ok : Bool} (h : Inotify w)
    (hrun : walkEntry descend myPath ex name.bytes w = .ok (ok, w')) (hpassed : AllPassed root w w')
    (hs : ∀ p, Sound {.watch} (descend p)) : ok = true ∨ E w'.lib.error := by
  obtain ⟨mode, w₁, hstat, hrest⟩ := Prog.bind_ok hrun
  obtain ⟨hlog, hlib⟩ := call_logged (e := .lstat (cstring (myPath ++ name.bytes))) hstat
  cases mode with
  | none =>
      have hmem : ⟨.lstat (cstring (myPath ++ name.bytes)) none, Sys.errno w₁.os⟩ ∈
          callsBetween w w₁ := by
        rw [callsBetween_eq hlog]
        exact List.mem_singleton_self _
      cases hrest
      rcases hE _ (hpassed _ hmem) with he | he
      · exact .inl (decide_eq_true he)
      · exact .inr he
  | some mode =>
      dsimp only at hrest
      by_cases hdir : mode &&& sIfmt ≠ sIfdir
      · rw [if_pos hdir] at hrest
        cases hrest
        exact .inl rfl
      rw [if_neg hdir] at hrest
      by_cases hex : isExcluded (myPath ++ name.bytes ++ [slash]) ex = true
      · rw [if_pos hex] at hrest
        cases hrest
        exact .inl rfl
      rw [if_neg hex] at hrest
      obtain ⟨status, w₂, hdescend, hrest⟩ := Prog.bind_ok hrest
      have h₁ : Inotify w₁ := by
        cases w₁
        cases hlib
        exact ⟨h.initialized, h.mode, h.wellIndexed, h.plain⟩
      have hpre := ((hs _ w₁ h₁.wellIndexed).ok hdescend).1.log_extends
      cases hrest
      refine .inl ?_
      rcases hd w₁ status w' h₁ hdescend (hpassed.part ⟨_, hlog.symm⟩ hpre List.prefix_rfl)
        with hok | htol
      · rw [hok]
        rfl
      · exact Bool.or_eq_true_iff.2 (.inr (decide_eq_true htol))

/-- The entries of a directory. -/
theorem walkEntries_passed (hz : ¬ AnsweredZero (Logged σ)) (hn : ProperNames σ)
    (hd : ∀ name : CString, name.bytes ≠ [] → slash ∉ name.bytes →
      GoesOn root (descend (myPath ++ name.bytes ++ [slash])))
    (hE : ∀ (name : CString) errno, name.bytes ≠ [] → slash ∉ name.bytes →
      SysCall.Passed root errno (.lstat (cstring (myPath ++ name.bytes)) none) →
        errno = eacces ∨ E errno) {dir : Nat} {ex : List Bytes} {fuel : Nat} {ok : Bool}
    (h : Inotify w) (hrun : walkEntries descend dir myPath ex fuel w = .ok (ok, w'))
    (hpassed : AllPassed root w w') (hs : ∀ p, Sound {.watch} (descend p)) :
    ok = true ∨ E w'.lib.error := by
  have hl : Kind.lifecycle ∉ ({.watch} : Set Kind) := nofun
  -- on the entries that are read
  induction fuel generalizing w with
  | zero => cases hrun
  | succ fuel ih =>
      obtain ⟨name, w₁, hread, hrest⟩ := Prog.bind_ok hrun
      have he₁ := ((Sound.call (S := {.watch}) (fun os => QuietCall.readdir dir os) w
        h.wellIndexed).ok hread).1
      have h₁ := h.effects hz he₁ hl
      cases name with
      | none =>
          cases hrest
          exact .inl rfl
      | some name =>
          have hname : (Sys.readdir dir w.os.os).1 = some name :=
            congrArg Prod.fst (Except.ok.inj hread)
          obtain ⟨hne, hslash⟩ := hn dir w.os.os name hname
          obtain ⟨passed, w₂, hentry, hrest⟩ := Prog.bind_ok hrest
          have hsentry : Sound {.watch} (if name.bytes ≠ ascii "." ∧ name.bytes ≠ ascii ".." then
              walkEntry descend myPath ex name.bytes else pure true) :=
            .ite (walkEntry_sound hs _ _ _) (.pure _)
          have he₂ := ((hsentry w₁ h₁.wellIndexed).ok hentry).1
          have h₂ := h₁.effects hz he₂ hl
          have hsrest : Sound {.watch} (if (!passed) = true then pure false else do
              setError 0
              walkEntries descend dir myPath ex fuel) :=
            .ite (.pure _) (.bind (setError_sound 0) fun _ => walkEntries_sound hs _ _ _ _)
          have he₃ := ((hsrest w₂ h₂.wellIndexed).ok hrest).1
          have hpassed₁ := hpassed.part he₁.log_extends he₂.log_extends he₃.log_extends
          have hout : passed = true ∨ E w₂.lib.error := by
            split at hentry
            · exact walkEntry_passed (hd name hne hslash) (fun e => hE name e hne hslash) h₁ hentry
                hpassed₁ hs
            · cases hentry
              exact .inl rfl
          cases passed with
          | false =>
              cases hrest
              exact hout
          | true =>
              have hnext : Inotify { w₂ with lib := { w₂.lib with error := 0 } } :=
                ⟨h₂.initialized, h₂.mode, h₂.wellIndexed, h₂.plain⟩
              exact ih hnext hrest
                (hpassed.part (he₁.trans he₂).log_extends he₃.log_extends List.prefix_rfl)

/-- The path of a file below a subdirectory of `root`. -/
def Below (root p : Bytes) : Prop := root <+: p ∧ slash ∈ p.drop root.length

omit [Sys σ] in
theorem Below.append {root p : Bytes} (h : Below root p) (q : Bytes) : Below root (p ++ q) := by
  refine ⟨h.1.trans (List.prefix_append _ _), ?_⟩
  rw [List.drop_append_of_le_length h.1.length_le]
  exact List.mem_append_left q h.2

omit [Sys σ] in
theorem Below.ne {root p : Bytes} (h : Below root p) : p ≠ root := by
  rintro rfl
  have hmem := h.2
  rw [List.drop_length] at hmem
  cases hmem

omit [Sys σ] in
theorem spelled_noNul (p : CString) : 0 ∉ spelled p.bytes := by
  have hslash : (0 : UInt8) ≠ slash := by decide
  unfold spelled
  split <;> simp [p.noNul, hslash]

omit [Sys σ] in
/-- The walk goes on below. -/
theorem Below.subdirectory {root p : Bytes} (h : Below root p) (hnul : 0 ∉ p) (name : CString) :
    Below root (spelled (cstring (p ++ name.bytes ++ [slash])).bytes) := by
  have hslash : (0 : UInt8) ≠ slash := by decide
  rw [bytes_cstring (by simp [hnul, name.noNul, hslash]), spelled_concat, List.append_assoc]
  exact h.append _

omit [Sys σ] in
/-- The failure of an entry that is passed. -/
theorem entry_passed {root p : Bytes} (hnul : 0 ∉ p) {name : CString}
    (hne : name.bytes ≠ []) (hname : slash ∉ name.bytes) {errno : Int32}
    (hpassed : SysCall.Passed root errno (.lstat (cstring (p ++ name.bytes)) none)) :
    errno = eacces ∨ Tolerable errno ∧ ¬ EntryOf root (p ++ name.bytes) := by
  have hbytes : (cstring (p ++ name.bytes)).bytes = p ++ name.bytes :=
    bytes_cstring (by simp [hnul, name.noNul])
  rcases hpassed with hend | he | he
  · rw [hbytes, List.getLast?_append_of_ne_nil _ hne] at hend
    exact absurd (List.mem_of_getLast? hend) hname
  · exact .inl he
  · rw [hbytes] at he
    exact .inr he

/-- The walk of a directory asks for its entries, and then for the directory itself. -/
theorem watchRecursivelyWithExclude_cases (h : Inotify w) {fuel : Nat} {path : Bytes}
    {events : Int32} {ex : List Bytes} {ok : Bool}
    (hrun : watchRecursivelyWithExclude (fuel + 1) path events ex w = .ok (ok, w')) :
    ∃ dir w₁, Inotify w₁ ∧ w₁.lib.error = 0 ∧
      w₁.os.log = w.os.log ++ [⟨.opendir (cstring path) dir, Sys.errno w₁.os⟩] ∧
      match dir with
      | none => if Sys.errno w₁.os = enotdir then
            watchFile fuel (cstring path).bytes events w₁ = .ok (ok, w')
          else ok = false ∧ w' = { w₁ with lib := { w₁.lib with error := Sys.errno w₁.os } }
      | some dir => ∃ passed w₂,
          walkEntries (fun p => watchRecursivelyWithExclude fuel p events ex) dir
            (spelled (cstring path).bytes) ex fuel w₁ = .ok (passed, w₂) ∧
          let w₃ : World (Logged σ) := { w₂ with os := Sys.closedir dir w₂.os }
          if passed then watchFile fuel (spelled (cstring path).bytes) events w₃ = .ok (ok, w')
          else ok = false ∧ w' = w₃ := by
  unfold watchRecursivelyWithExclude at hrun
  rw [Prog.bind_run_ok (assertInit_run h.initialized)] at hrun
  obtain ⟨_, v, hclear, hrun⟩ := Prog.bind_ok hrun
  cases hclear
  obtain ⟨dir, w₁, hopen, hrest⟩ := Prog.bind_ok hrun
  obtain ⟨hlog, hlib⟩ := call_logged (e := .opendir (cstring path)) hopen
  have h₁ : Inotify w₁ := by
    cases w₁
    cases hlib
    exact ⟨h.initialized, h.mode, h.wellIndexed, h.plain⟩
  refine ⟨dir, w₁, h₁, congrArg Inotifytools.error hlib, hlog, ?_⟩
  cases dir with
  | none =>
      obtain ⟨e, w₂, herrno, hrest⟩ := Prog.bind_ok hrest
      cases herrno
      dsimp only
      split at hrest
      · next he =>
          rw [if_pos he]
          exact hrest
      · next he =>
          rw [if_neg he]
          cases hrest
          exact ⟨rfl, rfl⟩
  | some dir =>
      dsimp only at hrest
      rw [show (if (cstring path).bytes.getLast? ≠ some slash then (cstring path).bytes ++ [slash]
        else (cstring path).bytes) = spelled (cstring path).bytes from ite_not _ _ _] at hrest
      obtain ⟨passed, w₂, hwalk, hrest⟩ := Prog.bind_ok hrest
      refine ⟨passed, w₂, hwalk, ?_⟩
      cases passed with
      | false =>
          cases hrest
          exact ⟨rfl, rfl⟩
      | true => exact hrest

/-- The walk of a subdirectory goes on, or its error is one to go on after. -/
theorem watchRecursivelyWithExclude_goesOn (hz : ¬ AnsweredZero (Logged σ)) (hn : ProperNames σ)
    (hroot : spelled root = root) (fuel : Nat) (path : Bytes) (events : Int32) (ex : List Bytes)
    (hbelow : Below root (spelled (cstring path).bytes)) :
    GoesOn root (watchRecursivelyWithExclude fuel path events ex : M (Logged σ) Bool) := by
  induction fuel generalizing path with
  | zero => exact fun _ _ _ _ hrun => nomatch hrun
  | succ fuel ih =>
      intro w ok w' h hrun hpassed
      have hl : Kind.lifecycle ∉ ({.watch} : Set Kind) := nofun
      obtain ⟨dir, w₁, h₁, -, hlog, hrest⟩ := watchRecursivelyWithExclude_cases h hrun
      have hpre₁ : w.os.log <+: w₁.os.log := ⟨_, hlog.symm⟩
      have hnul := spelled_noNul (cstring path)
      cases dir with
      | none =>
          dsimp only at hrest
          split at hrest
          · have hpre₂ := ((watchFiles_sound (S := {.watch}) rfl hl fuel _ _ w₁ h₁.wellIndexed).ok
              hrest).1.log_extends
            have hne : (cstring (cstring path).bytes).bytes ≠ root := by
              rw [cstring_bytes]
              exact fun he => hbelow.ne (by rw [he, hroot])
            exact watchFile_passed hz h₁ hrest hne (hpassed.part hpre₁ hpre₂ List.prefix_rfl)
          · next he =>
              obtain ⟨-, rfl⟩ := hrest
              have hmem : ⟨.opendir (cstring path) none, Sys.errno w₁.os⟩ ∈ callsBetween w w₁ := by
                rw [callsBetween_eq hlog]
                exact List.mem_singleton_self _
              -- the failed opendir itself is one that the caller goes on after
              exact .inr ((hpassed _ hmem).resolve_left he).1
      | some dir =>
          obtain ⟨passed, w₂, hwalk, hrest⟩ := hrest
          have hs : ∀ p, Sound {.watch}
              (watchRecursivelyWithExclude fuel p events ex : M (Logged σ) Bool) := fun p =>
            watchRecursivelyWithExclude_sound (S := {.watch}) rfl hl fuel p events ex
          have he₂ := ((walkEntries_sound hs dir _ ex fuel w₁ h₁.wellIndexed).ok hwalk).1
          have h₂ := h₁.effects hz he₂ hl
          have h₃ : Inotify { w₂ with os := Sys.closedir dir w₂.os } :=
            ⟨h₂.initialized, h₂.mode, h₂.wellIndexed, h₂.plain⟩
          have hpre₃ : w₂.os.log <+: w'.os.log := by
            cases passed with
            | false =>
                obtain ⟨-, rfl⟩ := hrest
                exact List.prefix_rfl
            | true =>
                exact ((watchFiles_sound (S := {.watch}) rfl hl fuel _ _ _ h₃.wellIndexed).ok
                  hrest).1.log_extends
          have hout := walkEntries_passed (E := Tolerable) hz hn
            (fun name _ _ => ih _ (hbelow.subdirectory hnul name))
            (fun _ _ hne hname hlstat => (entry_passed hnul hne hname hlstat).imp_right And.left)
            h₁ hwalk
            (hpassed.part hpre₁ he₂.log_extends hpre₃) hs
          cases passed with
          | false =>
              obtain ⟨rfl, rfl⟩ := hrest
              exact hout
          | true =>
              have hne : (cstring (spelled (cstring path).bytes)).bytes ≠ root := by
                rw [bytes_cstring hnul]
                exact hbelow.ne
              exact watchFile_passed hz h₃ hrest hne
                (hpassed.part (hpre₁.trans he₂.log_extends) hpre₃ List.prefix_rfl)

end Walk

/-! ## A whole tree -/

/-- What the kernel says of `path` if it is a directory that it can watch. -/
def SysCall.Stands (path : Bytes) : SysCall → Prop
  | lstat p mode => p.bytes = path → ∃ m ∈ mode, m &&& sIfmt = sIfdir
  | addWatch p a => p.bytes = path → 0 < a
  | _ => True

instance (path : Bytes) : DecidablePred (SysCall.Stands path)
  | .lstat p mode => inferInstanceAs (Decidable (p.bytes = path → ∃ m ∈ mode, m &&& sIfmt = sIfdir))
  | .addWatch p a => inferInstanceAs (Decidable (p.bytes = path → 0 < a))
  | .inotifyInit _ | .rmWatch .. | .fanotifyInit _ | .fanotifyMark .. | .statfs .. | .openPath ..
  | .dup _ | .nameToHandleAt .. | .openByHandleAt _ | .readlinkFd _ | .faccessat _ | .opendir ..
  | .readdir .. | .ppoll _ | .fionread _ | .read .. => .isTrue trivial

/-- Between `w` and `w'` the path is a directory, and the kernel accepts a watch on it. -/
def Standing (path : Bytes) (w w' : World (Logged σ)) : Prop :=
  ∀ e ∈ callsBetween w w', e.call.Stands path

instance (path : Bytes) (w w' : World (Logged σ)) : Decidable (Standing path w w') :=
  inferInstanceAs (Decidable (∀ e ∈ callsBetween w w', e.call.Stands path))

omit [Sys σ] in
theorem Standing.part {path : Bytes} (h : Standing path w w') (h₁ : w.os.log <+: w₁.os.log)
    (h₂ : w₁.os.log <+: w₂.os.log) (h₃ : w₂.os.log <+: w'.os.log) : Standing path w₁ w₂ :=
  fun e he => h e (callsBetween_subset h₁ h₂ h₃ he)

/-- Between `w` and `w'` the kernel has been asked to watch `path`, and the handle has a watch under
    the descriptor that it answered. -/
def Covered (path : Bytes) (w w' : World (Logged σ)) : Prop :=
  ∃ e ∈ callsBetween w w', ∃ wd, e.call = .addWatch (cstring path) wd ∧ 0 < wd ∧
    ∃ id, w'.lib.store.byWd[wd]? = some id

theorem watchFile_covers (hz : ¬ AnsweredZero (Logged σ)) (h : Inotify w) {fuel : Nat} {p : Bytes}
    (hp : 0 ∉ p) {events : Int32} {ok : Bool} (hrun : watchFile fuel p events w = .ok (ok, w'))
    (hstands : Standing p w w') : ok = true ∧ Covered p w w' := by
  obtain ⟨⟨c, errno⟩, he, wd, rfl, hpos, -⟩ := watchFile_answer hz h hrun
  have hwd : 0 < wd := hstands _ he (bytes_cstring hp)
  exact ⟨(hpos hwd).1, _, he, wd, rfl, hwd, (hpos hwd).2⟩

omit [Sys σ] in
theorem entryOf_append {root name : Bytes} (hname : slash ∉ name) : EntryOf root (root ++ name) :=
  ⟨List.prefix_append _ _, by rwa [List.drop_left]⟩

omit [Sys σ] in
theorem below_subdirectory {root : Bytes} (hnul : 0 ∉ root) (name : CString) :
    Below root (spelled (cstring (root ++ name.bytes ++ [slash])).bytes) := by
  have hslash : (0 : UInt8) ≠ slash := by decide
  rw [bytes_cstring (by simp [hnul, name.noNul, hslash]), spelled_concat, List.append_assoc]
  refine ⟨List.prefix_append _ _, ?_⟩
  rw [List.drop_left]
  exact List.mem_append_right _ (List.mem_singleton_self _)

/-- **A walk that is not given up watches its root.** -/
theorem watchRecursively_covers (hz : ¬ AnsweredZero (Logged σ)) (hn : ProperNames σ) (h : Inotify w)
    {fuel : Nat} {path : Bytes} (hnul : 0 ∉ path) (hslash : path.getLast? = some slash)
    {events : Int32} {ok : Bool} (hrun : watchRecursively fuel path events w = .ok (ok, w'))
    (hstands : Standing path w w') (hpassed : AllPassed path w w') :
    ok = true ∧ Covered path w w' := by
  have hl : Kind.lifecycle ∉ ({.watch} : Set Kind) := nofun
  have hroot : spelled path = path := spelled_of_slash hslash
  have hbytes : (cstring path).bytes = path := bytes_cstring hnul
  cases fuel with
  | zero => cases hrun
  | succ fuel =>
      obtain ⟨dir, w₁, h₁, -, hlog, hrest⟩ := watchRecursivelyWithExclude_cases h hrun
      rw [hbytes, hroot] at hrest
      have hpre₁ : w.os.log <+: w₁.os.log := ⟨_, hlog.symm⟩
      -- whatever comes before, the last call is about the directory itself
      have hcovers : ∀ {v : World (Logged σ)}, Inotify v → w.os.log <+: v.os.log →
          watchFile fuel path events v = .ok (ok, w') → ok = true ∧ Covered path w w' := by
        intro v hv hprev hfile
        have hpre := ((watchFiles_sound (S := {.watch}) rfl hl fuel _ _ v hv.wellIndexed).ok
          hfile).1.log_extends
        have hcov := watchFile_covers hz hv hnul hfile (hstands.part hprev hpre List.prefix_rfl)
        exact ⟨hcov.1, hcov.2.imp fun e he =>
          ⟨callsBetween_subset hprev hpre List.prefix_rfl he.1, he.2⟩⟩
      cases dir with
      | none =>
          have hmem : ⟨.opendir (cstring path) none, Sys.errno w₁.os⟩ ∈ callsBetween w w₁ := by
            rw [callsBetween_eq hlog]
            exact List.mem_singleton_self _
          dsimp only at hrest
          split at hrest
          · exact hcovers h₁ hpre₁ hrest
          · next he =>
              obtain ⟨-, rfl⟩ := hrest
              exact absurd hbytes ((hpassed _ hmem).resolve_left he).2
      | some dir =>
          obtain ⟨passed, w₂, hwalk, hrest⟩ := hrest
          have hs : ∀ p, Sound {.watch}
              (watchRecursivelyWithExclude fuel p events [] : M (Logged σ) Bool) := fun p =>
            watchRecursivelyWithExclude_sound (S := {.watch}) rfl hl fuel p events []
          have he₂ := ((walkEntries_sound hs dir _ [] fuel w₁ h₁.wellIndexed).ok hwalk).1
          have h₂ := h₁.effects hz he₂ hl
          have h₃ : Inotify { w₂ with os := Sys.closedir dir w₂.os } :=
            ⟨h₂.initialized, h₂.mode, h₂.wellIndexed, h₂.plain⟩
          have hpre₃ : w₂.os.log <+: w'.os.log := by
            cases passed with
            | false =>
                obtain ⟨-, rfl⟩ := hrest
                exact List.prefix_rfl
            | true =>
                exact ((watchFiles_sound (S := {.watch}) rfl hl fuel _ _ _ h₃.wellIndexed).ok
                  hrest).1.log_extends
          have hout := walkEntries_passed (E := fun _ => False) hz hn
            (fun name _ _ => watchRecursivelyWithExclude_goesOn hz hn hroot fuel _ events []
              (below_subdirectory hnul name))
            (fun name _ hne hname hlstat => (entry_passed hnul hne hname hlstat).imp_right
              fun he => he.2 (entryOf_append hname)) h₁ hwalk
            (hpassed.part hpre₁ he₂.log_extends hpre₃) hs
          rw [hout.resolve_right id] at hrest
          exact hcovers h₃ (hpre₁.trans he₂.log_extends) hrest

end InotifyTools
