import InotifyTools.Implementation.Shifting
import InotifyTools.Proofs.WalkCalls

set_option autoImplicit false

/-! # The walk of a tree that changes meanwhile

Some directories stay as they are while a tree is walked; anything else may come and go between any two
calls. A walk that succeeds has watched all that stay if, and only if, no entry of one of them vanished
after it was read. -/

namespace InotifyTools

/-! ## Directories that stay -/

/-- The path of the directory `n` in `d`. -/
def within (d : Bytes) (n : CString) : Bytes := d ++ n.bytes ++ [slash]

/-- The directories `stays`, spelled with a trailing '/', are there all the time: they can be found,
    opened and read, the stream of each yields those in it once each, and the kernel refuses to watch
    one only for a reason a walk does not go on after. Nothing is said of anything else. -/
structure Lasting (σ : Type) [Sys σ] (ex : List Bytes) (root : Bytes) (stays : Bytes → Prop) where
  start : stays root
  root_spelled : ∃ p : CString, spelled p.bytes = root
  inside : ∀ d, stays d → d ≠ root → ∃ d₀ n, stays d₀ ∧ d = within d₀ n ∧
    n.bytes ≠ ascii "." ∧ n.bytes ≠ ascii ".." ∧ slash ∉ n.bytes ∧ isExcluded d ex = false
  /-- Of an open stream of such a directory, the directory and the names it has still to yield. -/
  reading : σ → Nat → Option (Bytes × Set CString)
  opendir : ∀ (p : CString) (os : σ), stays (spelled p.bytes) →
    ∃ dir, (Sys.opendir p os).1 = some dir ∧ reading os dir = none ∧
      reading (Sys.opendir p os).2 = Function.update (reading os) dir
        (some (spelled p.bytes, { n | slash ∉ n.bytes ∧ stays (within (spelled p.bytes) n) }))
  opendir_other : ∀ (p : CString) (os : σ), ¬ stays (spelled p.bytes) →
    (∀ dir, (Sys.opendir p os).1 = some dir → reading os dir = none) ∧
      reading (Sys.opendir p os).2 = reading os
  readdir : ∀ (dir : Nat) (os : σ) {d : Bytes} {c : Set CString} {n : CString},
    reading os dir = some (d, c) → (Sys.readdir dir os).1 = some n →
      (stays (within d n) → n ∈ c) ∧
        reading (Sys.readdir dir os).2 = Function.update (reading os) dir (some (d, c \ {n}))
  readdir_end : ∀ (dir : Nat) (os : σ) {d : Bytes} {c : Set CString},
    reading os dir = some (d, c) → (Sys.readdir dir os).1 = none →
      c = ∅ ∧ reading (Sys.readdir dir os).2 = reading os
  readdir_other : ∀ (dir : Nat) (os : σ), reading os dir = none →
    reading (Sys.readdir dir os).2 = reading os
  closedir : ∀ (dir : Nat) (os : σ),
    reading (Sys.closedir dir os) = Function.update (reading os) dir none
  lstat : ∀ (p : CString) (os : σ), stays (spelled p.bytes) →
    ∃ mode, (Sys.lstat p os).1 = some mode ∧ mode &&& sIfmt = sIfdir
  addWatch : ∀ (fd : Int32) (p : CString) (mask : UInt32) (os : σ), stays p.bytes →
    0 < (Sys.inotifyAddWatch fd p mask os).1 ∨ (Sys.inotifyAddWatch fd p mask os).1 = -1 ∧
      ¬ Tolerable (Sys.errno (Sys.inotifyAddWatch fd p mask os).2)
  untouched : Untouched reading

theorem within_inj {d p : Bytes} {n m : CString} (hn : slash ∉ n.bytes) (hm : slash ∉ m.bytes)
    (h : within d n <+: p) (h' : within d m <+: p) : n = m := by
  unfold within at h h'
  obtain ⟨rest, rfl⟩ : d <+: p := by
    rw [List.append_assoc] at h
    exact (List.prefix_append _ _).trans h
  rw [List.append_assoc, List.prefix_append_right_inj] at h h'
  exact CString.ext (by rw [← takeWhile_name hn h, takeWhile_name hm h'])

/-- A path is one directory in another in one way. -/
theorem within_eq {d d' : Bytes} {n m : CString} (hd : ∃ q, d = q ++ [slash])
    (hd' : ∃ q, d' = q ++ [slash]) (hn : slash ∉ n.bytes) (hm : slash ∉ m.bytes)
    (h : within d n = within d' m) : d = d' ∧ n = m := by
  obtain ⟨q, rfl⟩ := hd
  obtain ⟨q', rfl⟩ := hd'
  have hpaths : q ++ [slash] ++ n.bytes = q' ++ [slash] ++ m.bytes := (List.append_inj' h rfl).1
  have hup := prefix_of_prefix_name hm (hpaths ▸ List.prefix_append (q ++ [slash]) n.bytes)
  have hdown := prefix_of_prefix_name hn (hpaths.symm ▸ List.prefix_append (q' ++ [slash]) m.bytes)
  have hdirs := hup.eq_of_length_le hdown.length_le
  rw [← hdirs] at h
  exact ⟨hdirs, within_inj hn hm List.prefix_rfl (by rw [h])⟩

theorem prefix_within (d : Bytes) (n : CString) : d <+: within d n := by
  rw [within, List.append_assoc]
  exact List.prefix_append _ _

theorem within_ne (d : Bytes) (n : CString) : within d n ≠ d := by
  intro h
  have hlen := congrArg List.length h
  simp only [within, List.length_append, List.length_singleton] at hlen
  omega

namespace Lasting

variable {σ : Type} [Sys σ] {ex : List Bytes} {root : Bytes} {stays : Bytes → Prop}
  (s : Lasting σ ex root stays)

include s

/-- What holds of the root and, with a directory, of those in it, holds of all that stay. -/
theorem induct {P : ∀ d, stays d → Prop} (start : P root s.start)
    (inside : ∀ d n (hd : stays d) (hwithin : stays (within d n)), n.bytes ≠ ascii "." →
      n.bytes ≠ ascii ".." → slash ∉ n.bytes → isExcluded (within d n) ex = false → P d hd →
        P (within d n) hwithin) {d : Bytes} (hd : stays d) : P d hd := by
  induction hlen : d.length using Nat.strong_induction_on generalizing d with
  | _ k ih =>
      by_cases hne : d = root
      · subst hne
        exact start
      obtain ⟨d₀, n, hd₀, rfl, hdot, hdots, hn, hex⟩ := s.inside d hd hne
      have hlt : d₀.length < k := by
        rw [← hlen]
        simp [within]
      exact inside d₀ n hd₀ hd hdot hdots hn hex (ih _ hlt hd₀ rfl)

theorem concat {d : Bytes} (hd : stays d) : ∃ q, d = q ++ [slash] := by
  induction hd using s.induct with
  | start =>
      obtain ⟨p, rfl⟩ := s.root_spelled
      exact spelled_eq_concat _
  | inside d n => exact ⟨_, rfl⟩

theorem noNul {d : Bytes} (hd : stays d) : 0 ∉ d := by
  induction hd using s.induct with
  | start =>
      obtain ⟨p, rfl⟩ := s.root_spelled
      exact spelled_noNul p
  | inside d n _ _ _ _ _ _ ih => simp [within, ih, n.noNul, slash]

theorem extends_root {d : Bytes} (hd : stays d) : root <+: d := by
  induction hd using s.induct with
  | start => exact List.prefix_rfl
  | inside d n _ _ _ _ _ _ ih => exact ih.trans (prefix_within d n)

/-- The directories on the way to one that stays. -/
theorem upward {d e : Bytes} (he : stays e) (hroot : root <+: d) (hslash : ∃ q, d = q ++ [slash])
    (hd : d <+: e) : stays d := by
  induction he using s.induct with
  | start =>
      rw [hd.eq_of_length_le hroot.length_le]
      exact s.start
  | inside e n _ hstays _ _ hn _ ih =>
      rcases List.prefix_concat_iff.1 hd with heq | hpre
      · rw [heq]
        exact hstays
      · obtain ⟨q, rfl⟩ := hslash
        exact ih (prefix_of_prefix_name hn hpre)

/-- The first step on the way down. -/
theorem downward {d e : Bytes} (hd : stays d) (he : stays e) (hpre : d <+: e) (hne : e ≠ d) :
    ∃ n, slash ∉ n.bytes ∧ stays (within d n) ∧ within d n <+: e := by
  induction he using s.induct with
  | start => exact absurd (hpre.eq_of_length_le (s.extends_root hd).length_le).symm hne
  | inside e n _ hstays _ _ hn _ ih =>
      rcases List.prefix_concat_iff.1 hpre with heq | hpre
      · exact absurd heq.symm hne
      · obtain ⟨q, rfl⟩ := s.concat hd
        have hup := prefix_of_prefix_name hn hpre
        by_cases heq : e = q ++ [slash]
        · rw [heq] at hstays ⊢
          exact ⟨n, hn, hstays, List.prefix_rfl⟩
        · obtain ⟨m, hm, hstays, hmpre⟩ := ih hup heq
          exact ⟨m, hm, hstays, hmpre.trans (prefix_within e n)⟩

/-- What is known of a directory in another. -/
theorem within_proper {d : Bytes} {n : CString} (hd : stays d) (hn : slash ∉ n.bytes)
    (hwithin : stays (within d n)) : n.bytes ≠ ascii "." ∧ n.bytes ≠ ascii ".." ∧
      isExcluded (within d n) ex = false := by
  have hne : within d n ≠ root := by
    intro h
    have hlen := (s.extends_root hd).length_le
    rw [← h] at hlen
    simp only [within, List.length_append, List.length_singleton] at hlen
    omega
  obtain ⟨d₀, m, hd₀, heq, hdot, hdots, hm, hex⟩ := s.inside _ hwithin hne
  obtain ⟨-, rfl⟩ := within_eq (s.concat hd) (s.concat hd₀) hn hm heq
  exact ⟨hdot, hdots, hex⟩

end Lasting

/-! ## What a log says -/

/-- The path of a call that asks for a watch or finds nothing. -/
def SysCall.concerns : SysCall → Option Bytes
  | .addWatch p _ => some p.bytes
  | .lstat p none => some p.bytes
  | _ => none

/-- The kernel was asked to watch `d`. -/
def Asked (d : Bytes) (l : List Entry) : Prop := ∃ e ∈ l, ∃ p wd, e.call = .addWatch p wd ∧ p.bytes = d

/-- The kernel accepted to watch `d`. -/
def Accepted (d : Bytes) (l : List Entry) : Prop :=
  ∃ e ∈ l, ∃ p wd, e.call = .addWatch p wd ∧ p.bytes = d ∧ 0 < wd

/-- An entry of `d` was not found when it was looked at, although nothing forbade it. -/
def Vanished (d : Bytes) (l : List Entry) : Prop :=
  ∃ e ∈ l, ∃ p, e.call = .lstat p none ∧ e.errno ≠ eacces ∧ EntryOf d p.bytes

/-- Whether the entry `e` says that an entry of `d` vanished. -/
def Entry.misses (d : Bytes) (e : Entry) : Bool :=
  match e.call with
  | .lstat p none => e.errno ≠ eacces ∧ EntryOf d p.bytes
  | _ => false

theorem vanished_iff {d : Bytes} {l : List Entry} :
    l.any (Entry.misses d) = true ↔ Vanished d l := by
  rw [List.any_eq_true]
  refine exists_congr fun e => and_congr_right fun _ => ?_
  unfold Entry.misses
  split
  · next p hcall =>
      rw [decide_eq_true_iff, hcall]
      constructor
      · exact fun ⟨he, hentry⟩ => ⟨p, rfl, he, hentry⟩
      · rintro ⟨q, hq, he, hentry⟩
        cases hq
        exact ⟨he, hentry⟩
  · next hother =>
      refine ⟨fun h => Bool.noConfusion h, ?_⟩
      rintro ⟨p, hcall, -⟩
      exact absurd hcall (hother p)

instance (d : Bytes) (l : List Entry) : Decidable (Vanished d l) := decidable_of_iff _ vanished_iff

/-- Whatever was asked for or not found has a path beginning with `d`. -/
def Concerns (d : Bytes) (l : List Entry) : Prop :=
  ∀ e ∈ l, ∀ p, e.call.concerns = some p → d <+: p

theorem Accepted.mono {d : Bytes} {l l' : List Entry} (h : Accepted d l) (hl : l ⊆ l') :
    Accepted d l' := by
  obtain ⟨e, he, hcall⟩ := h
  exact ⟨e, hl he, hcall⟩

theorem Accepted.asked {d : Bytes} {l : List Entry} (h : Accepted d l) : Asked d l := by
  obtain ⟨e, he, p, wd, hcall, hp, -⟩ := h
  exact ⟨e, he, p, wd, hcall, hp⟩

theorem Vanished.mono {d : Bytes} {l l' : List Entry} (h : Vanished d l) (hl : l ⊆ l') :
    Vanished d l' := by
  obtain ⟨e, he, hcall⟩ := h
  exact ⟨e, hl he, hcall⟩

theorem asked_append {d : Bytes} {l l' : List Entry} :
    Asked d (l ++ l') ↔ Asked d l ∨ Asked d l' := by
  simp only [Asked, List.mem_append, or_and_right, exists_or]

theorem vanished_append {d : Bytes} {l l' : List Entry} :
    Vanished d (l ++ l') ↔ Vanished d l ∨ Vanished d l' := by
  simp only [Vanished, List.mem_append, or_and_right, exists_or]

theorem concerns_append {d : Bytes} {l l' : List Entry} :
    Concerns d (l ++ l') ↔ Concerns d l ∧ Concerns d l' := by
  simp only [Concerns, List.mem_append, or_imp, forall_and]

theorem Concerns.nil (d : Bytes) : Concerns d [] := fun _ he => by cases he

theorem Concerns.weaken {d d' : Bytes} {l : List Entry} (h : Concerns d l) (hd : d' <+: d) :
    Concerns d' l := fun e he p hp => hd.trans (h e he p hp)

/-- Who asks for `d` looks below what the calls concern. -/
theorem Concerns.asked {d d' : Bytes} {l : List Entry} (h : Concerns d l) (ha : Asked d' l) :
    d <+: d' := by
  obtain ⟨e, he, p, wd, hcall, rfl⟩ := ha
  exact h e he _ (by rw [hcall]; rfl)

theorem Vanished.concerns {d : Bytes} {l : List Entry} (h : Vanished d l) :
    ∃ e ∈ l, ∃ p, e.call.concerns = some p ∧ EntryOf d p := by
  obtain ⟨e, he, p, hcall, -, hentry⟩ := h
  exact ⟨e, he, p.bytes, by rw [hcall]; rfl, hentry⟩

/-- A directory whose entry is looked at is not above what the calls concern. -/
theorem Concerns.vanished {d d' q : Bytes} {l : List Entry} (h : Concerns d l) (hd : d = q ++ [slash])
    (hv : Vanished d' l) : d <+: d' := by
  obtain ⟨e, he, p, hp, hentry⟩ := hv.concerns
  obtain ⟨name, rfl⟩ := hentry.1
  have hname : slash ∉ name := by
    have hdrop := hentry.2
    rwa [List.drop_left] at hdrop
  have hpre := h e he _ hp
  rw [hd] at hpre ⊢
  exact prefix_of_prefix_name hname hpre

/-- A call that asks for no watch and does find what it looks at. -/
def Quiet (l : List Entry) : Prop := ∀ e ∈ l, e.call.concerns = none

theorem Quiet.concerns {l : List Entry} (h : Quiet l) (d : Bytes) : Concerns d l :=
  fun e he p hp => by rw [h e he] at hp; cases hp

theorem Quiet.not_asked {l : List Entry} (h : Quiet l) (d : Bytes) : ¬ Asked d l := by
  rintro ⟨e, he, p, wd, hcall, -⟩
  have hnone := h e he
  rw [hcall] at hnone
  cases hnone

theorem Quiet.not_vanished {l : List Entry} (h : Quiet l) (d : Bytes) : ¬ Vanished d l := by
  rintro hv
  obtain ⟨e, he, p, hp, -⟩ := hv.concerns
  rw [h e he] at hp
  cases hp

/-! ## Going through a directory -/

/-- No entry vanished of `d` or of a directory on the way to it. -/
def Intact (stays : Bytes → Prop) (d : Bytes) (l : List Entry) : Prop :=
  ∀ e, stays e → e <+: d → ¬ Vanished e l

theorem Intact.anti {stays : Bytes → Prop} {d : Bytes} {l l' : List Entry}
    (h : Intact stays d l') (hl : l ⊆ l') : Intact stays d l :=
  fun e he hpre hv => h e he hpre (hv.mono hl)

/-- How the names `c` of the directory `d` were gone through by the calls `new`. -/
structure Swept (stays : Bytes → Prop) (d : Bytes) (c : Set CString) (new : List Entry) (ok : Bool)
    (error : Int32) : Prop where
  concerns : Concerns d new
  unasked : ¬ Asked d new
  /-- It came to the end, or an entry vanished, or it was given up for good. -/
  covers : (ok = true ∧ ∀ n ∈ c, ∀ e, stays e → within d n <+: e → Intact stays e new →
    Accepted e new) ∨ ok = false ∧ (Vanished d new ∨ ¬ Tolerable error)
  stops : Vanished d new → ok = false
  skips : ∀ e, stays e → e ≠ d → Vanished e new → ¬ Asked e new
  elsewhere : ∀ n, slash ∉ n.bytes → n ∉ c → stays (within d n) → ∀ e ∈ new, ∀ p,
    e.call.concerns = some p → ¬ within d n <+: p

/-- How a walk of the directory `d` with the calls `new` ended. -/
structure Ended (stays : Bytes → Prop) (d : Bytes) (new : List Entry) (ok : Bool) (error : Int32) :
    Prop where
  concerns : Concerns d new
  covers : stays d → (ok = true ∧ ∀ e, stays e → d <+: e → Intact stays e new →
    Accepted e new) ∨ ok = false ∧ (Vanished d new ∨ ¬ Tolerable error)
  stops : stays d → Vanished d new → ok = false
  skips : ∀ e, stays e → Vanished e new → ¬ Asked e new

namespace Swept

variable {stays : Bytes → Prop} {d : Bytes} {c c' : Set CString} {new new' : List Entry} {ok : Bool}
  {error error' : Int32}

/-- Calls that are no matter. -/
theorem quiet (h : Quiet new) (hc : ∀ n ∈ c, ∀ e, stays e → ¬ within d n <+: e) :
    Swept stays d c new true error where
  concerns := h.concerns d
  unasked := h.not_asked d
  covers := .inl ⟨rfl, fun n hn e he hpre => absurd hpre (hc n hn e he)⟩
  stops hv := absurd hv (h.not_vanished d)
  skips e _ _ hv := absurd hv (h.not_vanished e)
  elsewhere _ _ _ _ e he p hp := by rw [h e he] at hp; cases hp

/-- Only what stays counts, and after a failure nothing more. -/
theorem mono (h : Swept stays d c new ok error) (hsub : ∀ n, stays (within d n) → n ∈ c → n ∈ c')
    (hback : ok = true → ∀ n ∈ c', n ∈ c) : Swept stays d c' new ok error where
  concerns := h.concerns
  unasked := h.unasked
  covers := h.covers.imp_left fun ⟨hok, haccepted⟩ =>
    ⟨hok, fun n hn => haccepted n (hback hok n hn)⟩
  stops := h.stops
  skips := h.skips
  elsewhere n hname hn hstays := h.elsewhere n hname (fun hc => hn (hsub n hstays hc)) hstays

variable {σ : Type} [Sys σ] {ex : List Bytes} {root : Bytes} (s : Lasting σ ex root stays)

include s in
/-- A directory whose entry vanished while `c` was gone through is `d` or lies below a name in `c`. -/
theorem vanished_below (h : Swept stays d c new ok error) (hd : stays d) {e : Bytes} (he : stays e)
    (hv : Vanished e new) (hne : e ≠ d) : ∃ n ∈ c, slash ∉ n.bytes ∧ within d n <+: e := by
  obtain ⟨q, hq⟩ := s.concat hd
  obtain ⟨n, hname, hn, hpre⟩ := s.downward hd he (h.concerns.vanished hq hv) hne
  refine ⟨n, ?_, hname, hpre⟩
  by_contra hc
  obtain ⟨entry, hentry, p, hp, hof⟩ := hv.concerns
  exact h.elsewhere n hname hc hn entry hentry p hp (hpre.trans hof.1)

include s in
/-- No directory below the names in `c` is asked for while others are gone through. -/
theorem not_asked (h : Swept stays d c new ok error) (hd : stays d) {n : CString}
    (hname : slash ∉ n.bytes) (hn : n ∉ c) {e : Bytes} (he : stays e) (hpre : within d n <+: e) : ¬ Asked e new := by
  rintro ⟨entry, hentry, p, wd, hcall, rfl⟩
  have hstays : stays (within d n) :=
    s.upward he ((s.extends_root hd).trans (prefix_within d n)) ⟨_, rfl⟩ hpre
  exact h.elsewhere n hname hn hstays entry hentry p.bytes (by rw [hcall]; rfl) hpre

include s in
/-- Some names and then others. -/
theorem append (hd : stays d) (h : Swept stays d c new true error)
    (h' : Swept stays d c' new' ok error') (hdisj : ∀ n ∈ c, n ∉ c') :
    Swept stays d (c ∪ c') (new ++ new') ok error' where
  concerns := concerns_append.2 ⟨h.concerns, h'.concerns⟩
  unasked ha := (asked_append.1 ha).elim h.unasked h'.unasked
  covers := by
    obtain ⟨-, haccepted⟩ := h.covers.resolve_right fun hno => by cases hno.1
    refine h'.covers.imp (fun ⟨hok, haccepted'⟩ => ⟨hok, ?_⟩) fun ⟨hok, hgone⟩ =>
      ⟨hok, hgone.imp_left fun hv => vanished_append.2 (.inr hv)⟩
    rintro n (hn | hn) e he hpre hclear
    · exact (haccepted n hn e he hpre (hclear.anti (List.subset_append_left _ _))).mono
        (List.subset_append_left _ _)
    · exact (haccepted' n hn e he hpre (hclear.anti (List.subset_append_right _ _))).mono
        (List.subset_append_right _ _)
  stops hv := by
    rcases vanished_append.1 hv with hv | hv
    · cases h.stops hv
    · exact h'.stops hv
  skips e he hne hv ha := by
    -- what vanished lies below a name of one part, and the other part leaves that name alone
    rcases vanished_append.1 hv with hv | hv
    · obtain ⟨n, hn, hname, hpre⟩ := h.vanished_below s hd he hv hne
      rcases asked_append.1 ha with ha | ha
      · exact h.skips e he hne hv ha
      · exact h'.not_asked s hd hname (hdisj n hn) he hpre ha
    · obtain ⟨n, hn, hname, hpre⟩ := h'.vanished_below s hd he hv hne
      rcases asked_append.1 ha with ha | ha
      · exact h.not_asked s hd hname (fun hc => hdisj n hc hn) he hpre ha
      · exact h'.skips e he hne hv ha
  elsewhere n hname hn hstays e he p hp := by
    rw [Set.mem_union, not_or] at hn
    rcases List.mem_append.1 he with he | he
    · exact h.elsewhere n hname hn.1 hstays e he p hp
    · exact h'.elsewhere n hname hn.2 hstays e he p hp

end Swept

section Directory

variable {σ : Type} [Sys σ] {ex : List Bytes} {root d : Bytes} {stays : Bytes → Prop}
  (s : Lasting σ ex root stays) {new : List Entry} {ok : Bool} {error : Int32}

include s

/-- Of a directory that does not stay, nothing matters but its path. -/
theorem Lasting.ended_other (hd : ¬ stays d) (hroot : root <+: d) (hslash : ∃ q, d = q ++ [slash])
    (h : Concerns d new) : Ended stays d new ok error where
  concerns := h
  covers hstays := absurd hstays hd
  stops hstays := absurd hstays hd
  skips e he hv := by
    obtain ⟨q, hq⟩ := hslash
    exact absurd (s.upward he hroot ⟨q, hq⟩ (h.vanished hq hv)) hd

/-- A directory is entered after its entry was found. -/
theorem Ended.swept {n : CString} (hd : stays d) (hn : slash ∉ n.bytes)
    (h : Ended stays (within d n) new ok error) {found : List Entry} (hfound : Quiet found) :
    Swept stays d {n} (found ++ new) (ok || decide (Tolerable error)) error := by
  have hasked : ∀ {e}, Asked e (found ++ new) → Asked e new := fun ha =>
    (asked_append.1 ha).resolve_left (hfound.not_asked _)
  have hvanished : ∀ {e}, Vanished e (found ++ new) → Vanished e new := fun hv =>
    (vanished_append.1 hv).resolve_left (hfound.not_vanished _)
  refine ⟨concerns_append.2 ⟨hfound.concerns d, h.concerns.weaken (prefix_within d n)⟩, fun ha => ?_,
    ?_, fun hv => ?_, fun e he _ hv ha => h.skips e he (hvanished hv) (hasked ha),
    fun m hm hc hstays e he p hp hpre => ?_⟩
  · exact within_ne d n ((h.concerns.asked (hasked ha)).eq_of_length_le
      (prefix_within d n).length_le)
  · by_cases hstays : stays (within d n)
    · rcases h.covers hstays with ⟨hok, haccepted⟩ | ⟨hok, hgone⟩
      · refine .inl ⟨by rw [hok, Bool.true_or], fun m hm e he hpre hclear => ?_⟩
        rw [Set.mem_singleton_iff.1 hm] at hpre
        exact (haccepted e he hpre (hclear.anti (List.subset_append_right _ _))).mono
          (List.subset_append_right _ _)
      · rw [hok, Bool.false_or]
        by_cases htol : Tolerable error
        · -- the walk goes on after it, and below nothing is undisturbed
          refine .inl ⟨decide_eq_true htol, fun m hm e he hpre hclear => ?_⟩
          rw [Set.mem_singleton_iff.1 hm] at hpre
          exact absurd (vanished_append.2 (.inr (hgone.resolve_right (not_not.2 htol))))
            (hclear _ hstays hpre)
        · exact .inr ⟨decide_eq_false htol, .inr htol⟩
    · by_cases hgo : (ok || decide (Tolerable error)) = true
      · refine .inl ⟨hgo, fun m hm e he hpre => ?_⟩
        rw [Set.mem_singleton_iff.1 hm] at hpre
        exact absurd (s.upward he ((s.extends_root hd).trans (prefix_within d n)) ⟨_, rfl⟩ hpre) hstays
      · rw [Bool.not_eq_true] at hgo
        exact .inr ⟨hgo, .inr (of_decide_eq_false (Bool.or_eq_false_iff.1 hgo).2)⟩
  · exact absurd ((h.concerns.vanished rfl (hvanished hv)).eq_of_length_le
      (prefix_within d n).length_le) (within_ne d n)
  · rcases List.mem_append.1 he with he | he
    · rw [hfound e he] at hp
      cases hp
    · exact hc (within_inj hm hn hpre (h.concerns e he p hp))

/-- An entry that is not there. -/
theorem Lasting.swept_missing {n : CString} (hd : stays d) (hne : n.bytes ≠ []) (hn : slash ∉ n.bytes)
    {os : σ} (hnone : (Sys.lstat (cstring (d ++ n.bytes)) os).1 = none) :
    Swept stays d {n} [lookedAt (cstring (d ++ n.bytes)) os]
      (decide ((lookedAt (cstring (d ++ n.bytes)) os).errno = eacces)) error := by
  have hnul := s.noNul hd
  have hbytes : (cstring (d ++ n.bytes)).bytes = d ++ n.bytes :=
    bytes_cstring (by simp [hnul, n.noNul])
  -- an entry that lstat does not find is none that stays
  have hlost : ¬ stays (within d n) := by
    intro hstays
    obtain ⟨mode, hmode, -⟩ := s.lstat (cstring (d ++ n.bytes)) os
      (by rwa [hbytes, spelled_name hne hn])
    rw [hnone] at hmode
    cases hmode
  have hcall : ∀ e ∈ [lookedAt (cstring (d ++ n.bytes)) os],
      e = lookedAt (cstring (d ++ n.bytes)) os ∧ e.call.concerns = some (d ++ n.bytes) := by
    intro e he
    cases List.mem_singleton.1 he
    refine ⟨rfl, ?_⟩
    rw [lookedAt, hnone]
    exact congrArg some hbytes
  have hasked : ∀ e, ¬ Asked e [lookedAt (cstring (d ++ n.bytes)) os] := by
    rintro e ⟨entry, hentry, p, wd, hadd, -⟩
    rw [(hcall entry hentry).1] at hadd
    cases hadd
  have hvanished : (lookedAt (cstring (d ++ n.bytes)) os).errno ≠ eacces →
      Vanished d [lookedAt (cstring (d ++ n.bytes)) os] := fun he =>
    ⟨_, List.mem_singleton_self _, cstring (d ++ n.bytes), by rw [lookedAt, hnone], he, by
      rw [hbytes]
      exact entryOf_append hn⟩
  refine ⟨fun e he p hp => ?_, hasked d, ?_, fun hv => ?_, fun e _ _ _ => hasked e,
    fun m hm hc hstays e he p hp hpre => ?_⟩
  · rw [(hcall e he).2] at hp
    cases hp
    exact List.prefix_append _ _
  · by_cases he : (lookedAt (cstring (d ++ n.bytes)) os).errno = eacces
    · refine .inl ⟨decide_eq_true he, fun m hm e hstays hpre => ?_⟩
      rw [Set.mem_singleton_iff.1 hm] at hpre
      exact absurd (s.upward hstays ((s.extends_root hd).trans (prefix_within d n)) ⟨_, rfl⟩ hpre)
        hlost
    · exact .inr ⟨decide_eq_false he, .inl (hvanished he)⟩
  · obtain ⟨e, he, p, -, hne, -⟩ := hv
    rw [(hcall e he).1] at hne
    exact decide_eq_false hne
  · rw [(hcall e he).2] at hp
    cases hp
    have hlen := (prefix_of_prefix_name hn hpre).length_le
    simp only [List.length_append, List.length_singleton] at hlen
    omega

/-- What the walk does with the entry `n` of `d`. -/
theorem walkEntry_swept {descend : Bytes → M (Logged σ) Bool} {n : CString} (hnul : 0 ∉ d)
    (hne : n.bytes ≠ []) (hn : slash ∉ n.bytes) (hdescend : ∀ w ok w', Inotify w →
      descend (within d n) w = .ok (ok, w') →
        ∃ new, Made s.reading new w w' ∧ Ended stays (within d n) new ok w'.lib.error)
    {w w' : World (Logged σ)} (h : Inotify w)
    (hrun : walkEntry descend d ex n.bytes w = .ok (ok, w')) :
    ∃ new, Made s.reading new w w' ∧ Concerns d new ∧
      (stays d → Swept stays d {n} new ok w'.lib.error) := by
  let p := cstring (d ++ n.bytes)
  have hbytes : p.bytes = d ++ n.bytes := bytes_cstring (by simp [hnul, n.noNul])
  let w₁ : World (Logged σ) := { w with os := (Logged.enter (Sys.lstat p) (.lstat p) w.os).2 }
  have hlook : Made s.reading [lookedAt p w.os.os] w w₁ :=
    .call (.lstat p) h (s.untouched.lstat _ _)
  have hcall : call (Sys.lstat p) w = .ok ((Sys.lstat p w.os.os).1, w₁) := rfl
  unfold walkEntry at hrun
  rw [Prog.bind_run_ok hcall] at hrun
  cases hmode : (Sys.lstat p w.os.os).1 with
  | none =>
      rw [hmode] at hrun
      cases hrun
      refine ⟨_, hlook.trans (.error hlook.inotify _), ?_⟩
      rw [List.append_nil]
      refine ⟨fun e he q hq => ?_, fun hd => s.swept_missing hd hne hn hmode⟩
      cases List.mem_singleton.1 he
      rw [lookedAt, hmode] at hq
      cases hq
      rw [hbytes]
      exact List.prefix_append _ _
  | some mode =>
      rw [hmode] at hrun
      have hfound : Quiet [lookedAt p w.os.os] := by
        intro e he
        cases List.mem_singleton.1 he
        rw [lookedAt, hmode]
        rfl
      -- a name that is passed over is none that stays
      have hpass : (stays d → ¬ stays (within d n)) →
          (pure true : M (Logged σ) Bool) w₁ = .ok (ok, w') →
          ∃ new, Made s.reading new w w' ∧ Concerns d new ∧
            (stays d → Swept stays d {n} new ok w'.lib.error) := by
        intro hlost hend
        obtain ⟨rfl, rfl⟩ := Prod.mk.inj (Except.ok.inj hend)
        refine ⟨_, hlook, hfound.concerns d, fun hd => .quiet hfound fun m hm e he hpre => ?_⟩
        rw [Set.mem_singleton_iff.1 hm] at hpre
        exact hlost hd (s.upward he ((s.extends_root hd).trans (prefix_within d n)) ⟨_, rfl⟩ hpre)
      dsimp only at hrun
      by_cases hdir : mode &&& sIfmt ≠ sIfdir
      · rw [if_pos hdir] at hrun
        refine hpass (fun _ hstays => hdir ?_) hrun
        obtain ⟨mode', hmode', hisdir⟩ := s.lstat p w.os.os
          (by rwa [hbytes, spelled_name hne hn])
        rw [hmode] at hmode'
        cases hmode'
        exact hisdir
      rw [if_neg hdir] at hrun
      by_cases hex : isExcluded (d ++ n.bytes ++ [slash]) ex = true
      · rw [if_pos hex] at hrun
        refine hpass (fun hd hstays => ?_) hrun
        exact Bool.false_ne_true ((s.within_proper hd hn hstays).2.2.symm.trans hex)
      rw [if_neg hex] at hrun
      obtain ⟨status, w₂, hrec, hrest⟩ := Prog.bind_ok hrun
      obtain ⟨new, hmade, hended⟩ := hdescend _ _ _ hlook.inotify hrec
      cases hrest
      exact ⟨_, hlook.trans hmade, concerns_append.2 ⟨hfound.concerns d,
        hended.concerns.weaken (prefix_within d n)⟩, fun hd => hended.swept s hd hn hfound⟩

/-- The `readdir` loop of the walk of `d`. -/
theorem walkEntries_swept (hproper : ProperNames σ) {descend : Bytes → M (Logged σ) Bool}
    (hnul : 0 ∉ d) (hdescend : ∀ n : CString, slash ∉ n.bytes → ∀ w ok w', Inotify w →
      descend (within d n) w = .ok (ok, w') →
        ∃ new, Made s.reading new w w' ∧ Ended stays (within d n) new ok w'.lib.error)
    {dir fuel : Nat} {w w' : World (Logged σ)} (h : Inotify w)
    (hrun : walkEntries descend dir d ex fuel w = .ok (ok, w')) :
    ∃ new, Made ((fun r => Function.update r dir none) ∘ s.reading) new w w' ∧ Concerns d new ∧
      (stays d → ∀ c, s.reading w.os.os dir = some (d, c) →
        Swept stays d c new ok w'.lib.error) := by
  induction fuel generalizing w with
  | zero => cases hrun
  | succ fuel ih =>
      let closed : (Nat → Option (Bytes × Set CString)) → Nat → Option (Bytes × Set CString) :=
        fun r => Function.update r dir none
      let w₁ : World (Logged σ) :=
        { w with os := (Logged.enter (Sys.readdir dir) (.readdir dir) w.os).2 }
      have hcall : call (Sys.readdir dir) w = .ok ((Sys.readdir dir w.os.os).1, w₁) := rfl
      -- whatever stream it is, reading it changes no other
      have hothers : closed (s.reading (Sys.readdir dir w.os.os).2) = closed (s.reading w.os.os) := by
        cases hstream : s.reading w.os.os dir with
        | none => rw [s.readdir_other dir w.os.os hstream]
        | some r =>
            obtain ⟨d', c⟩ := r
            cases hname : (Sys.readdir dir w.os.os).1 with
            | none => rw [(s.readdir_end dir w.os.os hstream hname).2]
            | some n =>
                rw [(s.readdir dir w.os.os hstream hname).2]
                exact Function.update_idem ..
      have hread : Made (closed ∘ s.reading) _ w w₁ := .call (.readdir dir) h hothers
      have hquiet : Quiet [⟨.readdir dir (Sys.readdir dir w.os.os).1,
          Sys.errno (Sys.readdir dir w.os.os).2⟩] := by
        intro e he
        cases List.mem_singleton.1 he
        rfl
      unfold walkEntries at hrun
      rw [Prog.bind_run_ok hcall] at hrun
      cases hname : (Sys.readdir dir w.os.os).1 with
      | none =>
          rw [hname] at hrun
          obtain ⟨rfl, rfl⟩ := Prod.mk.inj (Except.ok.inj hrun)
          refine ⟨_, hread, hquiet.concerns d, fun hd c hstream => ?_⟩
          rw [(s.readdir_end dir w.os.os hstream hname).1]
          exact .quiet hquiet fun n hn => by cases hn
      | some n =>
          rw [hname] at hrun
          obtain ⟨hne, hn⟩ := hproper dir w.os.os n hname
          obtain ⟨passed, w₂, hentry, hrest⟩ := Prog.bind_ok hrun
          obtain ⟨new, hmade, hconcerns, hswept⟩ : ∃ new, Made s.reading new w₁ w₂ ∧ Concerns d new ∧
              (stays d → Swept stays d {n} new passed w₂.lib.error) := by
            split at hentry
            · exact walkEntry_swept s hnul hne hn (hdescend n hn) hread.inotify hentry
            · next hdots =>
                obtain ⟨rfl, rfl⟩ := Prod.mk.inj (Except.ok.inj hentry)
                refine ⟨[], .refl hread.inotify, .nil d, fun hd => .quiet (fun e he => by cases he)
                  fun m hm e he hpre => hdots ?_⟩
                rw [Set.mem_singleton_iff.1 hm] at hpre
                have hstays := s.upward he ((s.extends_root hd).trans (prefix_within d n)) ⟨_, rfl⟩ hpre
                obtain ⟨hdot, hdotdot, -⟩ := s.within_proper hd hn hstays
                exact ⟨hdot, hdotdot⟩
          have hentered := hread.trans (hmade.map closed)
          -- the names that stay and are yet to come, this one among them
          have hnames : ∀ {c}, s.reading w.os.os dir = some (d, c) → ∀ m, stays (within d m) →
              m ∈ ({n} : Set CString) → m ∈ c := by
            intro c hstream m hstays hm
            rw [Set.mem_singleton_iff.1 hm] at hstays ⊢
            exact (s.readdir dir w.os.os hstream hname).1 hstays
          have hfirst : stays d → Swept stays d {n} (_ ++ new) passed w₂.lib.error := fun hd => by
            have hnone : Swept stays d ∅ _ true 0 := .quiet hquiet fun n hn => by cases hn
            have hboth := hnone.append s hd (hswept hd) (fun _ hn => by cases hn)
            rwa [Set.empty_union] at hboth
          cases passed with
          | false =>
              obtain ⟨rfl, rfl⟩ := Prod.mk.inj (Except.ok.inj hrest)
              exact ⟨_, hentered, concerns_append.2 ⟨hquiet.concerns d, hconcerns⟩,
                fun hd c hstream => (hfirst hd).mono (hnames hstream) fun hok => by cases hok⟩
          | true =>
              let w₃ : World (Logged σ) := { w₂ with lib := { w₂.lib with error := 0 } }
              have hcleared := hentered.trans (.error hentered.inotify 0)
              rw [List.append_nil] at hcleared
              obtain ⟨rest, hmade', hconcerns', hswept'⟩ := ih (w := w₃) hcleared.inotify hrest
              refine ⟨_, hcleared.trans hmade', concerns_append.2
                ⟨concerns_append.2 ⟨hquiet.concerns d, hconcerns⟩, hconcerns'⟩, fun hd c hstream => ?_⟩
              have hleft : s.reading w₃.os.os dir = some (d, c \ {n}) := by
                show s.reading w₂.os.os dir = _
                rw [hmade.view]
                show s.reading (Sys.readdir dir w.os.os).2 dir = _
                rw [(s.readdir dir w.os.os hstream hname).2, Function.update_self]
              refine ((hfirst hd).append s hd (hswept' hd _ hleft) (fun m hm hc => hc.2 hm)).mono
                (fun m hstays hm => ?_) fun _ m hm => ?_
              · exact hm.elim (hnames hstream m hstays) fun hm => hm.1
              · by_cases he : m = n
                · exact .inl he
                · exact .inr ⟨hm, he⟩

omit [Sys σ] s in
/-- What is given up is not asked for. -/
theorem Swept.given_up {c : Set CString} (h : Swept stays d c new false error) :
    Ended stays d new false error where
  concerns := h.concerns
  covers _ := h.covers.imp_left fun hno => by cases hno.1
  stops _ _ := rfl
  skips e he hv := by
    by_cases hne : e = d
    · rw [hne]
      exact h.unasked
    · exact h.skips e he hne hv

/-- Watching `d` after what is in it. -/
theorem watchFile_ended (hd : stays d) {c : Set CString} (hswept : Swept stays d c new true error)
    (hc : ∀ n : CString, slash ∉ n.bytes → stays (within d n) → n ∈ c) {fuel : Nat} {events : Int32} {w w' : World (Logged σ)}
    (h : Inotify w) (hrun : watchFile fuel d events w = .ok (ok, w')) :
    ∃ last, Made s.reading last w w' ∧ Ended stays d (new ++ last) ok w'.lib.error := by
  let p : CString := ⟨d, s.noNul hd⟩
  let asked := askedFor w.lib.fd p events w.os.os
  have hasked : asked.call.concerns = some d := rfl
  -- whatever the answer is, the last calls look for nothing in vain
  have hends : ∀ {last}, (∀ e ∈ last, e = asked ∨ e.call.concerns = none) →
      ((ok = true ∧ Accepted d last) ∨ ok = false ∧ ¬ Tolerable w'.lib.error) → Ended stays d (new ++ last) ok w'.lib.error := by
    intro last hlast hanswer
    have hvanished : ∀ {e}, Vanished e (new ++ last) → Vanished e new := by
      intro e hv
      refine (vanished_append.1 hv).resolve_right ?_
      rintro ⟨entry, he, q, hcall, -⟩
      rcases hlast entry he with rfl | hnone
      · cases hcall
      · rw [hcall] at hnone
        cases hnone
    have hno : ¬ Vanished d (new ++ last) := fun hv => by cases hswept.stops (hvanished hv)
    refine ⟨concerns_append.2 ⟨hswept.concerns, fun e he q hq => ?_⟩, fun _ => ?_,
      fun _ hv => absurd hv hno, fun e he hv ha => ?_⟩
    · rcases hlast e he with rfl | hnone
      · rw [hasked] at hq
        cases hq
        exact List.prefix_rfl
      · rw [hnone] at hq
        cases hq
    · refine hanswer.imp (fun ⟨hok, haccepted⟩ => ⟨hok, fun e he hpre hclear => ?_⟩)
        fun ⟨hok, htol⟩ => ⟨hok, .inr htol⟩
      by_cases hne : e = d
      · rw [hne]
        exact haccepted.mono (List.subset_append_right _ _)
      · obtain ⟨n, hn, hstays, hdown⟩ := s.downward hd he hpre hne
        obtain ⟨-, hall⟩ := hswept.covers.resolve_right fun hno => by cases hno.1
        exact (hall n (hc n hn hstays) e he hdown
          (hclear.anti (List.subset_append_left _ _))).mono (List.subset_append_left _ _)
    · have hne : e ≠ d := fun he => hno (he ▸ hv)
      rcases asked_append.1 ha with ha | ⟨entry, he, q, wd, hcall, hq⟩
      · exact hswept.skips e he hne (hvanished hv) ha
      · rcases hlast entry he with rfl | hnone
        · cases hcall
          exact hne hq.symm
        · rw [hcall] at hnone
          cases hnone
  rcases s.addWatch w.lib.fd p events.toUInt32 w.os.os hd with hpos | ⟨hneg, htol⟩
  · obtain ⟨w'', hfile, hmade⟩ := watchFile_accepted s.untouched fuel p events h hpos
    obtain ⟨rfl, rfl⟩ := Prod.mk.inj (Except.ok.inj (hfile.symm.trans hrun))
    refine ⟨_, hmade, hends (fun e he => ?_) (.inl ⟨rfl, asked, List.mem_cons_self .., p, _, rfl,
      rfl, hpos⟩)⟩
    rcases List.mem_cons.1 he with rfl | he
    · exact .inl rfl
    · refine .inr ?_
      obtain ⟨q, hq⟩ := s.concat hd
      obtain ⟨mode, hmode, -⟩ := s.lstat p
        (Sys.inotifyAddWatch w.lib.fd p events.toUInt32 w.os.os).2 (by
          show stays (spelled d)
          rwa [hq, spelled_concat, ← hq])
      rw [List.mem_singleton.1 he, lookedAt, hmode]
      rfl
  · have hlt : (Sys.inotifyAddWatch w.lib.fd p events.toUInt32 w.os.os).1 < 0 := by
      rw [hneg]
      decide
    obtain ⟨w'', hfile, hmade, herror⟩ := watchFile_turnedDown s.untouched fuel p events h hlt
    obtain ⟨rfl, rfl⟩ := Prod.mk.inj (Except.ok.inj (hfile.symm.trans hrun))
    refine ⟨_, hmade, hends (fun e he => .inl (List.mem_singleton.1 he)) (.inr ⟨rfl, ?_⟩)⟩
    rw [herror hneg]
    exact htol

/-- A file that is no directory is watched alone. -/
theorem Lasting.watchFile_concerns (hz : ¬ AnsweredZero σ) (p : CString) {fuel : Nat} {events : Int32}
    {w w' : World (Logged σ)} (h : Inotify w)
    (hrun : watchFile fuel p.bytes events w = .ok (ok, w')) :
    ∃ new, Made s.reading new w w' ∧ Concerns p.bytes new := by
  have hasked : Concerns p.bytes [askedFor w.lib.fd p events w.os.os] := by
    intro e he q hq
    cases List.mem_singleton.1 he
    cases hq
    exact List.prefix_rfl
  have hne : (Sys.inotifyAddWatch w.lib.fd p events.toUInt32 w.os.os).1 ≠ 0 := fun he =>
    hz ⟨_, _, _, _, he⟩
  by_cases hpos : 0 < (Sys.inotifyAddWatch w.lib.fd p events.toUInt32 w.os.os).1
  · obtain ⟨w'', hfile, hmade⟩ := watchFile_accepted s.untouched fuel p events h hpos
    obtain ⟨rfl, rfl⟩ := Prod.mk.inj (Except.ok.inj (hfile.symm.trans hrun))
    refine ⟨_, hmade, concerns_append.2 ⟨hasked, fun e he q hq => ?_⟩⟩
    cases List.mem_singleton.1 he
    unfold lookedAt at hq
    dsimp only at hq
    cases hmode : (Sys.lstat p (Sys.inotifyAddWatch w.lib.fd p events.toUInt32 w.os.os).2).1 with
    | none =>
        rw [hmode] at hq
        cases hq
        exact List.prefix_rfl
    | some mode =>
        rw [hmode] at hq
        cases hq
  · obtain ⟨w'', hfile, hmade, -⟩ := watchFile_turnedDown s.untouched fuel p events h (by grind)
    obtain ⟨rfl, rfl⟩ := Prod.mk.inj (Except.ok.inj (hfile.symm.trans hrun))
    exact ⟨_, hmade, hasked⟩

/-- Whatever directory it is, its stream is closed again. -/
theorem Lasting.made_closed {p : CString} {dir : Nat} {w w₁ w₂ : World (Logged σ)}
    (hdir : (Sys.opendir p w.os.os).1 = some dir)
    (hopen : w₁.os = (Logged.enter (Sys.opendir p) (.opendir p) w.os).2)
    (hmade : Made ((fun r => Function.update r dir none) ∘ s.reading) new w₁ w₂) :
    Made s.reading ([⟨.opendir p (Sys.opendir p w.os.os).1, Sys.errno (Sys.opendir p w.os.os).2⟩] ++ new)
      w { w₂ with os := Sys.closedir dir w₂.os } where
  inotify :=
    ⟨hmade.inotify.initialized, hmade.inotify.mode, hmade.inotify.wellIndexed, hmade.inotify.plain⟩
  view := by
    have hclosed : s.reading (Sys.closedir dir w₂.os.os) =
        Function.update (s.reading w₁.os.os) dir none := (s.closedir _ _).trans hmade.view
    have hos : w₁.os.os = (Sys.opendir p w.os.os).2 := congrArg Logged.os hopen
    refine hclosed.trans ?_
    rw [hos]
    by_cases hd : stays (spelled p.bytes)
    · obtain ⟨dir', hdir', hnone, hopened⟩ := s.opendir p w.os.os hd
      obtain rfl := Option.some.inj (hdir.symm.trans hdir')
      rw [hopened, Function.update_idem, ← hnone, Function.update_eq_self]
    · obtain ⟨hnone, hopened⟩ := s.opendir_other p w.os.os hd
      rw [hopened, ← hnone dir hdir, Function.update_eq_self]
  log := by
    have hlog := congrArg Logged.log hopen
    show w₂.os.log = _
    rw [hmade.log, hlog, ← List.append_assoc]
    rfl

/-- How a walk ends. -/
theorem walk_ended (hz : ¬ AnsweredZero σ) (hproper : ProperNames σ) {events : Int32} {fuel : Nat}
    {path : Bytes} (hroot : root <+: spelled (cstring path).bytes)
    (hpath : stays (spelled (cstring path).bytes) ∨
      (cstring path).bytes = spelled (cstring path).bytes)
    {w w' : World (Logged σ)} (h : Inotify w)
    (hrun : watchRecursivelyWithExclude fuel path events ex w = .ok (ok, w')) :
    ∃ new, Made s.reading new w w' ∧
      Ended stays (spelled (cstring path).bytes) new ok w'.lib.error := by
  induction fuel generalizing path w ok w' with
  | zero => cases hrun
  | succ fuel ih =>
      let p := cstring path
      let v : World (Logged σ) := { w with lib := { w.lib with error := 0 } }
      let w₁ : World (Logged σ) :=
        { v with os := (Logged.enter (Sys.opendir p) (.opendir p) v.os).2 }
      have h₁ : Inotify w₁ := ⟨h.initialized, h.mode, h.wellIndexed, h.plain⟩
      let opening : Entry := ⟨.opendir p (Sys.opendir p w.os.os).1, Sys.errno (Sys.opendir p w.os.os).2⟩
      have hlog : w₁.os.log = w.os.log ++ [opening] := rfl
      have hquiet : Quiet [opening] := by
        intro e he
        cases List.mem_singleton.1 he
        rfl
      have hcall : call (Sys.opendir p) v = .ok ((Sys.opendir p w.os.os).1, w₁) := rfl
      unfold watchRecursivelyWithExclude at hrun
      rw [Prog.bind_run_ok (assertInit_run h.initialized),
        Prog.bind_run_ok (rfl : setError 0 w = .ok ((), v)), Prog.bind_run_ok hcall] at hrun
      cases hdir : (Sys.opendir p w.os.os).1 with
      | none =>
          -- a directory that stays can be opened
          have hother : ¬ stays (spelled p.bytes) := by
            intro hd
            obtain ⟨dir, hsome, -⟩ := s.opendir p w.os.os hd
            rw [hdir] at hsome
            cases hsome
          have hopened : Made s.reading [opening] w w₁ :=
            ⟨h₁, (s.opendir_other p w.os.os hother).2, hlog⟩
          have hbytes := hpath.resolve_left hother
          rw [hdir] at hrun
          obtain ⟨e, w₂, herrno, hrest⟩ := Prog.bind_ok hrun
          obtain ⟨rfl, rfl⟩ := Prod.mk.inj (Except.ok.inj herrno)
          split at hrest
          · obtain ⟨new, hmade, hconcerns⟩ := s.watchFile_concerns hz p h₁ hrest
            refine ⟨_, hopened.trans hmade, s.ended_other hother hroot (spelled_eq_concat _) ?_⟩
            rw [hbytes] at hconcerns
            exact concerns_append.2 ⟨hquiet.concerns _, hconcerns⟩
          · obtain ⟨rfl, rfl⟩ := Prod.mk.inj (Except.ok.inj hrest)
            refine ⟨_, hopened.trans (.error h₁ _), ?_⟩
            rw [List.append_nil]
            exact s.ended_other hother hroot (spelled_eq_concat _) (hquiet.concerns _)
      | some dir =>
          rw [hdir] at hrun
          rw [show (if p.bytes.getLast? ≠ some slash then p.bytes ++ [slash] else p.bytes) =
            spelled p.bytes from ite_not _ _ _] at hrun
          obtain ⟨passed, w₂, hwalk, hrest⟩ := Prog.bind_ok hrun
          have hnul := spelled_noNul p
          obtain ⟨new, hmade, hconcerns, hswept⟩ := walkEntries_swept s hproper hnul
            (fun n hn v ok v' hv hrec => by
              have hbytes : (cstring (within (spelled p.bytes) n)).bytes = within (spelled p.bytes) n :=
                bytes_cstring (by simp [within, hnul, n.noNul, slash])
              have hspelled : spelled (cstring (within (spelled p.bytes) n)).bytes =
                  within (spelled p.bytes) n := by
                rw [hbytes]
                exact spelled_concat _
              have hbelow : root <+: spelled (cstring (within (spelled p.bytes) n)).bytes := by
                rw [hspelled]
                exact hroot.trans (prefix_within _ n)
              have hended := ih hbelow (.inr (by rw [hspelled, hbytes])) hv hrec
              rwa [hspelled] at hended) h₁ hwalk
          let w₃ : World (Logged σ) := { w₂ with os := Sys.closedir dir w₂.os }
          have hclosed : Made s.reading ([opening] ++ new) w w₃ := s.made_closed hdir rfl hmade
          have hconcerns' : Concerns (spelled p.bytes) ([opening] ++ new) :=
            concerns_append.2 ⟨hquiet.concerns _, hconcerns⟩
          have hend : (if passed then watchFile fuel (spelled p.bytes) events w₃ = .ok (ok, w')
              else ok = false ∧ w' = w₃) := by
            cases passed with
            | true => exact hrest
            | false =>
                obtain ⟨rfl, rfl⟩ := Prod.mk.inj (Except.ok.inj hrest)
                exact ⟨rfl, rfl⟩
          -- the walk of a directory that came meanwhile says nothing about those that stay
          by_cases hd : stays (spelled p.bytes)
          · obtain ⟨dir', hdir', -, hopen⟩ := s.opendir p w.os.os hd
            obtain rfl := Option.some.inj (hdir.symm.trans hdir')
            have hstream : s.reading w₁.os.os dir = some (spelled p.bytes,
                { n | slash ∉ n.bytes ∧ stays (within (spelled p.bytes) n) }) := by
              show s.reading (Sys.opendir p w.os.os).2 dir = _
              rw [hopen, Function.update_self]
            have hnone : Swept stays (spelled p.bytes) ∅ [opening] true 0 :=
              .quiet hquiet fun n hn => by cases hn
            have hall := hnone.append s hd (hswept hd _ hstream) (fun _ hn => by cases hn)
            rw [Set.empty_union] at hall
            cases passed with
            | true =>
                obtain ⟨last, hlast, hended⟩ :=
                  watchFile_ended s hd hall (fun n hn hn' => ⟨hn, hn'⟩) hclosed.inotify hend
                exact ⟨_, hclosed.trans hlast, hended⟩
            | false =>
                obtain ⟨rfl, rfl⟩ := hend
                exact ⟨_, hclosed, hall.given_up⟩
          · have hother : ∀ {l}, Concerns (spelled p.bytes) l →
                Ended stays (spelled p.bytes) l ok w'.lib.error :=
              fun hl => s.ended_other hd hroot (spelled_eq_concat _) hl
            cases passed with
            | true =>
                obtain ⟨last, hlast, hlastc⟩ :=
                  s.watchFile_concerns hz ⟨spelled p.bytes, hnul⟩ hclosed.inotify hend
                exact ⟨_, hclosed.trans hlast, hother (concerns_append.2 ⟨hconcerns', hlastc⟩)⟩
            | false =>
                obtain ⟨-, rfl⟩ := hend
                exact ⟨_, hclosed, hother hconcerns'⟩

end Directory

/-- **A walk that succeeds has watched a directory that stays** unless an entry vanished of it or of one
    on the way to it; and one of which an entry vanished it has not asked for. -/
theorem walk_watches_lasting {σ : Type} [Sys σ] {env : Logged σ → Logged σ → Prop} {ex : List Bytes}
    {path : Bytes} {stays : Bytes → Prop} (s : Lasting σ ex (spelled (cstring path).bytes) stays)
    (hz : ¬ AnsweredZero σ) (hproper : ProperNames σ) {w w' : World (Logged σ)}
    (h : Reachable env w) (hi : w.lib.initialized = true) (hm : w.lib.fanotifyMode = false)
    {fuel : Nat} {events : Int32}
    (hrun : watchRecursivelyWithExclude fuel path events ex w = .ok (true, w')) :
    let calls := callsBetween w w'
    (∀ d, stays d → Intact stays d calls → Accepted d calls) ∧
      (∀ d, stays d → Vanished d calls → ¬ Asked d calls) ∧
      ((∀ d, stays d → Accepted d calls) ↔ ∀ d, stays d → ¬ Vanished d calls) := by
  have hinotify := h.inotify (Logged.not_answeredZero hz) hi hm
  obtain ⟨new, hmade, hended⟩ :=
    walk_ended s hz hproper List.prefix_rfl (.inl s.start) hinotify hrun
  obtain ⟨-, hall⟩ := (hended.covers s.start).resolve_right fun hno => by cases hno.1
  dsimp only
  rw [callsBetween_eq hmade.log]
  refine ⟨fun d hd => hall d hd (s.extends_root hd), hended.skips, fun haccepted d hd hv => ?_,
    fun hv d hd => ?_⟩
  · exact hended.skips d hd hv (haccepted d hd).asked
  · exact hall d hd (s.extends_root hd) fun e he _ => hv e he

/-! ## A kernel whose files change -/

/-- The directories that are there at all times, from `root` down. -/
inductive Scenes.Always (c : Scenes) (ex : List Bytes) (root : Bytes) : Bytes → Prop
  | root (h : ∀ k, ∃ names, c.node k (Desk.trim root) = some (.directory names)) :
      Always c ex root root
  | within {d : Bytes} {n : CString} (hd : Always c ex root d)
      (hdots : n.bytes ≠ ascii "." ∧ n.bytes ≠ ascii "..") (hname : slash ∉ n.bytes)
      (hnames : ∀ k names, c.node k (Desk.trim d) = some (.directory names) → n ∈ names)
      (hex : isExcluded (within d n) ex = false)
      (h : ∀ k, ∃ names, c.node k (d ++ n.bytes) = some (.directory names)) :
      Always c ex root (within d n)

namespace Shifting

variable {c : Scenes} {ex : List Bytes} {p : CString}

theorem always_directory {d : Bytes} (hd : c.Always ex (spelled p.bytes) d) (k : Nat) :
    ∃ names, c.node k (Desk.trim d) = some (.directory names) := by
  cases hd with
  | root h => exact h k
  | within _ _ _ _ _ h =>
      rw [within, trim_concat]
      exact h k

theorem always_concat {d : Bytes} (hd : c.Always ex (spelled p.bytes) d) : ∃ q, d = q ++ [slash] := by
  cases hd with
  | root h => exact spelled_eq_concat _
  | within => exact ⟨_, rfl⟩

theorem always_extends {d : Bytes} (hd : c.Always ex (spelled p.bytes) d) : spelled p.bytes <+: d := by
  induction hd with
  | root => exact List.prefix_rfl
  | within _ _ _ _ _ _ ih => exact ih.trans (prefix_within _ _)

/-- Who is always there is always named. -/
theorem always_named {d : Bytes} {n : CString} (hd : c.Always ex (spelled p.bytes) d)
    (hn : slash ∉ n.bytes) (hwithin : c.Always ex (spelled p.bytes) (within d n)) {k : Nat}
    {names : List CString} (h : c.node k (Desk.trim d) = some (.directory names)) : n ∈ names := by
  generalize he : within d n = e at hwithin
  cases hwithin with
  | root =>
      have hlen := (always_extends hd).length_le
      rw [← he] at hlen
      simp only [within, List.length_append, List.length_singleton] at hlen
      omega
  | within hd' _ hm hnames _ _ =>
      obtain ⟨rfl, rfl⟩ := within_eq (always_concat hd) (always_concat hd') hn hm he
      exact hnames k names h

theorem proper_names : ProperNames (Shifting c) := by
  intro dir d n h
  cases hstream : d.streams[dir]?.join with
  | none => simp [Sys.readdir, hstream] at h
  | some r =>
      have hhead : r.names.head? = some n := by simpa [Sys.readdir, hstream] using h
      exact r.proper.2 n (List.mem_of_head? hhead)

variable (c ex p)

open Classical in
/-- What the stream of a directory that is always there has still to yield. -/
noncomputable def toCome (r : Option Snapshot) : Option (Bytes × Set CString) :=
  (r.filter fun r => c.Always ex (spelled p.bytes) r.path).map fun r =>
    (r.path, { n | n ∈ r.names ∧ c.Always ex (spelled p.bytes) (within r.path n) })

/-- What all the streams have still to yield. -/
noncomputable def reading (d : Shifting c) (dir : Nat) : Option (Bytes × Set CString) :=
  toCome c ex p d.streams[dir]?.join

variable {c ex p}

theorem toCome_some {r : Snapshot} (h : c.Always ex (spelled p.bytes) r.path) :
    toCome c ex p (some r) =
      some (r.path, { n | n ∈ r.names ∧ c.Always ex (spelled p.bytes) (within r.path n) }) := by
  simp [toCome, Option.filter, h]

theorem toCome_other {r : Snapshot} (h : ¬ c.Always ex (spelled p.bytes) r.path) :
    toCome c ex p (some r) = none := by
  simp [toCome, Option.filter, h]

/-- What is to come of an open stream is to come of a directory that is always there. -/
theorem toCome_open {o : Option Snapshot} {d : Bytes} {rest : Set CString}
    (h : toCome c ex p o = some (d, rest)) : ∃ r, o = some r ∧ c.Always ex (spelled p.bytes) r.path ∧
      r.path = d ∧ { n | n ∈ r.names ∧ c.Always ex (spelled p.bytes) (within r.path n) } = rest := by
  cases o with
  | none => cases h
  | some r =>
      by_cases hr : c.Always ex (spelled p.bytes) r.path
      · rw [toCome_some hr] at h
        obtain ⟨hpath, hrest⟩ := Prod.mk.inj (Option.some.inj h)
        exact ⟨r, rfl, hr, hpath, hrest⟩
      · rw [toCome_other hr] at h
        cases h

theorem reading_set (d : Shifting c) (dir : Nat) (r : Option Snapshot)
    (h : d.streams[dir]?.join ≠ none ∨ toCome c ex p r = none) :
    reading c ex p { d with streams := d.streams.set dir r } =
      Function.update (reading c ex p d) dir (toCome c ex p r) := by
  funext i
  rw [reading, List.getElem?_set, Function.update_apply]
  by_cases hi : i = dir
  · rw [if_pos hi, if_pos hi.symm]
    split
    · rfl
    · next hge =>
        have hnone : d.streams[dir]?.join = none := by
          rw [List.getElem?_eq_none (not_lt.1 hge)]
          rfl
        rw [h.resolve_left (not_not.2 hnone)]
        rfl
  · rw [if_neg hi, if_neg (Ne.symm hi)]
    rfl

theorem reading_append (d : Shifting c) (r : Snapshot) :
    reading c ex p { d with streams := d.streams ++ [some r] } =
      Function.update (reading c ex p d) d.streams.length (toCome c ex p (some r)) := by
  funext i
  rw [reading, List.getElem?_append, Function.update_apply]
  split
  · next hlt =>
      rw [if_neg hlt.ne]
      rfl
  · next hge =>
      by_cases hi : i = d.streams.length
      · rw [if_pos hi, hi, Nat.sub_self]
        rfl
      · rw [if_neg hi, reading, List.getElem?_eq_none (by simp; omega),
          List.getElem?_eq_none (by omega)]

theorem reading_new (d : Shifting c) : reading c ex p d d.streams.length = none := by
  rw [reading, List.getElem?_eq_none le_rfl]
  rfl

/-- It opens what is a directory at the moment. -/
theorem opendir_cases (q : CString) (d : Shifting c) :
    ((Sys.opendir q d).1 = none ∧ (Sys.opendir q d).2.streams = d.streams ∧
      ∀ names, c.node d.clock (Desk.trim q.bytes) ≠ some (.directory names)) ∨
    ∃ names h, c.node d.clock (Desk.trim q.bytes) = some (.directory names) ∧
      (Sys.opendir q d).1 = some d.streams.length ∧
      (Sys.opendir q d).2.streams = d.streams ++ [some ⟨spelled q.bytes, names, h⟩] := by
  have hopen : Sys.opendir q d = opendir q.bytes d := rfl
  rw [hopen]
  unfold opendir
  split
  · next h => exact .inl ⟨rfl, rfl, fun names hnames => by cases h.symm.trans hnames⟩
  · next h => exact .inl ⟨rfl, rfl, fun names hnames => by cases h.symm.trans hnames⟩
  · next h => exact .inl ⟨rfl, rfl, fun names hnames => by cases h.symm.trans hnames⟩
  · next names h =>
      refine .inr ⟨names, c.proper _ _ _ h, h, rfl, ?_⟩
      rw [spelled_eq_trim]
      rfl

theorem reading_congr {d d' : Shifting c} (h : d'.streams = d.streams) :
    reading c ex p d' = reading c ex p d := by
  funext i
  rw [reading, reading, h]

theorem addWatch_streams (fd : Int32) (q : CString) (mask : UInt32) (d : Shifting c) :
    (Sys.inotifyAddWatch fd q mask d).2.streams = d.streams := by
  simp only [Sys.inotifyAddWatch, addWatch]
  split <;> rfl

theorem lstat_streams (q : CString) (d : Shifting c) : (Sys.lstat q d).2.streams = d.streams := by
  simp only [Sys.lstat]
  split <;> rfl

theorem readdir_run (dir : Nat) (d : Shifting c) {r : Snapshot} (h : d.streams[dir]?.join = some r) :
    Sys.readdir dir d =
      (r.names.head?, { d with streams := d.streams.set dir (some r.tail) }) := by
  simp only [Sys.readdir, h]

/-- The directories that are always there stay. -/
noncomputable def lasting (c : Scenes) (ex : List Bytes) (p : CString)
    (h : ∀ k, ∃ names, c.node k (Desk.trim (spelled p.bytes)) = some (.directory names)) :
    Lasting (Shifting c) ex (spelled p.bytes) (c.Always ex (spelled p.bytes)) where
  start := .root h
  root_spelled := ⟨p, rfl⟩
  inside d hd hne := by
    cases hd with
    | root => exact absurd rfl hne
    | within hd hdots hname _ hex _ => exact ⟨_, _, hd, rfl, hdots.1, hdots.2, hname, hex⟩
  reading := reading c ex p
  opendir q d hq := by
    obtain ⟨names, hnames⟩ := always_directory hq d.clock
    rw [spelled_eq_trim, trim_concat] at hnames
    rcases opendir_cases q d with ⟨-, -, hno⟩ | ⟨names', hproper, hnames', hdir, hstreams⟩
    · exact absurd hnames (hno names)
    · refine ⟨_, hdir, reading_new d, ?_⟩
      rw [reading_congr (d := { d with streams := d.streams ++ [some ⟨_, names', hproper⟩] }) hstreams,
        reading_append, toCome_some hq]
      congr 3
      ext n
      refine ⟨fun ⟨hn, hwithin⟩ => ⟨(hproper.2 n hn).2, hwithin⟩, fun ⟨hn, hwithin⟩ => ⟨?_, hwithin⟩⟩
      exact always_named hq hn hwithin (by rwa [spelled_eq_trim, trim_concat])
  opendir_other q d hq := by
    rcases opendir_cases q d with ⟨hdir, hstreams, -⟩ | ⟨names, hproper, -, hdir, hstreams⟩
    · exact ⟨fun dir h => by (rw [hdir] at h; cases h), reading_congr hstreams⟩
    · refine ⟨fun dir h => ?_, ?_⟩
      · rw [hdir] at h
        cases h
        exact reading_new d
      · rw [reading_congr (d := { d with streams := d.streams ++ [some ⟨_, names, hproper⟩] }) hstreams,
          reading_append, toCome_other hq, ← reading_new d, Function.update_eq_self]
  readdir dir d path rest n hread hn := by
    obtain ⟨r, hstream, hr, rfl, rfl⟩ := toCome_open hread
    rw [readdir_run dir d hstream] at hn ⊢
    obtain ⟨names, hnames⟩ : ∃ names, r.names = n :: names :=
      ⟨_, (List.cons_head?_tail hn).symm⟩
    refine ⟨fun hwithin => ⟨by rw [hnames]; exact List.mem_cons_self .., hwithin⟩, ?_⟩
    have hnodup := r.proper.1
    change r.names.Nodup at hnodup
    rw [hnames, List.nodup_cons] at hnodup
    rw [reading_set _ _ _ (.inl (by rw [hstream]; exact Option.some_ne_none r)),
      toCome_some (r := r.tail) hr]
    congr 3
    ext m
    show m ∈ r.names.tail ∧ _ ↔ (m ∈ r.names ∧ _) ∧ m ≠ n
    rw [hnames, List.tail_cons, List.mem_cons]
    constructor
    · rintro ⟨hm, hwithin⟩
      exact ⟨⟨.inr hm, hwithin⟩, fun he => hnodup.1 (he ▸ hm)⟩
    · rintro ⟨⟨hm, hwithin⟩, hne⟩
      exact ⟨hm.resolve_left hne, hwithin⟩
  readdir_end dir d path rest hread hn := by
    obtain ⟨r, hstream, hr, rfl, rfl⟩ := toCome_open hread
    rw [readdir_run dir d hstream] at hn ⊢
    have hnil : r.names = [] := List.head?_eq_none_iff.1 hn
    refine ⟨by simp [hnil], ?_⟩
    have hsame : r.tail.names = r.names := by
      show r.names.tail = r.names
      rw [hnil, List.tail_nil]
    have htail : toCome c ex p (some r.tail) = reading c ex p d dir := by
      rw [reading, hstream, toCome_some hr, toCome_some (r := r.tail) hr, hsame]
      rfl
    rw [reading_set _ _ _ (.inl (by rw [hstream]; exact Option.some_ne_none r)), htail,
      Function.update_eq_self]
  readdir_other dir d hread := by
    cases hstream : d.streams[dir]?.join with
    | none => simp [Sys.readdir, hstream]
    | some r =>
        have hother : ¬ c.Always ex (spelled p.bytes) r.path := by
          intro hr
          rw [reading, hstream, toCome_some hr] at hread
          cases hread
        rw [readdir_run dir d hstream,
          reading_set _ _ _ (.inl (by rw [hstream]; exact Option.some_ne_none r)),
          toCome_other (r := r.tail) hother, ← hread, Function.update_eq_self]
  closedir dir d := reading_set d dir none (.inr rfl)
  lstat q d hq := by
    obtain ⟨names, hnames⟩ := always_directory hq d.clock
    rw [spelled_eq_trim, trim_concat] at hnames
    have hlook : d.look q.bytes = some (.directory names) := hnames
    exact ⟨sIfdir, by simp [Sys.lstat, hlook, Node.isDirectory], by decide⟩
  addWatch fd q mask d hq := by
    obtain ⟨names, hnames⟩ := always_directory hq d.clock
    have hlook : d.look q.bytes = some (.directory names) := hnames
    refine .inl ?_
    simp only [Sys.inotifyAddWatch, Shifting.addWatch, hlook, Option.isSome_some, if_pos]
    exact d.watched.add_pos (Desk.trim q.bytes)
  untouched :=
    { lstat := fun q d => reading_congr (lstat_streams q d)
      addWatch := fun fd q mask d => reading_congr (addWatch_streams fd q mask d)
      fwrite := fun _ _ _ => rfl }

end Shifting

theorem walk_watches_lasting_shifting :
    let w := World.after 0
      { lib := Inotifytools.new, os := { os := ({} : Shifting shiftingScenes) } } [.init false false 0]
    ∃ w', watchRecursivelyWithExclude 6 (ascii "/r") 2 [] w = .ok (true, w') ∧
      Vanished (ascii "/r/b/") (callsBetween w w') ∧ ¬ Asked (ascii "/r/b/") (callsBetween w w') := by
  intro w
  have hreach : Reachable (fun _ _ => False) w := ⟨_, World.run_after _ _ _ _⟩
  have hroot : ∀ k, shiftingScenes.node k (ascii "/r") =
      some (.directory [cstring (ascii "a"), cstring (ascii "b")]) := by
    intro k
    show (if k < 7 then _ else _ : List (Bytes × Node)).lookup _ = _
    split <;> rfl
  have hb : ∀ k, ∃ names, shiftingScenes.node k (ascii "/r/b") = some (.directory names) := by
    intro k
    show ∃ names, (if k < 7 then _ else _ : List (Bytes × Node)).lookup _ = _
    split
    · exact ⟨_, rfl⟩
    · exact ⟨_, rfl⟩
  let p := cstring (ascii "/r")
  have hstart : ∀ k, ∃ names, shiftingScenes.node k (Desk.trim (spelled p.bytes)) =
      some (.directory names) := fun k => ⟨_, hroot k⟩
  have hstays : shiftingScenes.Always [] (spelled p.bytes) (ascii "/r/b/") := by
    refine .within (n := cstring (ascii "b")) (.root hstart) (by decide) (by decide)
      (fun k names h => ?_) rfl hb
    cases (hroot k).symm.trans h
    exact List.mem_cons_of_mem _ (List.mem_singleton_self _)
  have hrun : ∃ w', watchRecursivelyWithExclude 6 (ascii "/r") 2 [] w = .ok (true, w') ∧
      Vanished (ascii "/r/b/") (callsBetween w w') := by
    have hany : (watchRecursivelyWithExclude 6 (ascii "/r") 2 [] w).toOption.any (fun r =>
        r.1 && decide (Vanished (ascii "/r/b/") (callsBetween w r.2))) = true := by decide +kernel
    cases hr : watchRecursivelyWithExclude 6 (ascii "/r") 2 [] w with
    | error => rw [hr] at hany; cases hany
    | ok r =>
        rw [hr] at hany
        obtain ⟨hok, hmissed⟩ := Bool.and_eq_true_iff.1 hany
        obtain ⟨ok, w'⟩ := r
        cases hok
        exact ⟨w', rfl, of_decide_eq_true hmissed⟩
  obtain ⟨w', hrun, hvanished⟩ := hrun
  have hz : ¬ AnsweredZero (Shifting shiftingScenes) := by
    rintro ⟨fd, q, mask, d, h⟩
    simp only [Sys.inotifyAddWatch, Shifting.addWatch] at h
    split at h
    · exact absurd h (Int32.ne_of_lt (d.watched.add_pos _)).symm
    · exact absurd h (by decide : (-1 : Int32) ≠ 0)
  have hwalk := walk_watches_lasting (Shifting.lasting shiftingScenes [] p hstart) hz
    Shifting.proper_names hreach (by decide +kernel) (by decide +kernel) hrun
  exact ⟨w', hrun, hvanished, hwalk.2.1 _ hstays hvanished⟩

end InotifyTools
