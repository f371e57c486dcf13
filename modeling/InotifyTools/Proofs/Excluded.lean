import InotifyTools.Proofs.Log
import InotifyTools.Proofs.Programs

set_option autoImplicit false

/-! # Excluded directories

The walk that sets up the watches passes over excluded directories, and so everything below them. The
walk of a directory that appears later has no exclude list: it watches whatever it finds. -/

namespace InotifyTools

/-! ## Paths -/

/-- A directory with its trailing '/'. -/
def spelled (p : Bytes) : Bytes := if p.getLast? = some slash then p else p ++ [slash]

theorem spelled_of_slash {p : Bytes} (h : p.getLast? = some slash) : spelled p = p := if_pos h

theorem spelled_concat (p : Bytes) : spelled (p ++ [slash]) = p ++ [slash] :=
  spelled_of_slash List.getLast?_concat

theorem spelled_eq_concat (p : Bytes) : ∃ q, spelled p = q ++ [slash] := by
  unfold spelled
  split
  · next h => exact ⟨p.dropLast, (List.dropLast_append_getLast? slash h).symm⟩
  · exact ⟨p, rfl⟩

theorem spelled_spelled (p : Bytes) : spelled (spelled p) = spelled p := by
  obtain ⟨q, hq⟩ := spelled_eq_concat p
  rw [hq, spelled_concat]

/-- A name in a directory stands without the '/'. -/
theorem spelled_name {p name : Bytes} (hne : name ≠ []) (hname : slash ∉ name) :
    spelled (p ++ name) = p ++ name ++ [slash] := by
  refine if_neg fun h => hname ?_
  rw [List.getLast?_append_of_ne_nil _ hne] at h
  exact List.mem_of_getLast? h

/-- The exclude list compares spelled directories. -/
theorem isExcluded_iff (p : Bytes) (ex : List Bytes) :
    isExcluded (p ++ [slash]) ex = true ↔ ∃ e ∈ ex, spelled e = p ++ [slash] := by
  have hsame : ∀ q : Bytes, p.length = q.length ∧ q = (p ++ [slash]).take q.length ↔
      q ++ [slash] = p ++ [slash] := by
    intro q
    rw [List.append_left_inj]
    constructor
    · rintro ⟨hlen, htake⟩
      rw [htake, List.take_left' hlen]
    · rintro rfl
      exact ⟨rfl, (List.take_left' rfl).symm⟩
  unfold isExcluded
  rw [List.any_eq_true]
  refine exists_congr fun e => and_congr_right fun _ => ?_
  dsimp only
  rw [decide_eq_true_iff, List.length_append, List.length_singleton, Nat.add_right_cancel_iff]
  unfold spelled
  by_cases hslash : e.getLast? = some slash
  · obtain ⟨q, rfl⟩ : ∃ q, e = q ++ [slash] :=
      ⟨e.dropLast, (List.dropLast_append_getLast? slash hslash).symm⟩
    rw [if_pos ⟨by simp, hslash⟩, if_pos hslash, List.length_append, List.length_singleton,
      Nat.add_sub_cancel, List.take_left' rfl]
    exact hsame q
  · rw [if_neg (fun h => hslash h.2), if_neg hslash, List.take_length]
    exact hsame e

/-- A path that ends in '/' and is a prefix of a path with one more name is a prefix of the path. -/
theorem prefix_of_prefix_name {q p name : Bytes} (hname : slash ∉ name)
    (h : q ++ [slash] <+: p ++ name) : q ++ [slash] <+: p := by
  rcases List.prefix_or_prefix_of_prefix h (List.prefix_append p name) with hp | hp
  · exact hp
  · obtain ⟨t, ht⟩ := hp
    rw [← ht, List.prefix_append_right_inj] at h
    rcases List.eq_nil_or_concat' t with rfl | ⟨t', a, rfl⟩
    · rw [← ht, List.append_nil]
    · -- the name would contain the '/'
      rw [← List.append_assoc] at ht
      cases (List.append_inj' ht rfl).2
      exact absurd (h.subset (List.mem_append_right t' (List.mem_singleton_self slash))) hname

/-- No entry of the exclude list lies between `base` and `p`. -/
def Clear (ex : List Bytes) (base p : Bytes) : Prop :=
  ∀ e ∈ ex, spelled e <+: p → spelled e <+: base

theorem Clear.refl (ex : List Bytes) (p : Bytes) : Clear ex p p := fun _ _ h => h

theorem Clear.trans {ex : List Bytes} {a b c : Bytes} (h : Clear ex a b) (h' : Clear ex b c) :
    Clear ex a c := fun e he hc => h e he (h' e he hc)

/-- One step down, into a directory that is not excluded. -/
theorem Clear.descend {ex : List Bytes} {p name : Bytes} (hname : slash ∉ name)
    (hex : isExcluded (p ++ name ++ [slash]) ex = false) : Clear ex p (p ++ name ++ [slash]) := by
  intro e he hpre
  rcases List.prefix_concat_iff.1 hpre with heq | hpre
  · exact absurd ((isExcluded_iff _ ex).2 ⟨e, he, heq⟩) (Bool.eq_false_iff.1 hex)
  · obtain ⟨q, hq⟩ := spelled_eq_concat e
    rw [hq] at hpre ⊢
    exact prefix_of_prefix_name hname hpre

/-! ## The walk -/

variable {σ α : Type} [Sys σ] {T : List Entry → Prop}

/-- Whatever `readdir` answers is the name of an entry: not empty, and without a '/'. -/
def ProperNames (σ : Type) [Sys σ] : Prop :=
  ∀ (d : Nat) (os : σ) (name : CString), (Sys.readdir d os).1 = some name →
    name.bytes ≠ [] ∧ slash ∉ name.bytes

/-- Nothing but the files was to be watched. -/
def AddedFrom (files : List Bytes) (new : List Entry) : Prop :=
  ∀ q ∈ added new, ∃ f ∈ files, q = cstring f

theorem addedFrom_composes (files : List Bytes) : Composes (AddedFrom files) where
  nil := by simp [AddedFrom]
  append ha hb := by
    intro q hq
    rw [added_append, List.mem_append] at hq
    exact hq.elim (ha q) (hb q)

theorem AddedFrom.of_none {files : List Bytes} {new : List Entry} (h : NoneAdded new) :
    AddedFrom files new := by
  intro q hq
  rw [h] at hq
  cases hq

/-- What a walk from `root` adds: directories that have been found at or below it, nothing excluded
    lying between. -/
def Walked (ex : List Bytes) (root : Bytes) (new : List Entry) : Prop :=
  ∀ q ∈ added new, root <+: spelled q.bytes ∧ Clear ex root (spelled q.bytes) ∧
    (spelled q.bytes = root ∨ ∃ r ∈ found new, spelled r.bytes = spelled q.bytes)

theorem walked_composes (ex : List Bytes) (root : Bytes) : Composes (Walked ex root) where
  nil := by simp [Walked]
  append {a b} ha hb := by
    intro q hq
    rw [added_append, List.mem_append] at hq
    rw [found_append]
    rcases hq with hq | hq
    · obtain ⟨hpre, hclear, hfound⟩ := ha q hq
      exact ⟨hpre, hclear, hfound.imp id fun ⟨r, hr, hs⟩ => ⟨r, List.mem_append_left _ hr, hs⟩⟩
    · obtain ⟨hpre, hclear, hfound⟩ := hb q hq
      exact ⟨hpre, hclear, hfound.imp id fun ⟨r, hr, hs⟩ => ⟨r, List.mem_append_right _ hr, hs⟩⟩

theorem Walked.of_none {ex : List Bytes} {root : Bytes} {new : List Entry} (h : NoneAdded new) :
    Walked ex root new := by
  intro q hq
  rw [h] at hq
  cases hq

theorem Walked.of_file {ex : List Bytes} {p : Bytes} {new : List Entry} (h : AddedFrom [p] new) :
    Walked ex (spelled (cstring p).bytes) new := by
  intro q hq
  obtain ⟨f, hf, rfl⟩ := h q hq
  cases List.mem_singleton.1 hf
  exact ⟨List.prefix_rfl, .refl _ _, .inl rfl⟩

section Quiet

variable (hT : Composes T) (h : ∀ c : SysCall, c.added = none → ∀ errno, T [⟨c, errno⟩])
include hT

theorem strerror_enters (e : Int32) : Enters T (strerror e : M (Logged σ) Bytes) := .pure hT _

theorem errno_enters : Enters T (errno : M (Logged σ) Int32) := by
  intro w a w' hm
  cases hm
  exact .refl hT w

theorem ceprint_enters (ps : List Piece) : Enters T (ceprint ps : M (Logged σ) Unit) :=
  .exec fun _ => ⟨[], (List.append_nil _).symm, hT.nil⟩

theorem assertInit_enters : Enters T (assertInit : M (Logged σ) Unit) :=
  .bind hT (.getLib hT) fun _ => .ite (.pure hT _) (ceprint_enters hT _)

theorem watchRefused_enters (fname : Bytes) (wd : Int32) :
    Enters T (watchRefused fname wd : M (Logged σ) Unit) :=
  .ite (.bind hT (errno_enters hT) fun _ => .modifyLib hT _) (ceprint_enters hT _)

theorem createWatch_enters (fuel : Nat) (wd : Int32) (fid : Option Bytes) (filename : Bytes)
    (dirf : Int32) :
    Enters T (createWatch fuel wd fid filename dirf : M (Logged σ) (Option Int32)) := by
  refine .ite (.pure hT _) (.bind hT ?_ fun wd => .bind hT ?_ fun _ => .pure hT _)
  · refine .ite (.pure hT _) (.bind hT (.getLib hT) fun l => ?_)
    dsimp only
    split
    · exact .bind hT (.modifyLib hT _) fun _ => .pure hT _
    · exact .fault _
  · refine .bind hT (.getLib hT) fun _ => .bind hT (.modifyLib hT _) fun _ => .ite (.pure hT _) ?_
    exact .ite (.exec fun _ => ⟨[], (List.append_nil _).symm, hT.nil⟩) (.pure hT _)

include h

theorem isdir_enters (p : Bytes) : Enters T (isdir p : M (Logged σ) Bool) := by
  refine .bind hT (.call fun _ _ => h _ rfl _) fun mode => ?_
  cases mode with
  | none =>
      refine .bind hT (errno_enters hT) fun _ => .bind hT (strerror_enters hT _) fun _ => ?_
      exact .bind hT (.ite (ceprint_enters hT _) (.pure hT _)) fun _ => .pure hT _
  | some mode => exact .pure hT _

theorem registerMount_enters (fuel : Nat) (f : Bytes) (dirname : Option Bytes) :
    Enters T (registerMount fuel f dirname : M (Logged σ) Bool) := by
  cases dirname with
  | none => exact .pure hT _
  | some d =>
      refine .bind hT (.bind hT (.getLib hT) fun _ => .pure hT _) fun _ => .ite (.pure hT _) ?_
      refine .bind hT (.call fun _ _ => h _ rfl _) fun _ => .ite ?_ ?_
      · exact .bind hT (errno_enters hT) fun _ => .bind hT (strerror_enters hT _) fun _ =>
          .bind hT (ceprint_enters hT _) fun _ => .pure hT _
      · exact .bind hT (createWatch_enters hT _ _ _ _ _) fun _ => .pure hT _

theorem fanotifyEncodeFid_enters (fuel : Nat) (p : CString) (dirname : Option Bytes) :
    Enters T (fanotifyEncodeFid fuel p dirname : M (Logged σ) (Option (Bytes × Int32))) := by
  have hfail : ∀ s (b : Bytes), Enters T (do
      ceprint [.text s, .bytes b, .text ": ", .bytes (← strerror (← errno)), .text "\n"]
      return none : M (Logged σ) (Option (Bytes × Int32))) := fun _ _ =>
    .bind hT (errno_enters hT) fun _ => .bind hT (strerror_enters hT _) fun _ =>
      .bind hT (ceprint_enters hT _) fun _ => .pure hT _
  refine .bind hT (.call fun _ _ => h _ rfl _) fun fsid => ?_
  cases fsid with
  | none => exact hfail _ _
  | some fsid =>
      refine .bind hT (registerMount_enters hT h _ _ _) fun _ => .ite (.pure hT _) ?_
      refine .bind hT (.call fun _ _ => h _ rfl _) fun ret => .ite (hfail _ _) ?_
      cases dirname with
      | none => exact .pure hT _
      | some d =>
          exact .bind hT (.call fun _ _ => h _ rfl _) fun _ => .ite (hfail _ _) (.pure hT _)

theorem storeWatch_enters (fuel : Nat) (p : CString) (wd : Int32) :
    Enters T (storeWatch fuel p wd : M (Logged σ) Bool) := by
  refine .bind hT (isdir_enters hT h _) fun isDir => .bind hT (.ite (.pure hT _) ?_) fun fid => ?_
  · refine .bind hT (fanotifyEncodeFid_enters hT h _ _ _) fun fid => ?_
    cases fid <;> exact .pure hT _
  · cases fid with
    | none => exact .pure hT _
    | some fid => exact .bind hT (createWatch_enters hT _ _ _ _ _) fun _ => .pure hT _

end Quiet

theorem addedFrom_quiet (files : List Bytes) (c : SysCall) (h : c.added = none) (errno : Int32) :
    AddedFrom files [⟨c, errno⟩] := .of_none (by simp [NoneAdded, added, h])

theorem walked_quiet (ex : List Bytes) (root : Bytes) (c : SysCall) (h : c.added = none)
    (errno : Int32) : Walked ex root [⟨c, errno⟩] := .of_none (by simp [NoneAdded, added, h])

/-- Watching files asks for those files. -/
theorem watchFiles_enters (fuel : Nat) (files : List Bytes) (events : Int32) :
    Enters (AddedFrom files) (watchFiles fuel files events : M (Logged σ) Bool) := by
  have hT := addedFrom_composes files
  have hq := addedFrom_quiet files
  have hone : ∀ f ∈ files, ∀ events, Enters (AddedFrom files)
      (watchOne fuel f events : M (Logged σ) (Bool × Int32)) := by
    intro f hf events
    have hask : Enters (AddedFrom files)
        (addWatch (cstring f) events : M (Logged σ) (Int32 × Int32)) := by
      refine .bind hT (.getLib hT) fun l => .ite (.bind hT (.call fun _ _ => hq _ rfl _) fun _ =>
        .pure hT _) (.bind hT (.call fun _ _ q hq => ?_) fun _ => .pure hT _)
      exact ⟨f, hf, List.mem_singleton.1 hq⟩
    refine .bind hT hask fun _ => .ite (.bind hT (watchRefused_enters hT _ _) fun _ => .pure hT _) ?_
    exact .bind hT (storeWatch_enters hT hq _ _ _) fun _ => .pure hT _
  have heach : ∀ fs, fs ⊆ files → ∀ events, Enters (AddedFrom files)
      (watchEach fuel fs events : M (Logged σ) Bool) := by
    intro fs
    induction fs with
    | nil => exact fun _ _ => .pure hT _
    | cons f fs ih =>
        intro hfs events
        refine .bind hT (hone f (hfs List.mem_cons_self) events) fun _ => .ite (.pure hT _) ?_
        exact ih (List.subset_of_cons_subset hfs) _
  exact .bind hT (assertInit_enters hT) fun _ => .bind hT (.modifyLib hT _) fun _ =>
    heach files (List.Subset.refl _) events

/-- A directory entry: the walk goes down into a directory that was found, and is not excluded. -/
theorem walkEntry_enters {ex : List Bytes} {descend : Bytes → M (Logged σ) Bool}
    (hd : ∀ p, Enters (Walked ex (spelled (cstring p).bytes)) (descend p)) {p : Bytes} (hp : 0 ∉ p)
    {name : CString} (hne : name.bytes ≠ []) (hname : slash ∉ name.bytes) :
    Enters (Walked ex p) (walkEntry descend p ex name.bytes) := by
  have hT := walked_composes ex p
  intro w ok w' hrun
  obtain ⟨mode, w₁, hstat, hrest⟩ := Prog.bind_ok hrun
  have hgrown : w₁.os.log = w.os.log ++
      [⟨.lstat (cstring (p ++ name.bytes)) mode, Sys.errno w₁.os⟩] := by
    cases hstat
    rfl
  have hquiet : Grows (Walked ex p) w w₁ := ⟨_, hgrown, walked_quiet ex p _ rfl _⟩
  cases mode with
  | none =>
      cases hrest
      exact hquiet
  | some mode =>
      dsimp only at hrest
      by_cases hdir : mode &&& sIfmt ≠ sIfdir
      · rw [if_pos hdir] at hrest
        cases hrest
        exact hquiet
      rw [if_neg hdir] at hrest
      by_cases hex : isExcluded (p ++ name.bytes ++ [slash]) ex = true
      · rw [if_pos hex] at hrest
        cases hrest
        exact hquiet
      rw [if_neg hex] at hrest
      obtain ⟨status, w₂, hdescend, hrest⟩ := Prog.bind_ok hrest
      cases hrest
      obtain ⟨new, hlog, hwalked⟩ := hd _ _ _ _ hdescend
      have hslash : (0 : UInt8) ≠ slash := by decide
      have hnul : 0 ∉ p ++ name.bytes ++ [slash] := by simp [hp, name.noNul, hslash]
      rw [bytes_cstring hnul, spelled_concat] at hwalked
      have hclear := Clear.descend hname (Bool.eq_false_iff.2 hex)
      refine ⟨_, by rw [hlog, hgrown, List.append_assoc], fun q hq => ?_⟩
      rw [found_append]
      obtain ⟨hpre, hbelow, hfound⟩ := hwalked q hq
      have hup : p <+: p ++ name.bytes ++ [slash] := by
        rw [List.append_assoc]
        exact List.prefix_append _ _
      refine ⟨hup.trans hpre, hclear.trans hbelow, .inr ?_⟩
      rcases hfound with heq | ⟨r, hr, hs⟩
      · -- the directory walked is the one just found
        refine ⟨cstring (p ++ name.bytes), ?_, ?_⟩
        · have hfound : (SysCall.lstat (cstring (p ++ name.bytes)) (some mode)).found =
              some (cstring (p ++ name.bytes)) := if_pos (not_not.1 hdir)
          rw [List.mem_append, found, List.filterMap_cons, hfound]
          exact .inl List.mem_cons_self
        · rw [bytes_cstring (by simp [hp, name.noNul]), heq, spelled_name hne hname]
      · exact ⟨r, List.mem_append_right _ hr, hs⟩

theorem walkEntries_enters (hn : ProperNames σ) {ex : List Bytes} {descend : Bytes → M (Logged σ) Bool}
    (hd : ∀ p, Enters (Walked ex (spelled (cstring p).bytes)) (descend p)) (dir : Nat) {p : Bytes}
    (hp : 0 ∉ p) (fuel : Nat) : Enters (Walked ex p) (walkEntries descend dir p ex fuel) := by
  have hT := walked_composes ex p
  induction fuel with
  | zero => exact .fault _
  | succ fuel ih =>
      intro w ok w' hrun
      obtain ⟨name, w₁, hread, hrest⟩ := Prog.bind_ok hrun
      have hquiet : Grows (Walked ex p) w w₁ := by
        cases hread
        exact ⟨_, rfl, walked_quiet ex p _ rfl _⟩
      cases name with
      | none =>
          cases hrest
          exact hquiet
      | some name =>
          have hname : (Sys.readdir dir w.os.os).1 = some name :=
            congrArg Prod.fst (Except.ok.inj hread)
          obtain ⟨hne, hslash⟩ := hn dir w.os.os name hname
          have hmore : Enters (Walked ex p) (do
              let ok ← (if name.bytes ≠ ascii "." ∧ name.bytes ≠ ascii ".." then
                walkEntry descend p ex name.bytes else pure true)
              if !ok then
                return false
              setError 0
              walkEntries descend dir p ex fuel) :=
            .bind hT (.ite (walkEntry_enters hd hp hne hslash) (.pure hT _)) fun _ =>
              .ite (.pure hT _) (.bind hT (.modifyLib hT _) fun _ => ih)
          exact hquiet.trans hT (hmore _ _ _ hrest)

/-- **What a walk adds**: directories found at or below its root, and nothing excluded lies
    between. -/
theorem watchRecursivelyWithExclude_enters (hn : ProperNames σ) (fuel : Nat) (path : Bytes)
    (events : Int32) (ex : List Bytes) : Enters (Walked ex (spelled (cstring path).bytes))
      (watchRecursivelyWithExclude fuel path events ex : M (Logged σ) Bool) := by
  induction fuel generalizing path with
  | zero => exact .fault _
  | succ fuel ih =>
      have hT := walked_composes ex (spelled (cstring path).bytes)
      have hq := walked_quiet ex (spelled (cstring path).bytes)
      have hfile : ∀ p : Bytes, spelled (cstring p).bytes = spelled (cstring path).bytes →
          Enters (Walked ex (spelled (cstring path).bytes))
            (watchFile fuel p events : M (Logged σ) Bool) := fun p hp =>
        (watchFiles_enters fuel [p] events).mono fun _ h => hp ▸ .of_file h
      refine .bind hT (assertInit_enters hT) fun _ => .bind hT (.modifyLib hT _) fun _ => ?_
      refine .bind hT (.call fun _ _ => hq _ rfl _) fun dir => ?_
      cases dir with
      | none =>
          refine .bind hT (errno_enters hT) fun _ => .ite (hfile _ (by simp)) ?_
          exact .bind hT (.modifyLib hT _) fun _ => .pure hT _
      | some dir =>
          have hslash : (0 : UInt8) ≠ slash := by decide
          have hroot : 0 ∉ spelled (cstring path).bytes := by
            unfold spelled
            split <;> simp [(cstring path).noNul, hslash]
          have hmine : (if (cstring path).bytes.getLast? ≠ some slash then
              (cstring path).bytes ++ [slash] else (cstring path).bytes) =
              spelled (cstring path).bytes := ite_not _ _ _
          dsimp only
          rw [hmine]
          refine .bind hT (walkEntries_enters hn (fun p => ih p) dir hroot fuel) fun _ => ?_
          refine .bind hT (.exec fun _ => ⟨[], (List.append_nil _).symm, hT.nil⟩) fun _ => .ite (.pure hT _) ?_
          exact hfile _ (by rw [bytes_cstring hroot, spelled_spelled])

/-! ## At start-up -/

/-- A path at or below an excluded directory, unless it is at or below a start path that is itself
    at or below the excluded directory. -/
def FileList.Forbids (list : FileList) (p : Bytes) : Prop :=
  ∃ e ∈ list.excludeFiles, spelled e <+: spelled p ∧ ∀ s ∈ list.watchFiles,
    spelled e <+: spelled (cstring s).bytes → ¬ spelled (cstring s).bytes <+: spelled p

instance (list : FileList) (p : Bytes) : Decidable (list.Forbids p) :=
  inferInstanceAs (Decidable (∃ e ∈ list.excludeFiles, spelled e <+: spelled p ∧
    ∀ s ∈ list.watchFiles, spelled e <+: spelled (cstring s).bytes →
      ¬ spelled (cstring s).bytes <+: spelled p))

/-- Nothing forbidden was to be watched. -/
def Allowed (list : FileList) (new : List Entry) : Prop := ∀ q ∈ added new, ¬ list.Forbids q.bytes

theorem allowed_composes (list : FileList) : Composes (Allowed list) where
  nil := by simp [Allowed]
  append ha hb := by
    intro q hq
    rw [added_append, List.mem_append] at hq
    exact hq.elim (ha q) (hb q)

theorem Allowed.of_none {list : FileList} {new : List Entry} (h : NoneAdded new) :
    Allowed list new := by
  intro q hq
  rw [h] at hq
  cases hq

/-- What the walk of a start path adds is allowed. -/
theorem Walked.allowed {list : FileList} {s : Bytes} (hs : s ∈ list.watchFiles) {new : List Entry}
    (h : Walked list.excludeFiles (spelled (cstring s).bytes) new) : Allowed list new := by
  rintro q hq ⟨e, he, hpre, hnone⟩
  obtain ⟨hbelow, hclear, -⟩ := h q hq
  exact hnone s hs (hclear e he hpre) hbelow

/-- The start paths themselves are allowed. -/
theorem AddedFrom.allowed {list : FileList} {files : List Bytes} (hf : files ⊆ list.watchFiles)
    {new : List Entry} (h : AddedFrom files new) : Allowed list new := by
  rintro q hq ⟨e, he, hpre, hnone⟩
  obtain ⟨f, hmem, rfl⟩ := h q hq
  exact hnone f (hf hmem) hpre List.prefix_rfl

section Startup

variable (hn : ProperNames σ) (list : FileList)
include hn

/-- Setting up the watches adds nothing forbidden. -/
theorem watchList_enters {out : List Piece → M (Logged σ) Unit}
    (hout : ∀ ps, Enters (Allowed list) (out ps)) {before after : Bytes → M (Logged σ) Unit}
    (hbefore : ∀ f, Enters (Allowed list) (before f)) (hafter : ∀ f, Enters (Allowed list) (after f))
    (fuel : Nat) (events : Int32) (recursive filesystem fanotify : Bool) (failVerb : String) :
    Enters (Allowed list)
      (watchList fuel list events recursive filesystem fanotify failVerb out before after) := by
  have hT := allowed_composes list
  have heach : ∀ fs, fs ⊆ list.watchFiles → Enters (Allowed list)
      (watchListEach fuel list events recursive filesystem fanotify failVerb out before after fs) := by
    intro fs
    induction fs with
    | nil => exact fun _ => .pure hT _
    | cons f fs ih =>
        intro hfs
        have hf : f ∈ list.watchFiles := hfs List.mem_cons_self
        have hall := (watchFiles_enters (σ := σ) fuel list.watchFiles events).mono fun _ h =>
          h.allowed (List.Subset.refl _)
        have hone := (watchFiles_enters (σ := σ) fuel [f] events).mono fun _ h =>
          h.allowed (List.cons_subset.2 ⟨hf, List.nil_subset _⟩)
        have hwalk := (watchRecursivelyWithExclude_enters hn fuel f events list.excludeFiles).mono
          fun _ h => h.allowed hf
        refine .bind hT (hbefore f) fun _ => .ite (.bind hT hall fun _ => .ite ?_ (.pure hT _)) ?_
        · exact .bind hT (.getLib hT) fun _ => .bind hT (strerror_enters hT _) fun _ =>
            .bind hT (hout _) fun _ => .pure hT _
        · refine .bind hT (.ite hwalk hone) fun _ => .ite (.bind hT ?_ fun _ => .pure hT _) ?_
          · refine .bind hT (.getLib hT) fun _ => .ite (.bind hT (hout _) fun _ => hout _) ?_
            exact .bind hT (.getLib hT) fun _ => .bind hT (strerror_enters hT _) fun _ => hout _
          · exact .bind hT (hafter f) fun _ => ih (List.subset_of_cons_subset hfs)
  exact heach list.watchFiles (List.Subset.refl _)

/-- Establishing the watches of a program adds nothing forbidden. -/
theorem Tool.establish_enters (tool : Tool) (fuel : Nat) :
    Enters (Allowed list) (tool.establish fuel list : M (Logged σ) Bool) := by
  have hT := allowed_composes list
  have hprint := ceprint_enters (σ := σ) hT
  have hexec : ∀ {g : Logged σ → Logged σ}, (∀ l, (g l).log = l.log) →
      Enters (Allowed list) (exec g : M (Logged σ) Unit) := fun h =>
    .exec fun l => ⟨[], (h l).trans (List.append_nil _).symm, hT.nil⟩
  cases tool with
  | wait o =>
      have hout : ∀ ps, Enters (Allowed list)
          (Inotifywait.outputError o.syslog ps : M (Logged σ) Unit) := fun ps =>
        .ite (hexec fun _ => rfl) (hexec fun _ => rfl)
      refine .ite (.bind hT (hprint _) fun _ => .pure hT _) ?_
      refine .bind hT (.ite (hout _) (.pure hT _)) fun _ => ?_
      refine .bind hT (watchList_enters hn list hout (fun _ => .pure hT _) (fun _ => .pure hT _)
        _ _ _ _ _ _) fun _ => .ite (.pure hT _) ?_
      refine .bind hT (.ite (hout _) (.pure hT _)) fun _ => ?_
      exact .ite (.bind hT (hprint _) fun _ => .pure hT _) (.pure hT _)
  | watch o =>
      have hout : ∀ ps, Enters (Allowed list)
          (exec (Sys.fwrite .stderr (cat ps)) : M (Logged σ) Unit) := fun _ => hexec fun _ => rfl
      refine .ite (.bind hT (hprint _) fun _ => .pure hT _) (.bind hT (hprint _) fun _ => ?_)
      refine .bind hT (watchList_enters hn list hout (fun f => ?_) (fun f => ?_) _ _ _ _ _ _) fun _ => .ite (.pure hT _) ?_
      · exact .ite (hprint _) (.ite (hprint _) (.pure hT _))
      · exact .ite (hprint _) (.pure hT _)
      · refine .bind hT (.bind hT (.getLib hT) fun _ => .pure hT _) fun _ => ?_
        refine .bind hT (.ite (hprint _) (.pure hT _)) fun _ => .bind hT (hprint _) fun _ => ?_
        refine .ite (.bind hT (hprint _) fun _ => .pure hT _) ?_
        refine .bind hT (.ite (hprint _) (.pure hT _)) fun _ => .bind hT ?_ fun _ => .pure hT _
        exact .bind hT (assertInit_enters hT) fun _ => .modifyLib hT _

end Startup

/-! ## Later -/

/-- Every directory that was to be watched had been found, or is `root`. -/
def FoundFirst (root : Option Bytes) (new : List Entry) : Prop :=
  ∀ q ∈ added new, root = some (spelled q.bytes) ∨ ∃ r ∈ found new, spelled r.bytes = spelled q.bytes

theorem foundFirst_composes (root : Option Bytes) : Composes (FoundFirst root) where
  nil := by simp [FoundFirst]
  append ha hb := by
    intro q hq
    rw [added_append, List.mem_append] at hq
    rw [found_append]
    rcases hq with hq | hq
    · exact (ha q hq).imp id fun ⟨r, hr, hs⟩ => ⟨r, List.mem_append_left _ hr, hs⟩
    · exact (hb q hq).imp id fun ⟨r, hr, hs⟩ => ⟨r, List.mem_append_right _ hr, hs⟩

theorem FoundFirst.of_none {root : Option Bytes} {new : List Entry} (h : NoneAdded new) :
    FoundFirst root new := by
  intro q hq
  rw [h] at hq
  cases hq

variable {w w' : World (Logged σ)}

/-- A program that watches nothing adds nothing. -/
theorem Sound.grows {α : Type} {S : Set Kind} {m : M (Logged σ) α} (hm : Sound S m)
    (hS : Kind.watch ∉ S) (hw : w.lib.store.WellIndexed) {a : α} (hrun : m w = .ok (a, w')) :
    Grows NoneAdded w w' := ((hm w hw).ok hrun).1.grows hS

/-- What is taken for a directory has been found to be one. -/
theorem isdir_found {p : Bytes} (hrun : isdir p w = .ok (true, w')) :
    ∃ new, w'.os.log = w.os.log ++ new ∧ NoneAdded new ∧ cstring p ∈ found new := by
  obtain ⟨mode, w₁, hstat, hrest⟩ := Prog.bind_ok hrun
  have hlog : w₁.os.log = w.os.log ++ [⟨.lstat (cstring p) mode, Sys.errno w₁.os⟩] := by
    cases hstat
    rfl
  cases mode with
  | none =>
      obtain ⟨_, _, -, hrest⟩ := Prog.bind_ok hrest
      obtain ⟨_, _, -, hrest⟩ := Prog.bind_ok hrest
      obtain ⟨_, _, -, hrest⟩ := Prog.bind_ok hrest
      cases hrest
  | some mode =>
      obtain ⟨hdir, rfl⟩ := Prod.mk.injEq .. ▸ Except.ok.inj hrest
      refine ⟨_, hlog, rfl, ?_⟩
      have hfound : (SysCall.lstat (cstring p) (some mode)).found = some (cstring p) :=
        if_pos (of_decide_eq_true hdir)
      rw [found, List.filterMap_cons, hfound]
      exact List.mem_cons_self

namespace MoveTracker

variable {out : List Piece → M (Logged σ) Unit}

/-- A new directory is watched after it was found. -/
theorem watchNew_found (hn : ProperNames σ) (h : Inotify w) (hout : Prints out) {fuel : Nat}
    {event : Event} {events : Int32} {announce : Bool} {u : Unit}
    (hrun : watchNew fuel event events announce out w = .ok (u, w')) :
    Grows (FoundFirst none) w w' := by
  have hT := foundFirst_composes (none)
  unfold watchNew at hrun
  rw [Prog.bind_run_ok (dirpathFromEvent_eq h event)] at hrun
  cases hpath : w.lib.store.dirpath event with
  | none =>
      rw [hpath] at hrun
      cases hrun
      exact .refl hT w
  | some newFile =>
      rw [hpath] at hrun
      dsimp only at hrun
      by_cases hempty : newFile.isEmpty = true
      · rw [if_pos hempty] at hrun
        cases hrun
        exact .refl hT w
      rw [if_neg hempty] at hrun
      obtain ⟨isDir, w₁, hisdir, hrest⟩ := Prog.bind_ok hrun
      cases isDir with
      | false =>
          cases hrest
          exact ((isdir_sound (S := ∅) newFile).grows nofun h.wellIndexed hisdir).mono fun _ => .of_none
      | true =>
          have hw₁ := ((isdir_sound (S := ∅) newFile w h.wellIndexed).ok hisdir).1.wellIndexed
            h.wellIndexed
          obtain ⟨new₁, hlog₁, hnone₁, hfound⟩ := isdir_found hisdir
          have hC := foundFirst_composes (some (spelled (cstring newFile).bytes))
          -- the rest adds what is found, and the directory itself
          have hrest : Grows (FoundFirst (some (spelled (cstring newFile).bytes))) w₁ w' := by
            obtain ⟨_, w₂, hann, hrest⟩ := Prog.bind_ok hrest
            have hsann : Sound ∅ (if announce then
                out [.text "Watching new directory ", .bytes newFile, .text "\n"] else pure ()) :=
              .ite (hout _) (.pure _)
            have hw₂ := ((hsann w₁ hw₁).ok hann).1.wellIndexed hw₁
            obtain ⟨ok, w₃, hwalk, hrest⟩ := Prog.bind_ok hrest
            have hw₃ := ((watchRecursivelyWithExclude_sound (S := {.watch}) rfl nofun fuel newFile
              events [] w₂ hw₂).ok hwalk).1.wellIndexed hw₂
            have hsrest : Sound ∅ (if (!ok) = true then do
                let e ← strerror (← getLib).error
                out [.text "Couldn't watch new directory ", .bytes newFile, .text ": ", .bytes e,
                  .text "\n"]
              else pure () : M (Logged σ) Unit) :=
              .ite (.bind .getLib fun _ => .bind (strerror_sound _) fun _ => hout _) (.pure _)
            have h₁ : Grows (FoundFirst (some (spelled (cstring newFile).bytes))) w₁ w₂ :=
              (hsann.grows nofun hw₁ hann).mono fun _ => .of_none
            have h₂ : Grows (FoundFirst (some (spelled (cstring newFile).bytes))) w₂ w₃ :=
              (watchRecursivelyWithExclude_enters hn fuel newFile events [] w₂ ok w₃ hwalk).mono
                fun _ hw q hq => (hw q hq).2.2.imp (fun heq => congrArg some heq.symm) id
            exact (h₁.trans hC h₂).trans hC ((hsrest.grows nofun hw₃ hrest).mono fun _ => .of_none)
          obtain ⟨new₂, hlog₂, hfirst⟩ := hrest
          refine ⟨new₁ ++ new₂, by rw [hlog₂, hlog₁, List.append_assoc], fun q hq => .inr ?_⟩
          rw [added_append, hnone₁, List.nil_append] at hq
          rw [found_append]
          rcases hfirst q hq with heq | ⟨r, hr, hs⟩
          · exact ⟨_, List.mem_append_left _ hfound, Option.some_inj.1 heq⟩
          · exact ⟨r, List.mem_append_right _ hr, hs⟩

/-- Handling an event, the tracker asks to watch what it has found. -/
theorem handle_found (hz : ¬ AnsweredZero (Logged σ)) (hn : ProperNames σ) (h : Inotify w)
    (hout : Prints out) {t t' : MoveTracker} {fuel : Nat} {event : Event} {recursive : Bool}
    {events : Int32} {announce : Bool}
    (hrun : t.handle fuel event recursive events announce out w = .ok (t', w')) :
    Grows (FoundFirst none) w w' := by
  have hT := foundFirst_composes none
  obtain ⟨t₁, w₁, hsettle, hrest⟩ := Prog.bind_ok hrun
  have hs := settle_sound (S := {.remove}) rfl hout t event
  have he := ((hs w h.wellIndexed).ok hsettle).1
  have h₁ : Inotify w₁ := h.effects hz he nofun
  refine ((he.grows nofun).mono fun _ => FoundFirst.of_none).trans hT ?_
  cases recursive with
  | false =>
      cases hrest
      exact .refl hT _
  | true =>
      change t₁.follow fuel event events announce out w₁ = _ at hrest
      unfold follow at hrest
      dsimp only at hrest
      by_cases hnew : event.mask.toInt32 &&& inCreate ≠ 0 ∨
          t₁.movedFrom.isNone ∧ event.mask.toInt32 &&& inMovedTo ≠ 0
      · rw [if_pos hnew] at hrest
        obtain ⟨_, w₂, hwatch, hrest⟩ := Prog.bind_ok hrest
        cases hrest
        exact watchNew_found hn h₁ hout hwatch
      · rw [if_neg hnew] at hrest
        -- moves only rename
        refine (Sound.grows (S := {.rename}) ?_ nofun h₁.wellIndexed hrest).mono fun _ => .of_none
        refine .ite ?_ (.ite ?_ (.pure _))
        · exact .bind (dirpathFromEvent_sound event) fun _ => .bind (wdFromFilename_sound _) fun _ =>
            .ite (.pure _) (.pure _)
        · cases t₁.movedFrom with
          | none => exact .pure _
          | some mf =>
              exact .bind (dirpathFromEvent_sound event) fun _ =>
                .bind (replaceFilename_sound (S := {.rename}) rfl mf _) fun _ => .pure _

end MoveTracker

/-- The directories found between two worlds. -/
def foundBetween (w w' : World (Logged σ)) : List CString :=
  found (w'.os.log.drop w.os.log.length)

/-- No directory that was found between two worlds is forbidden. -/
def FindsAllowed (list : FileList) (w w' : World (Logged σ)) : Prop :=
  ∀ r ∈ foundBetween w w', ¬ list.Forbids r.bytes

instance (list : FileList) (w w' : World (Logged σ)) : Decidable (FindsAllowed list w w') :=
  inferInstanceAs (Decidable (∀ r ∈ foundBetween w w', ¬ list.Forbids r.bytes))

/-- **Excluded directories stay unwatched** in every run whose turns find none of them: no directory
    at or below an excluded one was ever to be watched, but for start paths that are there themselves
    and what is below these. -/
theorem excluded_unwatched (hz : ¬ AnsweredZero σ) (hn : ProperNames σ) {tool : Tool}
    (ht : tool.fanotify = false) {args : List Bytes} {env : Logged σ → Logged σ → Prop}
    (henv : ∀ l l', env l l' → l'.log = l.log) {os : σ} {list : FileList}
    {moves : Option MoveTracker}
    (h : tool.Run args env FindsAllowed { os } list w moves) :
    ∀ q ∈ added w.os.log, ¬ list.Forbids q.bytes := by
  have hz := Logged.not_answeredZero hz
  suffices hall : Inotify w ∧ ∀ q ∈ added w.os.log, ¬ list.Forbids q.bytes from hall.2
  induction h with
  | @start w₁ w fuel established hlist hrun =>
      have h₁ := Tool.listed_inotify hz ht hlist
      have hsetup := tool.listed_sound (σ := Logged σ) (S := {.config, .lifecycle, .stats}) (.inl rfl)
        (.inr (.inl rfl)) (.inr (.inr rfl)) args
      have hwatch := tool.establish_sound (σ := Logged σ) (S := {.watch, .stats}) (.inl rfl) (.inr rfl)
        (by rintro (h | h) <;> cases h) fuel list
      have he := ((hwatch w₁ h₁.wellIndexed).ok hrun).1
      obtain ⟨new₁, hlog₁, hnone⟩ := hsetup.grows (by rintro (h | h | h) <;> cases h)
        Store.wellIndexed_empty hlist
      obtain ⟨new₂, hlog₂, hallowed⟩ := tool.establish_enters hn list fuel w₁ _ w hrun
      refine ⟨h₁.effects hz he (by rintro (h | h) <;> cases h), fun q hq => hallowed q ?_⟩
      rw [hlog₂, hlog₁, added_append, added_append, hnone] at hq
      exact hq
  | env _ he ih =>
      obtain ⟨hw, hall⟩ := ih
      refine ⟨⟨hw.initialized, hw.mode, hw.wellIndexed, hw.plain⟩, ?_⟩
      rw [henv _ _ he]
      exact hall
  | @turn w w' _ _ fuel _ hrun hok ih =>
      obtain ⟨hw, hall⟩ := ih
      have hT := foundFirst_composes none
      have hl : Kind.watch ∉ Reading := by rintro (h | h) <;> cases h
      obtain ⟨⟨new, hlog, hfirst⟩, hw'⟩ := Tool.turn_rel hz (R := Grows (FoundFirst none))
        (fun h h' => h.trans hT h') (fun _ he => (he.grows hl).mono fun _ => .of_none)
        (fun h hout hrun => MoveTracker.handle_found hz hn h hout hrun) hw hrun
      refine ⟨hw', fun q hq => ?_⟩
      rw [hlog, added_append, List.mem_append] at hq
      rcases hq with hq | hq
      · exact hall q hq
      · rcases hfirst q hq with hnone | ⟨r, hr, hs⟩
        · cases hnone
        · have hbetween : foundBetween w w' = found new := by
            rw [foundBetween, hlog, List.drop_left]
          have hfree := hok r (hbetween ▸ hr)
          unfold FileList.Forbids at hfree ⊢
          rwa [hs] at hfree

/-! ## On the desk -/

namespace Desk

/-- `inotifywait -m -r d @d/b`. -/
def following : Tool := .wait { monitor := true, recursive := 1 }

def followed : FileList := { watchFiles := [ascii "d"], excludeFiles := [ascii "d/b"] }

/-- The directory "d", in which a directory `name` is about to be reported. -/
def announcing (name : Bytes) : Logged Desk :=
  let r : Record := { wd := 1, mask := 0x40000100, cookie := 0, name := name ++ [0] }
  { os := { dirs := [ascii "d"], chunks := [r.encode] } }

/-- The program has set up its watches. -/
def followStart (name : Bytes) : World (Logged Desk) :=
  following.launch 9 [ascii "d", ascii "@d/b"] followed (announcing name)

/-- The directory `p` is created. -/
def mkdir (p : Bytes) (l : Logged Desk) : Logged Desk :=
  { l with os := { l.os with dirs := l.os.dirs ++ [p] } }

/-- A directory has been created. -/
def followMkdir (name : Bytes) : World (Logged Desk) :=
  { lib := (followStart name).lib, os := mkdir (ascii "d/" ++ name) (followStart name).os }

/-- A directory has been created, and a turn made. -/
def followCreated (name : Bytes) : World (Logged Desk) :=
  (following.turn 9 {}).after (followMkdir name)

theorem followCreated_run (name : Bytes) (ok : FileList → World (Logged Desk) → World (Logged Desk) → Prop)
    (hlist : (following.listed [ascii "d", ascii "@d/b"]).result
      { lib := Inotifytools.new, os := announcing name } = some (some followed))
    (hestablish : (following.establish 9 followed).result
      ((following.listed [ascii "d", ascii "@d/b"]).after
        { lib := Inotifytools.new, os := announcing name }) = some true)
    (hturn : (following.turn 9 {}).result (followMkdir name) = some (some {}))
    (hok : ok followed (followMkdir name) (followCreated name)) :
    following.Run [ascii "d", ascii "@d/b"] (fun l l' => l' = mkdir (ascii "d/" ++ name) l) ok
      (announcing name) followed (followCreated name) (some {}) := by
  have hstart := following.launch_run (fun l l' => l' = mkdir (ascii "d/" ++ name) l) ok hlist hestablish
  have hmkdir : following.Run [ascii "d", ascii "@d/b"] (fun l l' => l' = mkdir (ascii "d/" ++ name) l)
      ok (announcing name) followed (followMkdir name) (some {}) := .env hstart rfl
  exact .turn hmkdir (Prog.run_of_result hturn) hok

end Desk

/-- An excluded directory that is created while the program runs is watched. -/
theorem created_watched :
    ∃ w : World (Logged Desk), Desk.following.Run [ascii "d", ascii "@d/b"]
        (fun l l' => l' = Desk.mkdir (ascii "d/" ++ ascii "b") l) (fun _ _ _ => True)
        (Desk.announcing (ascii "b")) Desk.followed w (some {}) ∧
      cstring (ascii "d/b/") ∈ added w.os.log ∧ Desk.followed.Forbids (cstring (ascii "d/b/")).bytes :=
  ⟨_, Desk.followCreated_run (ascii "b") _ (by decide +kernel) (by decide +kernel)
    (by decide +kernel) trivial, by decide +kernel, by decide +kernel⟩

/-- A directory that is not excluded is created, and watched. -/
theorem excluded_unwatched_desk :
    let w := Desk.followCreated (ascii "c")
    cstring (ascii "d/c/") ∈ added w.os.log ∧
      ∀ q ∈ added w.os.log, ¬ Desk.followed.Forbids q.bytes := by
  intro w
  have hrun : Desk.following.Run [ascii "d", ascii "@d/b"]
      (fun l l' => l' = Desk.mkdir (ascii "d/" ++ ascii "c") l) FindsAllowed
      (Desk.announcing (ascii "c")) Desk.followed w (some {}) :=
    Desk.followCreated_run (ascii "c") FindsAllowed (by decide +kernel) (by decide +kernel)
      (by decide +kernel) (by decide +kernel)
  have hlog : ∀ l l' : Logged Desk, l' = Desk.mkdir (ascii "d/" ++ ascii "c") l → l'.log = l.log := by
    rintro l _ rfl
    rfl
  exact ⟨by decide +kernel, excluded_unwatched Desk.kernelWatches.not_answeredZero
    (fun _ _ _ h => nomatch h) rfl hlog hrun⟩

end InotifyTools
