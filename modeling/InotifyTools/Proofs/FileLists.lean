import InotifyTools.Implementation.Desk
import InotifyTools.Tools.Common
import Mathlib.Data.List.Basic

set_option autoImplicit false

/-! # Lists of files

A name reaches the list of files as an argument, or as a line of the file given with `--fromfile`.
The lines go through a buffer of `maxlen` bytes, which has no room for the longest path and its
newline: the newline is then read as a line of its own, and entered as a file without a name. -/

namespace InotifyTools

/-- A path that the kernel accepts, as a line can hold it. -/
structure Listable (name : Bytes) : Prop where
  nonempty : name ≠ []
  isFile : name ≠ [atSign]
  noNul : 0 ∉ name
  oneLine : 0x0a ∉ name
  fits : name.length ≤ pathMax - 1

/-- The names one per line. -/
def fileLines (names : List Bytes) : Bytes := names.flatMap (· ++ [0x0a])

/-! ## Reading a line -/

variable {name rest : Bytes} {names : List Bytes}

theorem line_length (hname : 0x0a ∉ name) (rest : Bytes) :
    ((name ++ 0x0a :: rest).takeWhile (· ≠ 0x0a)).length = name.length := by
  have hbefore : ∀ c ∈ name, decide (c ≠ 0x0a) = true :=
    fun _ hc => decide_eq_true fun h => hname (h ▸ hc)
  rw [List.takeWhile_append_of_pos hbefore, List.takeWhile_cons_of_neg (by decide), List.append_nil]

theorem takeWhile_nul (hname : 0 ∉ name) : name.takeWhile (· ≠ 0) = name :=
  List.takeWhile_eq_self_iff.2 fun _ hc => decide_eq_true fun h => hname (h ▸ hc)

/-- What `fgets` returns: a line with its newline, if the buffer has room for both. -/
theorem fgets_line (hname : Listable name) (hroom : name.length < maxlen - 1) (rest : Bytes) :
    fgets (name ++ 0x0a :: rest) = some (name ++ [0x0a], rest) := by
  have hnul : 0 ∉ name ++ [0x0a] := by
    rw [List.mem_append, not_or]
    exact ⟨hname.noNul, by decide⟩
  have hsplit : name ++ 0x0a :: rest = (name ++ [0x0a]) ++ rest := List.append_cons ..
  have hlength : (name ++ [0x0a]).length = name.length + 1 := List.length_append
  rw [fgets, if_neg (by simp), line_length hname.oneLine]
  dsimp only
  rw [Nat.min_eq_left hroom, hsplit, List.take_left' hlength, List.drop_left' hlength,
    takeWhile_nul hnul]

/-- A name that fills the buffer leaves its newline behind. -/
theorem fgets_full (hname : Listable name) (hfull : name.length = maxlen - 1) (rest : Bytes) :
    fgets (name ++ 0x0a :: rest) = some (name, 0x0a :: rest) := by
  rw [fgets, if_neg (by simp), line_length hname.oneLine]
  dsimp only
  rw [Nat.min_eq_right (by omega), List.take_left' hfull, List.drop_left' hfull,
    takeWhile_nul hname.noNul]

/-! ## Entering a line -/

/-- Without its newline, a line is entered like an argument. -/
theorem addLine_cut (hname : Listable name) (list : FileList) : list.addLine name = list.add name := by
  have hempty : ¬name.isEmpty := fun h => hname.nonempty (List.isEmpty_iff.1 h)
  have hlast : name.getLast? ≠ some 0x0a := fun h => hname.oneLine (List.mem_of_getLast? h)
  have hat : ¬(name.length = 1 ∧ name.head? = some atSign) := by
    rintro ⟨hlength, hhead⟩
    obtain ⟨c, rfl⟩ := List.length_eq_one_iff.1 hlength
    exact hname.isFile (by rw [Option.some.inj hhead])
  rw [FileList.addLine, FileList.add, if_neg hempty, if_neg hlast, if_neg hat,
    if_neg (not_or.2 ⟨hempty, hname.isFile⟩)]

/-- Its newline makes no difference. -/
theorem addLine_ended (hname : Listable name) (list : FileList) :
    list.addLine (name ++ [0x0a]) = list.add name := by
  have hempty : ¬name.isEmpty := fun h => hname.nonempty (List.isEmpty_iff.1 h)
  have hlength : ¬((name ++ [0x0a]).length = 1 ∧ name.head? = some atSign) := by
    rintro ⟨h, -⟩
    rw [List.length_append, List.length_singleton] at h
    exact hname.nonempty (List.eq_nil_of_length_eq_zero (by omega))
  rw [FileList.addLine, FileList.add, if_neg (by simp), if_pos List.getLast?_concat,
    List.dropLast_concat, if_neg hlength, if_neg (not_or.2 ⟨hempty, hname.isFile⟩)]

/-- Enter a name from the file: one that fills the buffer brings a nameless file with it. -/
def FileList.addListed (list : FileList) (name : Bytes) : FileList :=
  if name.length < maxlen - 1 then list.add name else (list.add name).addLine [0x0a]

theorem fileLines_cons (name : Bytes) (names : List Bytes) :
    fileLines (name :: names) = name ++ 0x0a :: fileLines names := by
  rw [fileLines, List.flatMap_cons, List.append_assoc]
  rfl

theorem addLines_newline (fuel : Nat) (list : FileList) (rest : Bytes) :
    FileList.addLines (fuel + 1) list (0x0a :: rest)
      = FileList.addLines fuel (list.addLine [0x0a]) rest := rfl

theorem addLines_fileLines (hnames : ∀ name ∈ names, Listable name) {fuel : Nat} (list : FileList)
    (hfuel : (fileLines names).length ≤ fuel) :
    FileList.addLines fuel list (fileLines names) = names.foldl FileList.addListed list := by
  induction names generalizing list fuel with
  | nil => cases fuel <;> rfl
  | cons name names ih =>
      have hname := hnames name List.mem_cons_self
      have hrest := fun name hmem => hnames name (List.mem_cons_of_mem _ hmem)
      have hpos : 0 < name.length := List.length_pos_iff.2 hname.nonempty
      rw [fileLines_cons, List.length_append, List.length_cons] at hfuel
      obtain ⟨fuel, rfl⟩ : ∃ n, fuel = n + 2 := ⟨fuel - 2, by omega⟩
      rw [fileLines_cons, List.foldl_cons, FileList.addLines, FileList.addListed]
      by_cases hroom : name.length < maxlen - 1
      · rw [fgets_line hname hroom, if_pos hroom]
        dsimp only
        rw [addLine_ended hname, ih hrest _ (by omega)]
      · have hfull : name.length = maxlen - 1 :=
          le_antisymm hname.fits (Nat.le_of_not_lt hroom)
        rw [fgets_full hname hfull, if_neg hroom]
        dsimp only
        rw [addLine_cut hname, addLines_newline, ih hrest _ (by omega)]

/-! ## Nameless files -/

theorem add_named {list : FileList} (h : [] ∉ list.watchFiles) (name : Bytes) :
    [] ∉ (list.add name).watchFiles := by
  unfold FileList.add
  split
  · exact h
  · next hname =>
      split
      · exact h
      · rw [List.mem_append, List.mem_singleton, not_or]
        exact ⟨h, fun hempty => hname (.inl (by rw [← hempty]; rfl))⟩

/-- An argument is never a nameless file. -/
theorem foldl_add_named {list : FileList} (h : [] ∉ list.watchFiles) (names : List Bytes) :
    [] ∉ (names.foldl FileList.add list).watchFiles := by
  induction names generalizing list with
  | nil => exact h
  | cons name names ih => exact ih (add_named h name)

theorem watchFiles_add (list : FileList) (name : Bytes) :
    list.watchFiles ⊆ (list.add name).watchFiles := by
  unfold FileList.add
  split
  · exact List.Subset.refl _
  · split
    · exact List.Subset.refl _
    · exact List.subset_append_left _ _

theorem watchFiles_addListed (list : FileList) (name : Bytes) :
    list.watchFiles ⊆ (list.addListed name).watchFiles := by
  unfold FileList.addListed
  split
  · exact watchFiles_add list name
  · exact List.Subset.trans (watchFiles_add list name) (List.subset_append_left _ _)

theorem watchFiles_foldl_addListed (list : FileList) (names : List Bytes) :
    list.watchFiles ⊆ (names.foldl FileList.addListed list).watchFiles := by
  induction names generalizing list with
  | nil => exact List.Subset.refl _
  | cons name names ih => exact List.Subset.trans (watchFiles_addListed list name) (ih _)

/-- A name that fills the buffer leaves a nameless file in the list. -/
theorem foldl_addListed_nameless {list : FileList} (hname : name ∈ names)
    (hfull : ¬name.length < maxlen - 1) :
    [] ∈ (names.foldl FileList.addListed list).watchFiles := by
  obtain ⟨before, after, rfl⟩ := List.append_of_mem hname
  rw [List.foldl_append, List.foldl_cons]
  refine watchFiles_foldl_addListed _ after ?_
  rw [FileList.addListed, if_neg hfull]
  exact List.mem_append_right _ List.mem_cons_self

theorem foldl_addListed_eq_iff {list : FileList} (h : [] ∉ list.watchFiles) (names : List Bytes) :
    names.foldl FileList.addListed list = names.foldl FileList.add list
      ↔ ∀ name ∈ names, name.length < maxlen - 1 := by
  constructor
  · intro heq name hname
    by_contra hfull
    have hnamed := foldl_add_named h names
    rw [← heq] at hnamed
    exact hnamed (foldl_addListed_nameless hname hfull)
  · intro hroom
    exact List.foldl_ext _ _ _ fun list name hname => if_pos (hroom name hname)

/-! ## Building the list -/

variable {σ : Type} [Sys σ] {w : World σ}

/-- What `--fromfile` reads. -/
def listFile (filename : Bytes) : Option CString :=
  if filename = ascii "-" then none else some (cstring filename)

theorem constructPathList_args (names : List Bytes) (w : World σ) :
    constructPathList names none w = .ok (some (names.foldl FileList.add {}), w) := rfl

theorem constructPathList_fromfile (hnames : ∀ name ∈ names, Listable name) {filename : Bytes}
    (hfile : (Sys.slurp (listFile filename) w.os).1 = some (fileLines names)) :
    ∃ w', constructPathList [] (some filename) w
      = .ok (some (names.foldl FileList.addListed {}), w') := by
  have hread : call (Sys.slurp (listFile filename)) w
      = .ok (some (fileLines names), { w with os := (Sys.slurp (listFile filename) w.os).2 }) := by
    rw [← hfile]
    rfl
  refine ⟨{ w with os := (Sys.slurp (listFile filename) w.os).2 }, ?_⟩
  refine (Prog.bind_run_ok hread).trans ?_
  dsimp only
  rw [addLines_fileLines hnames {} le_rfl]
  rfl

/-- **A file list and an argument list mean the same just when every name leaves the line buffer
    room for its newline.** -/
theorem fromfile_same_iff (hnames : ∀ name ∈ names, Listable name) {filename : Bytes}
    (hfile : (Sys.slurp (listFile filename) w.os).1 = some (fileLines names)) :
    ∃ listed given w', constructPathList [] (some filename) w = .ok (some listed, w') ∧
      constructPathList names none w = .ok (some given, w) ∧
      (listed = given ↔ ∀ name ∈ names, name.length < maxlen - 1) := by
  obtain ⟨w', hlisted⟩ := constructPathList_fromfile hnames hfile
  exact ⟨_, _, w', hlisted, constructPathList_args names w,
    foldl_addListed_eq_iff List.not_mem_nil names⟩

/-- A file `list` with a name to watch and one to leave out. -/
def deskList : World Desk where
  os := { files := [(ascii "list", fileLines [ascii "a b", ascii "@c"])] }
  lib := Inotifytools.new

theorem fromfile_same_desk :
    ∃ listed given w', constructPathList [] (some (ascii "list")) deskList = .ok (some listed, w') ∧
      constructPathList [ascii "a b", ascii "@c"] none deskList = .ok (some given, deskList) ∧
      listed = given := by
  have hnames : ∀ name ∈ [ascii "a b", ascii "@c"], Listable name :=
    List.forall_mem_cons.2 ⟨⟨by decide, by decide, by decide, by decide, by decide⟩,
      List.forall_mem_singleton.2 ⟨by decide, by decide, by decide, by decide, by decide⟩⟩
  have hfile : (Sys.slurp (listFile (ascii "list")) deskList.os).1
      = some (fileLines [ascii "a b", ascii "@c"]) := by decide
  obtain ⟨listed, given, w', hlisted, hgiven, hsame⟩ := fromfile_same_iff hnames hfile
  exact ⟨listed, given, w', hlisted, hgiven, hsame.2 (by decide)⟩

/-- A path as long as the kernel takes it: the root, with all its slashes. -/
def longest : Bytes := List.replicate (pathMax - 1) slash

def deskLongest : World Desk where
  os := { files := [(ascii "list", fileLines [longest])] }
  lib := Inotifytools.new

theorem longest_eq : longest = slash :: List.replicate (pathMax - 2) slash := rfl

theorem listable_longest : Listable longest where
  nonempty := List.replicate_succ_ne_nil
  isFile h := absurd (congrArg List.length h) (by rw [longest, List.length_replicate]; decide)
  noNul h := absurd (List.eq_of_mem_replicate h) (by decide)
  oneLine h := absurd (List.eq_of_mem_replicate h) (by decide)
  fits := (List.length_replicate ..).le

/-- Read from a file, the longest path brings a file without a name into the list. -/
theorem longest_name_differs :
    Listable longest ∧
      (Sys.slurp (listFile (ascii "list")) deskLongest.os).1 = some (fileLines [longest]) ∧
      ∃ listed given w', constructPathList [] (some (ascii "list")) deskLongest
          = .ok (some listed, w') ∧
        constructPathList [longest] none deskLongest = .ok (some given, deskLongest) ∧
        listed.watchFiles = [longest, []] ∧ given.watchFiles = [longest] := by
  have hfile : (Sys.slurp (listFile (ascii "list")) deskLongest.os).1
      = some (fileLines [longest]) := rfl
  have hgiven : FileList.add {} longest = { watchFiles := [longest] } := by
    rw [longest_eq]
    rfl
  have hlisted : [longest].foldl FileList.addListed {} = { watchFiles := [longest, []] } := by
    have hfull : ¬longest.length < maxlen - 1 := by
      rw [longest, List.length_replicate]
      decide
    rw [List.foldl_cons, FileList.addListed, if_neg hfull, hgiven]
    rfl
  obtain ⟨w', hrun⟩ := constructPathList_fromfile (List.forall_mem_singleton.2 listable_longest) hfile
  rw [hlisted] at hrun
  refine ⟨listable_longest, hfile, _, _, w', hrun, constructPathList_args _ _, rfl, ?_⟩
  rw [List.foldl_cons, hgiven]
  rfl

end InotifyTools
