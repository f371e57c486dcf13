import InotifyTools.Base.PostOrder
import InotifyTools.Implementation.Planted
import InotifyTools.Proofs.WalkCalls

set_option autoImplicit false

/-! # The walk of a tree

Where a walk finds the same tree from its beginning to its end, it watches the directories of the tree
in post-order. What it relies on is collected in `Surveyable`. -/

namespace InotifyTools

/-! ## Trees -/

theorem Node.eq_directory {n : Node} (h : n.isReadable = true) : ∃ names, n = .directory names := by
  cases n with
  | directory names => exact ⟨names, rfl⟩
  | other | «sealed» => cases h

namespace FileTree

variable (t : FileTree) (ex : List Bytes)

/-- `d'` is a directory in `d`, neither hidden nor sealed nor excluded. -/
inductive Subdirectory (d : Bytes) : Bytes → Prop
  | mk {n : CString} (hn : n ∈ (t.look d).names) (hdot : n.bytes ≠ ascii "." ∧ n.bytes ≠ ascii "..")
      (hseen : t.hidden (d ++ n.bytes) = false) (hread : (t.node (d ++ n.bytes)).isReadable = true)
      (hex : ∀ e ∈ ex, spelled e ≠ d ++ n.bytes ++ [slash]) : Subdirectory d (d ++ n.bytes ++ [slash])

/-- Whether the walk of `d` watches the entry `n`. -/
def enters (d : Bytes) (n : CString) : Bool :=
  (n.bytes ≠ ascii "." ∧ n.bytes ≠ ascii "..") ∧ t.hidden (d ++ n.bytes) = false ∧
    (t.node (d ++ n.bytes)).isReadable = true ∧ isExcluded (d ++ n.bytes ++ [slash]) ex = false

/-- Of the entries `names` of `d`, the directories that the walk watches. -/
def entered (d : Bytes) (names : List CString) : List Bytes :=
  (names.filter (t.enters ex d)).map fun n => d ++ n.bytes ++ [slash]

/-- The directories below `d` that its walk goes on with. -/
def below (d : Bytes) : List Bytes := t.entered ex d (t.look d).names

theorem mem_below {d d' : Bytes} : d' ∈ t.below ex d ↔ t.Subdirectory ex d d' := by
  have hex : ∀ n : CString, isExcluded (d ++ n.bytes ++ [slash]) ex = false ↔
      ∀ e ∈ ex, spelled e ≠ d ++ n.bytes ++ [slash] := by
    intro n
    rw [← Bool.not_eq_true, isExcluded_iff]
    simp
  unfold below entered
  rw [List.mem_map]
  constructor
  · rintro ⟨n, hn, rfl⟩
    obtain ⟨hn, henters⟩ := List.mem_filter.1 hn
    obtain ⟨hdot, hseen, hread, hexcluded⟩ := of_decide_eq_true henters
    exact .mk hn hdot hseen hread ((hex n).1 hexcluded)
  · rintro ⟨hn, hdot, hseen, hread, hexcluded⟩
    exact ⟨_, List.mem_filter.2 ⟨hn, decide_eq_true ⟨hdot, hseen, hread, (hex _).2 hexcluded⟩⟩, rfl⟩

theorem reaches_below {d d' : Bytes} :
    Reaches (t.below ex) d d' ↔ Relation.ReflTransGen (t.Subdirectory ex) d d' := by
  unfold Reaches
  simp only [mem_below]

variable {t ex}

theorem Subdirectory.prefix {d d' : Bytes} (h : t.Subdirectory ex d d') : d <+: d' := by
  cases h
  rw [List.append_assoc]
  exact List.prefix_append _ _

theorem Subdirectory.readable {d d' : Bytes} (h : t.Subdirectory ex d d') :
    (t.look d').isReadable = true := by
  cases h with
  | mk hn hdot hseen hread hex =>
      rw [FileTree.look, trim_concat]
      exact hread

theorem prefix_of_reaches {d d' : Bytes} (h : Reaches (t.below ex) d d') : d <+: d' := by
  rw [reaches_below] at h
  induction h with
  | refl => exact List.prefix_rfl
  | tail _ hsub ih => exact ih.trans hsub.prefix

/-- Different names in a directory lead to different paths. -/
theorem below_apart {d : Bytes} : (t.below ex d).Pairwise fun b c => ∀ x y,
    Reaches (t.below ex) b x → Reaches (t.below ex) c y → ¬ x <+: y := by
  unfold below entered
  rw [List.pairwise_map]
  obtain ⟨hnodup, hproper⟩ := t.proper (Desk.trim d)
  refine (hnodup.filter _).imp_of_mem fun {n m} hn hm hne x y hx hy hpre => ?_
  have hname := (hproper n (List.mem_filter.1 hn).1).2
  have hname' := (hproper m (List.mem_filter.1 hm).1).2
  have hpre₁ := (prefix_of_reaches hx).trans hpre
  have hpre₂ := prefix_of_reaches hy
  obtain ⟨rest, rfl⟩ : d <+: y := by
    rw [List.append_assoc] at hpre₂
    exact (List.prefix_append _ _).trans hpre₂
  rw [List.append_assoc, List.prefix_append_right_inj] at hpre₁ hpre₂
  refine hne (CString.ext ?_)
  rw [← takeWhile_name hname hpre₁, takeWhile_name hname' hpre₂]

/-- A walk that goes by the tree lists no directory before what lies below it. -/
theorem postOrder_pairwise {root : Bytes} {l : List Bytes}
    (h : PostOrder (t.below ex) [root] l) : l.Pairwise fun p q => ¬ p <+: q := by
  refine h.pairwise (fun a c x hc hx hpre => ?_) (fun _ => below_apart) (List.pairwise_singleton _ _)
  have hlen := (prefix_of_reaches hx).length_le
  have hlen' := hpre.length_le
  cases (mem_below t ex).1 hc
  simp only [List.length_append, List.length_singleton] at hlen
  omega

end FileTree

/-! ## What a walk relies on -/

/-- A system call that looks at a file or reads a directory. -/
inductive Peek {σ : Type} [Sys σ] : σ → σ → Prop
  | opendir (p : CString) (os : σ) : Peek os (Sys.opendir p os).2
  | readdir (dir : Nat) (os : σ) : Peek os (Sys.readdir dir os).2
  | closedir (dir : Nat) (os : σ) : Peek os (Sys.closedir dir os)
  | lstat (p : CString) (os : σ) : Peek os (Sys.lstat p os).2

variable {σ : Type} [Sys σ]

/-- In the worlds `I l`, where the paths `l` may still be watched, the tree `t` is found, and `pending`
    is what an open directory stream has not yielded yet. `T l` is what may be said of two worlds
    between which the paths `l` were watched. -/
structure Surveyable (t : FileTree) (pending : σ → Nat → Option (List CString))
    (I : List Bytes → World σ → Prop) (T : List Bytes → World σ → World σ → Prop) : Prop where
  initialized : ∀ {l : List Bytes} {w : World σ}, I l w → w.lib.initialized = true
  refl : ∀ w : World σ, T [] w w
  trans : ∀ {l l' : List Bytes} {w w' w'' : World σ}, T l w w' → T l' w' w'' → T (l ++ l') w w''
  error : ∀ {l : List Bytes} {w : World σ} (error : Int32), I l w →
    I l { w with lib := { w.lib with error } } ∧ T [] w { w with lib := { w.lib with error } }
  peek : ∀ {l : List Bytes} {w : World σ} {os : σ}, I l w → Peek w.os os →
    I l { w with os } ∧ T [] w { w with os }
  opendir : ∀ {l : List Bytes} {w : World σ} (p : CString) {names : List CString}, I l w →
    t.look p.bytes = .directory names → ∃ dir, (Sys.opendir p w.os).1 = some dir ∧
      pending w.os dir = none ∧
      pending (Sys.opendir p w.os).2 = Function.update (pending w.os) dir (some names)
  opendir_sealed : ∀ {l : List Bytes} {w : World σ} (p : CString), I l w → t.look p.bytes = .sealed →
    (Sys.opendir p w.os).1 = none ∧ Sys.errno (Sys.opendir p w.os).2 = eacces ∧
      pending (Sys.opendir p w.os).2 = pending w.os
  readdir_cons : ∀ {l : List Bytes} {w : World σ} (dir : Nat) {n : CString} {names : List CString},
    I l w → pending w.os dir = some (n :: names) → (Sys.readdir dir w.os).1 = some n ∧
      pending (Sys.readdir dir w.os).2 = Function.update (pending w.os) dir (some names)
  readdir_nil : ∀ {l : List Bytes} {w : World σ} (dir : Nat), I l w → pending w.os dir = some [] →
    (Sys.readdir dir w.os).1 = none ∧ pending (Sys.readdir dir w.os).2 = pending w.os
  closedir : ∀ {l : List Bytes} {w : World σ} (dir : Nat), I l w →
    pending (Sys.closedir dir w.os) = Function.update (pending w.os) dir none
  lstat : ∀ {l : List Bytes} {w : World σ} (p : CString), I l w →
    t.hidden (Desk.trim p.bytes) = false → ∃ mode, (Sys.lstat p w.os).1 = some mode ∧
      (mode &&& sIfmt = sIfdir ↔ (t.look p.bytes).isDirectory = true)
  lstat_hidden : ∀ {l : List Bytes} {w : World σ} (p : CString), I l w →
    t.hidden (Desk.trim p.bytes) = true →
    (Sys.lstat p w.os).1 = none ∧ Sys.errno (Sys.lstat p w.os).2 = eacces
  lstat_pending : ∀ {l : List Bytes} {w : World σ} (p : CString), I l w →
    pending (Sys.lstat p w.os).2 = pending w.os
  watch : ∀ {l : List Bytes} {w : World σ} (fuel : Nat) (p : CString) (events : Int32),
    I (spelled p.bytes :: l) w → (t.look p.bytes).isReadable = true → ∃ w',
      watchFile fuel (spelled p.bytes) events w = .ok (true, w') ∧ I l w' ∧
      pending w'.os = pending w.os ∧ T [spelled p.bytes] w w'

namespace Surveyable

section

variable (pending : σ → Nat → Option (List CString)) (I : List Bytes → World σ → Prop)
  (T : List Bytes → World σ → World σ → Prop)

/-- Between `w` and `w'` the paths `l` were watched, and no stream stayed open or was read; `rest` may
    still be watched. -/
structure Adds (l rest : List Bytes) (w w' : World σ) : Prop where
  inv : I rest w'
  pending : pending w'.os = pending w.os
  watched : T l w w'

/-- Between `w` and `w'` the stream `dir` was read to its end, and the paths `l` were watched. -/
structure Scans (dir : Nat) (l rest : List Bytes) (w w' : World σ) : Prop where
  inv : I rest w'
  pending : pending w'.os = Function.update (pending w.os) dir (some [])
  watched : T l w w'

/-- The runs of `m` succeed, and watch the paths `l`. -/
def Visits (m : M σ Bool) (l : List Bytes) : Prop :=
  ∀ rest w, I (l ++ rest) w → ∃ w', m w = .ok (true, w') ∧ Adds pending I T l rest w w'

end

variable {t : FileTree} {pending : σ → Nat → Option (List CString)}
  {I : List Bytes → World σ → Prop} {T : List Bytes → World σ → World σ → Prop}
  (s : Surveyable t pending I T) {l l' rest : List Bytes} {w w' w'' : World σ}

include s

theorem adds_nil (h : I rest w) : Adds pending I T [] rest w w := ⟨h, rfl, s.refl w⟩

theorem adds_append (h : Adds pending I T l (l' ++ rest) w w')
    (h' : Adds pending I T l' rest w' w'') : Adds pending I T (l ++ l') rest w w'' :=
  ⟨h'.inv, h'.pending.trans h.pending, s.trans h.watched h'.watched⟩

theorem adds_error (h : I rest w) (e : Int32) :
    Adds pending I T [] rest w { w with lib := { w.lib with error := e } } :=
  ⟨(s.error e h).1, rfl, (s.error e h).2⟩

theorem adds_peek {os : σ} (h : I rest w) (hpeek : Peek w.os os)
    (hpending : pending os = pending w.os) : Adds pending I T [] rest w { w with os } :=
  ⟨(s.peek h hpeek).1, hpending, (s.peek h hpeek).2⟩

theorem visits_pure : Visits pending I T (pure true) [] := fun _ w h => ⟨w, rfl, s.adds_nil h⟩

/-! ## Entries -/

omit s [Sys σ] in
theorem trim_name {p name : Bytes} (hne : name ≠ []) (hname : slash ∉ name) :
    Desk.trim (p ++ name) = p ++ name := by
  refine if_neg fun h => hname ?_
  rw [List.getLast?_append_of_ne_nil _ hne] at h
  exact List.mem_of_getLast? h

/-- The walk of a sealed directory is given up, but for a reason to go on after. -/
theorem sealed_run {path : Bytes} (hsealed : t.look (cstring path).bytes = .sealed) (fuel : Nat)
    (events : Int32) (ex : List Bytes) (h : I rest w) :
    ∃ w', watchRecursivelyWithExclude (fuel + 1) path events ex w = .ok (false, w') ∧
      Adds pending I T [] rest w w' ∧ w'.lib.error = eacces := by
  let v : World σ := { w with lib := { w.lib with error := 0 } }
  have hv := s.adds_error h 0
  obtain ⟨hnone, herrno, hpending⟩ := s.opendir_sealed (cstring path) hv.inv hsealed
  let v₁ : World σ := { v with os := (Sys.opendir (cstring path) v.os).2 }
  have hopen : Adds pending I T [] rest v v₁ := s.adds_peek hv.inv (.opendir _ _) hpending
  have hcall : call (Sys.opendir (cstring path)) v = .ok (none, v₁) :=
    congrArg (fun a => Except.ok (a, v₁)) hnone
  have hnumber : errno v₁ = .ok (eacces, v₁) := congrArg (fun e => Except.ok (e, v₁)) herrno
  refine ⟨{ v₁ with lib := { v₁.lib with error := eacces } }, ?_,
    s.adds_append (s.adds_append hv hopen) (s.adds_error hopen.inv eacces), rfl⟩
  unfold watchRecursivelyWithExclude
  rw [Prog.bind_run_ok (assertInit_run (s.initialized h)),
    Prog.bind_run_ok (rfl : setError 0 w = .ok ((), v)), Prog.bind_run_ok hcall]
  exact (Prog.bind_run_ok hnumber).trans rfl

variable {ex : List Bytes} {d : Bytes} {events : Int32}

omit s in
/-- What the walk does with the entry `n` of `d`. -/
def visitEntry (events : Int32) (ex : List Bytes) (d : Bytes) (n : CString) (fuel : Nat) :
    M σ Bool :=
  if n.bytes ≠ ascii "." ∧ n.bytes ≠ ascii ".." then
    walkEntry (fun p => watchRecursivelyWithExclude fuel p events ex) d ex n.bytes
  else pure true

theorem walkEntry_hidden {descend : Bytes → M σ Bool} {n : Bytes}
    (hhidden : t.hidden (Desk.trim (cstring (d ++ n)).bytes) = true) :
    Visits pending I T (walkEntry descend d ex n) [] := by
  intro rest w h
  let p := cstring (d ++ n)
  obtain ⟨hnone, herrno⟩ := s.lstat_hidden p h hhidden
  let w₁ : World σ := { w with os := (Sys.lstat p w.os).2 }
  have hlook := s.adds_peek h (.lstat p w.os) (s.lstat_pending p h)
  have hcall : call (Sys.lstat p) w = .ok (none, w₁) :=
    congrArg (fun a => Except.ok (a, w₁)) hnone
  have hnumber : errno w₁ = .ok (eacces, w₁) := congrArg (fun e => Except.ok (e, w₁)) herrno
  refine ⟨{ w₁ with lib := { w₁.lib with error := eacces } }, ?_,
    s.adds_append hlook (s.adds_error hlook.inv eacces)⟩
  exact (Prog.bind_run_ok hcall).trans ((Prog.bind_run_ok hnumber).trans rfl)

/-- A directory that is not hidden and not excluded is visited, or given up for a reason to go on
    after. -/
theorem walkEntry_seen {descend : Bytes → M σ Bool} {n : Bytes} {l : List Bytes}
    (hseen : t.hidden (Desk.trim (cstring (d ++ n)).bytes) = false)
    (hpass : (t.look (cstring (d ++ n)).bytes).isDirectory = false ∨
      isExcluded (d ++ n ++ [slash]) ex = true → l = [])
    (hdescend : (t.look (cstring (d ++ n)).bytes).isDirectory = true →
      isExcluded (d ++ n ++ [slash]) ex = false → ∀ rest w, I (l ++ rest) w →
        ∃ ok w', descend (d ++ n ++ [slash]) w = .ok (ok, w') ∧ Adds pending I T l rest w w' ∧
          (ok = true ∨ w'.lib.error = eacces)) :
    Visits pending I T (walkEntry descend d ex n) l := by
  intro rest w h
  let p := cstring (d ++ n)
  obtain ⟨mode, hmode, hdir⟩ := s.lstat p h hseen
  let w₁ : World σ := { w with os := (Sys.lstat p w.os).2 }
  have hlook : Adds pending I T [] (l ++ rest) w w₁ :=
    s.adds_peek h (.lstat p w.os) (s.lstat_pending p h)
  have hcall : call (Sys.lstat p) w = .ok (some mode, w₁) :=
    congrArg (fun a => Except.ok (a, w₁)) hmode
  unfold walkEntry
  rw [Prog.bind_run_ok hcall]
  dsimp only
  by_cases hisdir : mode &&& sIfmt = sIfdir
  · rw [if_neg (not_not.2 hisdir)]
    cases hex : isExcluded (d ++ n ++ [slash]) ex with
    | true =>
        rw [if_pos rfl]
        cases hpass (.inr hex)
        exact ⟨w₁, rfl, hlook⟩
    | false =>
        rw [if_neg (by decide)]
        obtain ⟨ok, w₂, hrun, hadds, hout⟩ := hdescend (hdir.1 hisdir) hex rest w₁ hlook.inv
        have hstatus : (ok || (w₂.lib.error = eacces ∨ w₂.lib.error = enoent ∨
            w₂.lib.error = eloop : Bool)) = true := by
          rcases hout with rfl | he
          · rfl
          · exact Bool.or_eq_true_iff.2 (.inr (decide_eq_true (.inl he)))
        refine ⟨w₂, (Prog.bind_run_ok hrun).trans ?_, s.adds_append hlook hadds⟩
        exact congrArg (fun b => Except.ok (b, w₂)) hstatus
  · rw [if_pos hisdir]
    cases hpass (.inl (Bool.eq_false_iff.2 (mt hdir.2 hisdir)))
    exact ⟨w₁, rfl, hlook⟩

/-- An entry is passed over, or its tree is visited. -/
theorem visitEntry_visits {n : CString} (hd : 0 ∉ d) (hne : n.bytes ≠ []) (hslash : slash ∉ n.bytes)
    (hdescend : t.enters ex d n = true →
      ∃ l fuel₀, PostOrder (t.below ex) [d ++ n.bytes ++ [slash]] l ∧ ∀ fuel, fuel₀ ≤ fuel →
        Visits pending I T
          (watchRecursivelyWithExclude fuel (d ++ n.bytes ++ [slash]) events ex) l) :
    ∃ l fuel₀, PostOrder (t.below ex) (t.entered ex d [n]) l ∧ ∀ fuel, fuel₀ ≤ fuel →
      Visits pending I T (visitEntry events ex d n fuel) l := by
  have hname : Desk.trim (cstring (d ++ n.bytes)).bytes = d ++ n.bytes := by
    rw [bytes_cstring (by simp [hd, n.noNul]), trim_name hne hslash]
  have hsub : (cstring (d ++ n.bytes ++ [slash])).bytes = d ++ n.bytes ++ [slash] :=
    bytes_cstring (by simp [hd, n.noNul, slash])
  have hlook : t.look (cstring (d ++ n.bytes)).bytes = t.node (d ++ n.bytes) := by
    rw [FileTree.look, hname]
  cases henters : t.enters ex d n with
  | true =>
      obtain ⟨hdot, hseen, hread, hex⟩ := of_decide_eq_true henters
      obtain ⟨l, fuel₀, hpost, hvisits⟩ := hdescend henters
      refine ⟨l, fuel₀, ?_, fun fuel hfuel => ?_⟩
      · simpa [FileTree.entered, henters] using hpost
      · unfold visitEntry
        rw [if_pos hdot]
        refine s.walkEntry_seen (hname.symm ▸ hseen) (fun hpass => ?_) fun _ _ rest w h => ?_
        · have hdir : (t.node (d ++ n.bytes)).isDirectory = true := by
            cases hnode : t.node (d ++ n.bytes) with
            | directory names => rfl
            | other | sealed => rw [hnode] at hread; cases hread
          rw [hlook, hdir, hex] at hpass
          exact absurd hpass (by decide)
        · obtain ⟨w', hrun, hadds⟩ := hvisits fuel hfuel rest w h
          exact ⟨true, w', hrun, hadds, .inl rfl⟩
  | false =>
      refine ⟨[], 1, ?_, fun fuel hfuel => ?_⟩
      · simpa [FileTree.entered, henters] using PostOrder.nil
      obtain ⟨fuel, rfl⟩ := Nat.exists_eq_add_of_le' hfuel
      unfold visitEntry
      by_cases hdot : n.bytes ≠ ascii "." ∧ n.bytes ≠ ascii ".."
      · rw [if_pos hdot]
        cases hhidden : t.hidden (d ++ n.bytes) with
        | true => exact s.walkEntry_hidden (hname.symm ▸ hhidden)
        | false =>
            refine s.walkEntry_seen (hname.symm ▸ hhidden) (fun _ => rfl) fun hdir hex rest w h => ?_
            -- a directory that is not entered though it is seen may not be read
            have hsealed : t.node (d ++ n.bytes) = .sealed := by
              rw [hlook] at hdir
              cases hnode : t.node (d ++ n.bytes) with
              | other => rw [hnode] at hdir; cases hdir
              | sealed => rfl
              | directory names =>
                  have hread : (t.node (d ++ n.bytes)).isReadable = true := by rw [hnode]; rfl
                  exact absurd ⟨hdot, hhidden, hread, hex⟩ (of_decide_eq_false henters)
            have hlook' : t.look (cstring (d ++ n.bytes ++ [slash])).bytes = .sealed := by
              rw [hsub, FileTree.look, trim_concat, hsealed]
            obtain ⟨w', hrun, hadds, he⟩ := s.sealed_run hlook' fuel events ex h
            exact ⟨false, w', hrun, hadds, .inr he⟩
      · rw [if_neg hdot]
        exact s.visits_pure

/-- The entries of a directory are visited, one tree after the other. -/
theorem walkEntries_scans (hd : 0 ∉ d) {names : List CString}
    (hproper : ∀ n ∈ names, n.bytes ≠ [] ∧ slash ∉ n.bytes)
    (hdescend : ∀ n ∈ names, t.enters ex d n = true →
      ∃ l fuel₀, PostOrder (t.below ex) [d ++ n.bytes ++ [slash]] l ∧ ∀ fuel, fuel₀ ≤ fuel →
        Visits pending I T
          (watchRecursivelyWithExclude fuel (d ++ n.bytes ++ [slash]) events ex) l) :
    ∃ l fuel₀, PostOrder (t.below ex) (t.entered ex d names) l ∧
      ∀ fuel, fuel₀ ≤ fuel → ∀ k, names.length < k → ∀ (dir : Nat) (rest : List Bytes) (w : World σ),
        I (l ++ rest) w → pending w.os dir = some names → ∃ w',
          walkEntries (fun p => watchRecursivelyWithExclude fuel p events ex) dir d ex k w
            = .ok (true, w') ∧ Scans pending I T dir l rest w w' := by
  -- on the names still to be read, with fuel for one more call than there are names
  induction names with
  | nil =>
      refine ⟨[], 0, .nil, fun fuel _ k hk dir rest w h hpending => ?_⟩
      obtain ⟨k, rfl⟩ := Nat.exists_eq_add_of_lt hk
      obtain ⟨hend, hsame⟩ := s.readdir_nil dir h hpending
      let w₁ : World σ := { w with os := (Sys.readdir dir w.os).2 }
      have hread : Adds pending I T [] rest w w₁ := s.adds_peek h (.readdir dir w.os) hsame
      have hcall : call (Sys.readdir dir) w = .ok (none, w₁) :=
        congrArg (fun a => Except.ok (a, w₁)) hend
      refine ⟨w₁, Prog.bind_run_ok hcall, hread.inv, ?_, hread.watched⟩
      rw [hread.pending, ← hpending, Function.update_eq_self]
  | cons n names ih =>
      obtain ⟨hn, hproper⟩ := List.forall_mem_cons.1 hproper
      obtain ⟨hfirst, hdescend⟩ := List.forall_mem_cons.1 hdescend
      obtain ⟨l, fuel₁, hpost, hvisits⟩ := s.visitEntry_visits hd hn.1 hn.2 hfirst
      obtain ⟨l', fuel₂, hpost', hscans⟩ := ih hproper hdescend
      refine ⟨l ++ l', max fuel₁ fuel₂, ?_, fun fuel hfuel k hk dir rest w h hpending => ?_⟩
      · have happend := hpost.append hpost'
        rwa [FileTree.entered, FileTree.entered, ← List.map_append, ← List.filter_append] at happend
      obtain ⟨k, rfl⟩ := Nat.exists_eq_add_of_lt hk
      obtain ⟨hnext, hshort⟩ := s.readdir_cons dir h hpending
      rw [List.append_assoc] at h
      let w₁ : World σ := { w with os := (Sys.readdir dir w.os).2 }
      obtain ⟨h₁, hread⟩ := s.peek h (.readdir dir w.os)
      have hcall : call (Sys.readdir dir) w = .ok (some n, w₁) :=
        congrArg (fun a => Except.ok (a, w₁)) hnext
      obtain ⟨w₂, hentry, hadds⟩ := hvisits fuel (le_of_max_le_left hfuel) _ w₁ h₁
      let w₃ : World σ := { w₂ with lib := { w₂.lib with error := 0 } }
      have hclear := s.adds_error hadds.inv 0
      have hpending₃ : pending w₃.os = Function.update (pending w.os) dir (some names) :=
        hadds.pending.trans hshort
      obtain ⟨w', hrest, hend⟩ := hscans fuel (le_of_max_le_right hfuel)
        ((n :: names).length + k) (by simp; omega) dir rest w₃ hclear.inv
        (by rw [hpending₃, Function.update_self])
      refine ⟨w', ?_, hend.inv, ?_, ?_⟩
      · refine (Prog.bind_run_ok hcall).trans ((Prog.bind_run_ok hentry).trans ?_)
        exact hrest
      · rw [hend.pending, hpending₃, Function.update_idem]
      · have hvisited := s.trans (s.trans hread hadds.watched) hclear.watched
        rw [List.append_nil] at hvisited
        exact s.trans hvisited hend.watched

/-! ## The walk -/

omit s [Sys σ] in
theorem look_spelled (p : Bytes) : t.look (spelled p) = t.look p := by
  unfold FileTree.look spelled
  split
  · rfl
  · next h => rw [trim_concat, Desk.trim, if_neg h]

/-- The walk of a directory visits what lies below, and then the directory. -/
theorem watchRecursivelyWithExclude_visits {path : Bytes} {names : List CString}
    (hlook : t.look (cstring path).bytes = .directory names) {l : List Bytes} {fuel₀ : Nat}
    (hscans : ∀ fuel, fuel₀ ≤ fuel → ∀ k, names.length < k →
      ∀ (dir : Nat) (rest : List Bytes) (w : World σ), I (l ++ rest) w →
        pending w.os dir = some names → ∃ w',
          walkEntries (fun p => watchRecursivelyWithExclude fuel p events ex) dir
            (spelled (cstring path).bytes) ex k w = .ok (true, w') ∧
          Scans pending I T dir l rest w w')
    {fuel : Nat} (hfuel : max fuel₀ (names.length + 1) < fuel) :
    Visits pending I T (watchRecursivelyWithExclude fuel path events ex)
      (l ++ [spelled (cstring path).bytes]) := by
  intro rest w h
  rw [List.append_assoc] at h
  obtain ⟨fuel, rfl⟩ := Nat.exists_eq_succ_of_ne_zero (Nat.ne_zero_of_lt hfuel)
  have hwalk : fuel₀ ≤ fuel ∧ names.length < fuel := by omega
  let v : World σ := { w with lib := { w.lib with error := 0 } }
  obtain ⟨hv, hcleared⟩ := s.error 0 h
  obtain ⟨dir, hdir, hnew, hopen⟩ := s.opendir (cstring path) hv hlook
  let v₁ : World σ := { v with os := (Sys.opendir (cstring path) v.os).2 }
  obtain ⟨h₁, hopened⟩ := s.peek hv (.opendir (cstring path) v.os)
  have hcall : call (Sys.opendir (cstring path)) v = .ok (some dir, v₁) :=
    congrArg (fun a => Except.ok (a, v₁)) hdir
  have hpending : pending v₁.os = Function.update (pending w.os) dir (some names) := hopen
  obtain ⟨v₂, hentries, hscan⟩ := hscans fuel hwalk.1 fuel hwalk.2 dir _ v₁ h₁
    (by rw [hpending, Function.update_self])
  let v₃ : World σ := { v₂ with os := Sys.closedir dir v₂.os }
  obtain ⟨h₃, hclosed⟩ := s.peek hscan.inv (.closedir dir v₂.os)
  -- the stream is closed again
  have hvisited : Adds pending I T l ([spelled (cstring path).bytes] ++ rest) w v₃ :=
    { inv := h₃
      pending := by
        show pending (Sys.closedir dir v₂.os) = _
        rw [s.closedir dir hscan.inv, hscan.pending, hpending, Function.update_idem,
          Function.update_idem, ← hnew]
        exact Function.update_eq_self _ _
      watched := by
        have hall := s.trans (s.trans (s.trans hcleared hopened) hscan.watched) hclosed
        rwa [List.append_nil] at hall }
  obtain ⟨w', hfile, hadds⟩ := s.watch fuel (cstring path) events hvisited.inv (by rw [hlook]; rfl)
  refine ⟨w', ?_, s.adds_append hvisited ⟨hadds.1, hadds.2.1, hadds.2.2⟩⟩
  unfold watchRecursivelyWithExclude
  rw [Prog.bind_run_ok (assertInit_run (s.initialized h)),
    Prog.bind_run_ok (rfl : setError 0 w = .ok ((), v)), Prog.bind_run_ok hcall]
  dsimp only
  rw [show (if (cstring path).bytes.getLast? ≠ some slash then (cstring path).bytes ++ [slash]
    else (cstring path).bytes) = spelled (cstring path).bytes from ite_not _ _ _]
  rw [Prog.bind_run_ok hentries]
  exact hfile

/-- The walk of a directory ends if no path below it is longer by more than `room` bytes. -/
theorem walk_visits (room : Nat) {d : Bytes} (hd : 0 ∉ d) {names : List CString}
    (hlook : t.look d = .directory names)
    (hroom : ∀ p, Reaches (t.below ex) d p → p.length ≤ d.length + room) :
    ∃ l fuel₀, PostOrder (t.below ex) [d] l ∧ ∀ fuel, fuel₀ ≤ fuel → ∀ path,
      spelled (cstring path).bytes = d →
        Visits pending I T (watchRecursivelyWithExclude fuel path events ex) l := by
  induction room using Nat.strong_induction_on generalizing d names with
  | _ room ih =>
      have hbelow : t.below ex d = t.entered ex d names := by rw [FileTree.below, hlook]; rfl
      have hproper : (t.look d).Proper := t.proper _
      rw [hlook] at hproper
      have hdescend : ∀ n ∈ names, t.enters ex d n = true →
          ∃ l fuel₀, PostOrder (t.below ex) [d ++ n.bytes ++ [slash]] l ∧ ∀ fuel, fuel₀ ≤ fuel →
            Visits pending I T
              (watchRecursivelyWithExclude fuel (d ++ n.bytes ++ [slash]) events ex) l := by
        intro n hn henters
        have hsub : d ++ n.bytes ++ [slash] ∈ t.below ex d := by
          rw [hbelow]
          exact List.mem_map.2 ⟨n, List.mem_filter.2 ⟨hn, henters⟩, rfl⟩
        obtain ⟨-, -, hread, -⟩ := of_decide_eq_true henters
        have hnul : 0 ∉ d ++ n.bytes ++ [slash] := by simp [hd, n.noNul, slash]
        have hlen : (d ++ n.bytes ++ [slash]).length = d.length + n.bytes.length + 1 := by
          simp [Nat.add_assoc]
        have hchild := hroom _ (.single hsub)
        obtain ⟨names', hlook'⟩ : ∃ names', t.look (d ++ n.bytes ++ [slash]) = .directory names' := by
          rw [FileTree.look, trim_concat]
          cases hnode : t.node (d ++ n.bytes) with
          | directory names' => exact ⟨names', rfl⟩
          | other | sealed => rw [hnode] at hread; cases hread
        obtain ⟨l, fuel₀, hpost, hvisits⟩ := ih (room - (n.bytes.length + 1)) (by omega) hnul hlook'
          fun p hp => by
            have hle := hroom p (.head hsub hp)
            omega
        refine ⟨l, fuel₀, hpost, fun fuel hfuel => hvisits fuel hfuel _ ?_⟩
        rw [bytes_cstring hnul, spelled_concat]
      obtain ⟨l, fuel₀, hpost, hscans⟩ := s.walkEntries_scans hd hproper.2 hdescend
      refine ⟨l ++ [d], max fuel₀ (names.length + 1) + 1, .singleton (hbelow ▸ hpost),
        fun fuel hfuel path hpath => ?_⟩
      have hpathlook : t.look (cstring path).bytes = .directory names := by
        rw [← look_spelled, hpath, hlook]
      have hvisits := s.watchRecursivelyWithExclude_visits hpathlook (hpath.symm ▸ hscans) hfuel
      rwa [hpath] at hvisits

/-- The walk of a directory visits each directory that can be reached once, after everything below
    it. -/
theorem walk {path : Bytes} {names : List CString}
    (hroot : t.look (cstring path).bytes = .directory names)
    (hfinite : ∃ bound, ∀ p, Relation.ReflTransGen (t.Subdirectory ex)
      (spelled (cstring path).bytes) p → p.length ≤ bound) (events : Int32) :
    ∃ l fuel₀, (∀ p, p ∈ l ↔
        Relation.ReflTransGen (t.Subdirectory ex) (spelled (cstring path).bytes) p) ∧
      l.Nodup ∧ l.Pairwise (fun p q => ¬ p <+: q) ∧ ∀ fuel, fuel₀ ≤ fuel →
        Visits pending I T (watchRecursivelyWithExclude fuel path events ex) l := by
  obtain ⟨bound, hbound⟩ := hfinite
  have hlook : t.look (spelled (cstring path).bytes) = .directory names := by
    rw [look_spelled, hroot]
  obtain ⟨l, fuel₀, hpost, hvisits⟩ := s.walk_visits bound
    (spelled_noNul (cstring path)) hlook fun p hp => by
      have hle := hbound p ((t.reaches_below ex).1 hp)
      omega
  have horder := FileTree.postOrder_pairwise hpost
  refine ⟨l, fuel₀, fun p => ?_, horder.imp fun {p q} hpre (he : p = q) =>
    hpre (he ▸ List.prefix_rfl), horder, fun fuel hfuel => hvisits fuel hfuel path rfl⟩
  rw [hpost.mem_iff, ← FileTree.reaches_below]
  simp

end Surveyable

end InotifyTools
