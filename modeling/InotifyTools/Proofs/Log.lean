import InotifyTools.Proofs.Frames

set_option autoImplicit false

/-! # The calls a run makes

An operating system that also keeps a log of what it was asked and what it answered, so that a
property can speak of the calls a run has made. The programs see the answers alone. -/

namespace InotifyTools

/-! ## The log -/

/-- A system call that can fail, with its answer. -/
inductive SysCall
  | inotifyInit (answer : Int32)
  | addWatch (path : CString) (answer : Int32)
  | rmWatch (wd answer : Int32)
  | fanotifyInit (answer : Int32)
  | fanotifyMark (path : CString) (answer : Int32)
  | lstat (path : CString) (answer : Option UInt32)
  | statfs (path : CString) (answer : Option (Fin 8 → UInt8))
  | openPath (path : CString) (answer : Int32)
  | dup (answer : Int32)
  | nameToHandleAt (path : CString) (answer : Int32)
  | openByHandleAt (answer : Int32)
  | readlinkFd (answer : Option Bytes)
  | faccessat (answer : Int32)
  | opendir (path : CString) (answer : Option Nat)
  | readdir (dir : Nat) (answer : Option CString)
  | ppoll (answer : Int32)
  | fionread (answer : Int32)
  | read (count : Nat) (answer : Option Bytes)

/-- A call and the `errno` it left. -/
structure Entry where
  call : SysCall
  errno : Int32

/-- An operating system with a log. -/
structure Logged (σ : Type) where
  os : σ
  log : List Entry := []

namespace Logged

variable {σ α : Type} [Sys σ]

/-- Make a call and enter it into the log. -/
def enter (f : σ → α × σ) (entry : α → SysCall) (l : Logged σ) : α × Logged σ :=
  ((f l.os).1,
    { os := (f l.os).2, log := l.log ++ [⟨entry (f l.os).1, Sys.errno (f l.os).2⟩] })

/-- Make a call that the log does not keep. -/
def pass (f : σ → α × σ) (l : Logged σ) : α × Logged σ := ((f l.os).1, { l with os := (f l.os).2 })

instance : Sys (Logged σ) where
  errno l := Sys.errno l.os
  strerror e := Sys.strerror σ e
  fwrite st b l := { l with os := Sys.fwrite st b l.os }
  getpid := pass Sys.getpid
  close fd l := { l with os := Sys.close fd l.os }
  inotifyInit := enter Sys.inotifyInit .inotifyInit
  inotifyAddWatch fd p mask := enter (Sys.inotifyAddWatch fd p mask) (.addWatch p)
  inotifyRmWatch fd wd := enter (Sys.inotifyRmWatch fd wd) (.rmWatch wd)
  fanotifyInit flags := enter (Sys.fanotifyInit flags) .fanotifyInit
  fanotifyMark fd flags mask p := enter (Sys.fanotifyMark fd flags mask p) (.fanotifyMark p)
  lstat p := enter (Sys.lstat p) (.lstat p)
  statfs p := enter (Sys.statfs p) (.statfs p)
  openPath p flags := enter (Sys.openPath p flags) (.openPath p)
  dup fd := enter (Sys.dup fd) .dup
  nameToHandleAt p := enter (Sys.nameToHandleAt p) fun a => .nameToHandleAt p a.1
  openByHandleAt fd h := enter (Sys.openByHandleAt fd h) .openByHandleAt
  readlinkFd fd n := enter (Sys.readlinkFd fd n) .readlinkFd
  faccessat fd p := enter (Sys.faccessat fd p) .faccessat
  opendir p := enter (Sys.opendir p) (.opendir p)
  readdir d := enter (Sys.readdir d) (.readdir d)
  closedir d l := { l with os := Sys.closedir d l.os }
  ppoll fd t := enter (Sys.ppoll fd t) .ppoll
  fionread fd := enter (Sys.fionread fd) fun a => .fionread a.1
  read fd n := enter (Sys.read fd n) (.read n)
  regcomp p flags := pass (Sys.regcomp p flags)
  strftimeNow f := pass (Sys.strftimeNow f)
  flushAll l := { l with os := Sys.flushAll l.os }
  syslog b l := { l with os := Sys.syslog b l.os }
  slurp p := pass (Sys.slurp p)
  printNow := pass Sys.printNow
  done := pass Sys.done

/-- The kernel answers the same with a log. -/
theorem not_answeredZero (h : ¬ AnsweredZero σ) : ¬ AnsweredZero (Logged σ) :=
  fun ⟨fd, p, mask, l, hl⟩ => h ⟨fd, p, mask, l.os, hl⟩

end Logged

/-- The path that the kernel was asked to watch. -/
def SysCall.added : SysCall → Option CString
  | .addWatch p _ => some p
  | _ => none

/-- The path that was found to be a directory. -/
def SysCall.found : SysCall → Option CString
  | .lstat p (some mode) => if mode &&& sIfmt = sIfdir then some p else none
  | _ => none

/-- The paths that were to be watched, in order. -/
def added (log : List Entry) : List CString := log.filterMap fun e => e.call.added

/-- The directories that were found, in order. -/
def found (log : List Entry) : List CString := log.filterMap fun e => e.call.found

@[simp] theorem added_append (a b : List Entry) : added (a ++ b) = added a ++ added b :=
  List.filterMap_append

@[simp] theorem found_append (a b : List Entry) : found (a ++ b) = found a ++ found b :=
  List.filterMap_append

@[simp] theorem added_nil : added [] = [] := rfl

@[simp] theorem found_nil : found [] = [] := rfl

/-! ## What is entered -/

variable {σ α β : Type} [Sys σ]

/-- What may be entered in pieces. -/
structure Composes (T : List Entry → Prop) : Prop where
  nil : T []
  append : ∀ {a b : List Entry}, T a → T b → T (a ++ b)

/-- Between `w` and `w'` the log has grown by entries with `T`. -/
def Grows (T : List Entry → Prop) (w w' : World (Logged σ)) : Prop :=
  ∃ new, w'.os.log = w.os.log ++ new ∧ T new

variable {T U : List Entry → Prop} {w w' w'' : World (Logged σ)}

omit [Sys σ] in
theorem Grows.refl (hT : Composes T) (w : World (Logged σ)) : Grows T w w :=
  ⟨[], (List.append_nil _).symm, hT.nil⟩

omit [Sys σ] in
theorem Grows.trans (hT : Composes T) (h : Grows T w w') (h' : Grows T w' w'') : Grows T w w'' := by
  obtain ⟨a, ha, hTa⟩ := h
  obtain ⟨b, hb, hTb⟩ := h'
  exact ⟨a ++ b, by rw [hb, ha, List.append_assoc], hT.append hTa hTb⟩

omit [Sys σ] in
theorem Grows.mono (h : Grows T w w') (hTU : ∀ new, T new → U new) : Grows U w w' := by
  obtain ⟨new, hlog, hT⟩ := h
  exact ⟨new, hlog, hTU new hT⟩

/-- The runs of `m` enter what `T` allows. -/
def Enters (T : List Entry → Prop) (m : M (Logged σ) α) : Prop := Prog.Keeps (Grows T) m

namespace Enters

variable {x m n : M (Logged σ) α} {f : α → M (Logged σ) β}

omit [Sys σ] in
theorem mono (h : Enters T m) (hTU : ∀ new, T new → U new) : Enters U m :=
  h.weaken fun _ _ hg => hg.mono hTU

omit [Sys σ] in
theorem pure (hT : Composes T) (a : α) : Enters T (Pure.pure a : M (Logged σ) α) := by
  intro w b w' h
  cases h
  exact .refl hT w

omit [Sys σ] in
theorem fault (e : Fault) : Enters T (Prog.fault e : M (Logged σ) α) := Prog.Keeps.fault e

omit [Sys σ] in
theorem bind (hT : Composes T) (hx : Enters T x) (hf : ∀ a, Enters T (f a)) : Enters T (x >>= f) := by
  intro w b w' h
  obtain ⟨a, w₁, h₁, h₂⟩ := Prog.bind_ok h
  exact (hx w a w₁ h₁).trans hT (hf a w₁ b w' h₂)

omit [Sys σ] in
theorem ite {c : Prop} [Decidable c] (hm : Enters T m) (hn : Enters T n) :
    Enters T (if c then m else n) := by
  split <;> assumption

omit [Sys σ] in
theorem getLib (hT : Composes T) : Enters T (getLib : M (Logged σ) Inotifytools) := by
  intro w a w' h
  cases h
  exact .refl hT w

omit [Sys σ] in
theorem modifyLib (hT : Composes T) (g : Inotifytools → Inotifytools) :
    Enters T (modifyLib g : M (Logged σ) Unit) := by
  intro w a w' h
  cases h
  exact ⟨[], (List.append_nil _).symm, hT.nil⟩

/-- A call that the log keeps. -/
theorem call {g : σ → α × σ} {entry : α → SysCall} (h : ∀ a errno, T [⟨entry a, errno⟩]) :
    Enters T (call (Logged.enter g entry) : M (Logged σ) α) := by
  intro w a w' hrun
  cases hrun
  exact ⟨_, rfl, h _ _⟩

omit [Sys σ] in
theorem exec {g : Logged σ → Logged σ} (h : ∀ l, ∃ new, (g l).log = l.log ++ new ∧ T new) :
    Enters T (exec g : M (Logged σ) Unit) := by
  intro w a w' hrun
  cases hrun
  exact h _

end Enters

/-! ## What adds no watch -/

/-- No watch was asked for. -/
def NoneAdded (new : List Entry) : Prop := added new = []

theorem noneAdded_composes : Composes NoneAdded where
  nil := rfl
  append {a b} ha hb := by
    unfold NoneAdded at *
    rw [added_append, ha, hb, List.append_nil]

/-- A quiet call adds no watch. -/
theorem QuietCall.log {l l' : Logged σ} (h : QuietCall l l') :
    ∃ new, l'.log = l.log ++ new ∧ NoneAdded new := by
  cases h with
  | fwrite | getpid | close | closedir | regcomp | strftimeNow | flushAll | syslog | slurp | printNow | done =>
      exact ⟨[], (List.append_nil _).symm, rfl⟩
  | _ => exact ⟨_, rfl, rfl⟩

theorem QuietCall.logs {l l' : Logged σ} (h : Relation.ReflTransGen QuietCall l l') :
    ∃ new, l'.log = l.log ++ new ∧ NoneAdded new := by
  induction h with
  | refl => exact ⟨[], (List.append_nil _).symm, rfl⟩
  | tail _ hc ih =>
      obtain ⟨a, ha, hna⟩ := ih
      obtain ⟨b, hb, hnb⟩ := hc.log
      exact ⟨a ++ b, by rw [hb, ha, List.append_assoc], noneAdded_composes.append hna hnb⟩

/-- Only watching adds watches. -/
theorem Effects.grows {S : Set Kind} (h : Effects S w w') (hS : Kind.watch ∉ S) :
    Grows NoneAdded w w' := by
  have hrefl : ∀ w : World (Logged σ), Grows NoneAdded w w := .refl noneAdded_composes
  refine h.preserves (P := fun w' => Grows NoneAdded w w') (fun k w₁ w₂ hk he ih => ?_) (hrefl w)
  refine ih.trans noneAdded_composes ?_
  cases he with
  | call _ hc => exact hc.log
  | counter | created | marked | watched | refused => exact absurd (hk.resolve_left nofun) hS
  | removed | kept => exact ⟨_, rfl, rfl⟩
  | notOpened _ hopen | opened _ hopen => cases hopen <;> exact ⟨_, rfl, rfl⟩
  | closed => exact ⟨[], (List.append_nil _).symm, rfl⟩
  | _ => exact ⟨[], (List.append_nil _).symm, rfl⟩

/-- Nothing entered is lost. -/
theorem Effects.log_extends {S : Set Kind} (h : Effects S w w') : w.os.log <+: w'.os.log := by
  refine h.preserves (P := fun w' => w.os.log <+: w'.os.log) (fun k w₁ w₂ hk he ih => ?_)
    List.prefix_rfl
  refine ih.trans ?_
  cases he with
  | call _ hc =>
      obtain ⟨new, hlog, -⟩ := hc.log
      exact ⟨new, hlog.symm⟩
  | @watched _ v p mask os _ _ _ hos =>
      obtain ⟨new, hlog, -⟩ := QuietCall.logs hos
      exact (List.prefix_append _ _).trans ⟨new, hlog.symm⟩
  | refused | removed | kept => exact List.prefix_append _ _
  | notOpened _ hopen | opened _ hopen => cases hopen <;> exact List.prefix_append _ _
  | _ => exact List.prefix_rfl

end InotifyTools
