import InotifyTools.Proofs.Decoding
import InotifyTools.Proofs.Log

set_option autoImplicit false

/-! # Which failures report their `errno`

An operation that fails stops at the call that failed, so the call is the last one of its log. Some
failures leave their number in `error`, and some are forgotten. -/

namespace InotifyTools

variable {σ α β : Type}

/-! ## Calls that fail -/

/-- What a call answered, if it answers with a number. -/
def SysCall.answer? : SysCall → Option Int32
  | inotifyInit a | addWatch _ a | rmWatch _ a | fanotifyInit a | fanotifyMark _ a | openPath _ a
  | dup a | nameToHandleAt _ a | openByHandleAt a | faccessat a | ppoll a | fionread a => some a
  | lstat .. | statfs .. | readlinkFd _ | opendir .. | readdir .. | read .. => none

/-- A call that failed. The end of a directory is no failure. -/
def SysCall.Fails : SysCall → Prop
  | lstat _ none | statfs _ none | readlinkFd none | opendir _ none | read _ none => True
  | c => c.answer? = some (-1)

/-- A failure that the library only prints. -/
def SysCall.Forgotten : SysCall → Prop
  | statfs _ none => True
  | openPath _ a | nameToHandleAt _ a | rmWatch _ a => a = -1
  | _ => False

instance : DecidablePred SysCall.Fails
  | .lstat _ none | .statfs _ none | .readlinkFd none | .opendir _ none | .read _ none =>
      .isTrue trivial
  | .lstat _ (some _) | .statfs _ (some _) | .readlinkFd (some _) | .opendir _ (some _)
  | .read _ (some _) | .readdir _ _ => .isFalse nofun
  | .inotifyInit a | .addWatch _ a | .rmWatch _ a | .fanotifyInit a | .fanotifyMark _ a
  | .openPath _ a | .dup a | .nameToHandleAt _ a | .openByHandleAt a | .faccessat a | .ppoll a
  | .fionread a => inferInstanceAs (Decidable (some a = some (-1)))

instance : DecidablePred SysCall.Forgotten
  | .statfs _ none => .isTrue trivial
  | .openPath _ a | .nameToHandleAt _ a | .rmWatch _ a => inferInstanceAs (Decidable (a = -1))
  | .statfs _ (some _) | .inotifyInit _ | .addWatch .. | .fanotifyInit _ | .fanotifyMark ..
  | .lstat .. | .dup _ | .openByHandleAt _ | .readlinkFd _ | .faccessat _ | .opendir ..
  | .readdir .. | .ppoll _ | .fionread _ | .read .. => .isFalse id

theorem SysCall.Forgotten.fails {c : SysCall} (h : c.Forgotten) : c.Fails := by
  cases c with
  | statfs _ a =>
      cases a with
      | none => trivial
      | some a => exact h.elim
  | openPath _ a | nameToHandleAt _ a | rmWatch _ a => exact congrArg some h
  | _ => exact h.elim

/-- What the manual pages promise: the only negative answer is -1, and it comes with a positive
    `errno`. -/
def Entry.Documented (e : Entry) : Prop :=
  (∀ a ∈ e.call.answer?, -1 ≤ a) ∧ (e.call.Fails → 0 < e.errno)

instance (e : Entry) : Decidable e.Documented :=
  have : Decidable (∀ a ∈ e.call.answer?, -1 ≤ a) := Option.decidableForallMem _
  inferInstanceAs (Decidable ((∀ a ∈ e.call.answer?, -1 ≤ a) ∧ (e.call.Fails → 0 < e.errno)))

/-- The calls made between `w` and `w'`. -/
def callsBetween (w w' : World (Logged σ)) : List Entry := w'.os.log.drop w.os.log.length

variable {w w' w'' : World (Logged σ)}

theorem callsBetween_eq {new : List Entry} (h : w'.os.log = w.os.log ++ new) :
    callsBetween w w' = new := by
  rw [callsBetween, h, List.drop_left]

/-- The error number is the positive `errno` of the last call, if that failed. -/
def ReportsErrno (w w' : World (Logged σ)) : Prop :=
  ∀ e ∈ (callsBetween w w').getLast?, e.call.Fails → w'.lib.error = e.errno ∧ 0 < w'.lib.error

instance (w w' : World (Logged σ)) : Decidable (ReportsErrno w w') :=
  inferInstanceAs (Decidable (∀ e ∈ (callsBetween w w').getLast?, e.call.Fails →
    w'.lib.error = e.errno ∧ 0 < w'.lib.error))

/-- A call is entered with its answer and the `errno` it left. -/
theorem call_logged [Sys σ] {g : σ → α × σ} {e : α → SysCall} {a : α}
    (hrun : call (Logged.enter g e) w = .ok (a, w')) :
    w'.os.log = w.os.log ++ [⟨e a, Sys.errno w'.os⟩] ∧ w'.lib = w.lib := by
  cases hrun
  exact ⟨rfl, rfl⟩

/-! ## How a part of an operation ends -/

/-- No failure is forgotten. -/
def Remembers (new : List Entry) : Prop := ∀ e ∈ new, ¬ e.call.Forgotten

theorem remembers_composes : Composes Remembers where
  nil := nofun
  append ha hb e he := (List.mem_append.1 he).elim (ha e) (hb e)

/-- The calls `new` have led to the result and the error number: all went on, or the last one made
    the operation stop. -/
inductive Outcome (Q : Int32 → Prop) (error : Int32) (new : List Entry) : Bool → Prop
  | done (hQ : Q error) (h : Remembers new) : Outcome Q error new true
  | reported {e : Entry} (h : Remembers new) (hlast : e ∈ new.getLast?)
      (herror : e.call.Fails → error = e.errno) : Outcome Q error new false
  | forgotten {e : Entry} (hlast : e ∈ new.getLast?) (he : e.call.Forgotten) (herror : error = 0) :
      Outcome Q error new false

theorem Outcome.after {Q : Int32 → Prop} {error : Int32} {old new : List Entry} {ok : Bool}
    (hold : Remembers old) (h : Outcome Q error new ok) : Outcome Q error (old ++ new) ok := by
  have hlast : ∀ {e : Entry}, e ∈ new.getLast? → e ∈ (old ++ new).getLast? := by
    intro e he
    rw [List.getLast?_append, Option.mem_def.1 he]
    rfl
  cases h with
  | done hQ h => exact .done hQ (remembers_composes.append hold h)
  | reported h he herror => exact .reported (remembers_composes.append hold h) (hlast he) herror
  | forgotten he hf herror => exact .forgotten (hlast he) hf herror

/-- An operation that failed reports the number exactly when nothing was forgotten. -/
theorem Outcome.reportsErrno_iff {Q : Int32 → Prop} {new : List Entry}
    (hlog : w'.os.log = w.os.log ++ new) (hdoc : ∀ e ∈ callsBetween w w', e.Documented)
    (h : Outcome Q w'.lib.error new false) :
    ReportsErrno w w' ↔ ¬ ∃ e ∈ callsBetween w w', e.call.Forgotten := by
  unfold ReportsErrno
  rw [callsBetween_eq hlog] at hdoc ⊢
  cases h with
  | reported h hlast herror =>
      refine iff_of_true (fun e he hfails => ?_) fun ⟨e, he, hf⟩ => h e he hf
      cases Option.mem_unique hlast he
      have hpos := (hdoc _ (List.mem_of_getLast? he)).2 hfails
      exact ⟨herror hfails, by rw [herror hfails]; exact hpos⟩
  | forgotten hlast hf herror =>
      refine iff_of_false (fun h => ?_) (fun h => h ⟨_, List.mem_of_getLast? hlast, hf⟩)
      have hpos := (h _ hlast hf.fails).2
      rw [herror] at hpos
      exact absurd hpos (by decide)

/-! ## Parts of an operation -/

/-- Started with an error number in `P`, `m` goes on with one in `Q` where `ok` holds of its result,
    and elsewhere makes the operation stop. -/
def Accounts (P Q : Int32 → Prop) (ok : α → Bool) (m : M (Logged σ) α) : Prop :=
  ∀ w a w', m w = .ok (a, w') → P w.lib.error →
    ∃ new, w'.os.log = w.os.log ++ new ∧ Outcome Q w'.lib.error new (ok a)

/-- No calls are made, and the error number stays. -/
structure Silent (w w' : World (Logged σ)) : Prop where
  error : w'.lib.error = w.lib.error
  log : w'.os.log = w.os.log

instance : Std.Refl (Silent (σ := σ)) := ⟨fun _ => ⟨rfl, rfl⟩⟩

instance : IsTrans (World (Logged σ)) Silent :=
  ⟨fun _ _ _ h h' => ⟨h'.error.trans h.error, h'.log.trans h.log⟩⟩

theorem Silent.callsBetween (h : Silent w w') : callsBetween w' w'' = callsBetween w w'' := by
  unfold InotifyTools.callsBetween
  rw [h.log]

/-- What is left of an operation that stops: no further calls, and no other number. -/
def Stops (ok : α → Bool) (m : M (Logged σ) α) : Prop :=
  ∀ w a w', m w = .ok (a, w') → ok a = false ∧ Silent w w'

/-- No error so far. -/
def NoError (e : Int32) : Prop := e = 0

def AnyError (_ : Int32) : Prop := True

namespace Accounts

variable {P Q R : Int32 → Prop} {ok : α → Bool} {ok' : β → Bool} {x m n : M (Logged σ) α}
  {f : α → M (Logged σ) β}

theorem pure {a : α} (h : ok a = true) : Accounts P P ok (Pure.pure a : M (Logged σ) α) := by
  intro w b w' hrun hP
  cases hrun
  rw [h]
  exact ⟨[], (List.append_nil _).symm, .done hP nofun⟩

theorem any (h : Accounts P Q ok m) : Accounts P AnyError ok m := by
  intro w a w' hrun hP
  obtain ⟨new, hlog, hout⟩ := h w a w' hrun hP
  refine ⟨new, hlog, ?_⟩
  generalize ok a = c at hout
  cases hout with
  | done _ h => exact .done trivial h
  | reported h hlast herror => exact .reported h hlast herror
  | forgotten hlast hf herror => exact .forgotten hlast hf herror

/-- A part that is run behind other calls. -/
theorem after (h : Accounts P Q ok m) {old : List Entry} {a : α}
    (hlog : w'.os.log = w.os.log ++ old) (hold : Remembers old)
    (hrun : m w' = .ok (a, w'')) (hP : P w'.lib.error) :
    ∃ new, w''.os.log = w.os.log ++ new ∧ Outcome Q w''.lib.error new (ok a) := by
  obtain ⟨new, hnew, hout⟩ := h w' a w'' hrun hP
  exact ⟨old ++ new, by rw [hnew, hlog, List.append_assoc], hout.after hold⟩

theorem fault (e : Fault) : Accounts P Q ok (Prog.fault e : M (Logged σ) α) :=
  fun _ _ _ hrun => nomatch hrun

/-- Along a sequence: the second part goes on, or there is nothing left to do. -/
theorem bind (hx : Accounts P Q ok x) (hf : ∀ a, ok a = true → Accounts Q R ok' (f a))
    (hstop : ∀ a, ok a = false → Stops ok' (f a)) : Accounts P R ok' (x >>= f) := by
  intro w b w' hrun hP
  obtain ⟨a, w₁, hrun₁, hrun₂⟩ := Prog.bind_ok hrun
  obtain ⟨old, hlog, hout⟩ := hx w a w₁ hrun₁ hP
  generalize hok : ok a = c at hout
  cases hout with
  | done hQ hold =>
      obtain ⟨new, hlog', hout'⟩ := hf a hok w₁ b w' hrun₂ hQ
      exact ⟨old ++ new, by rw [hlog', hlog, List.append_assoc], hout'.after hold⟩
  | reported h hlast herror =>
      obtain ⟨hb, hsame⟩ := hstop a hok w₁ b w' hrun₂
      rw [hb]
      exact ⟨old, hsame.log.trans hlog, .reported h hlast (by rwa [hsame.error])⟩
  | forgotten hlast hf' herror =>
      obtain ⟨hb, hsame⟩ := hstop a hok w₁ b w' hrun₂
      rw [hb]
      exact ⟨old, hsame.log.trans hlog, .forgotten hlast hf' (hsame.error.trans herror)⟩

/-- Along a sequence whose first part comes to something or stops. -/
theorem bindSome {x : M (Logged σ) (Option α)} {f : Option α → M (Logged σ) β}
    (hx : Accounts P Q Option.isSome x) (hf : ∀ a, Accounts Q R ok' (f (some a)))
    (hstop : Stops ok' (f none)) : Accounts P R ok' (x >>= f) := by
  refine hx.bind (fun a ha => ?_) fun a ha => ?_
  · obtain ⟨a, rfl⟩ := Option.isSome_iff_exists.1 ha
    exact hf a
  · rw [Option.isSome_eq_false_iff, Option.isNone_iff_eq_none] at ha
    rwa [ha]

/-- Along a sequence whose first part succeeds or stops. -/
theorem bindTrue {x : M (Logged σ) Bool} {f : Bool → M (Logged σ) β} (hx : Accounts P Q id x)
    (hf : Accounts Q R ok' (f true)) (hstop : Stops ok' (f false)) :
    Accounts P R ok' (x >>= f) := by
  refine hx.bind (fun a ha => ?_) fun a ha => ?_
  · cases ha
    exact hf
  · cases ha
    exact hstop

/-- Along a sequence whose first part cannot stop the operation. -/
theorem then_ (hx : Accounts P Q (fun _ => true) x) (hf : ∀ a, Accounts Q R ok' (f a)) :
    Accounts P R ok' (x >>= f) :=
  hx.bind (fun a _ => hf a) nofun

theorem ite {c : Prop} [Decidable c] (hm : Accounts P Q ok m) (hn : Accounts P Q ok n) :
    Accounts P Q ok (if c then m else n) := by
  split <;> assumption

theorem getLib : Accounts P P (fun _ => true) (getLib : M (Logged σ) Inotifytools) := by
  intro w a w' hrun hP
  cases hrun
  exact ⟨[], (List.append_nil _).symm, .done hP nofun⟩

/-- A change of the handle that leaves the error number alone. -/
theorem modifyLib {g : Inotifytools → Inotifytools} (h : ∀ l, (g l).error = l.error) :
    Accounts P P (fun _ => true) (modifyLib g : M (Logged σ) Unit) := by
  intro w a w' hrun hP
  cases hrun
  exact ⟨[], (List.append_nil _).symm, .done (by rwa [h]) nofun⟩

theorem clearError : Accounts P NoError (fun _ => true) (setError 0 : M (Logged σ) Unit) := by
  intro w a w' hrun _
  cases hrun
  exact ⟨[], (List.append_nil _).symm, .done rfl nofun⟩

/-- An effect on the system that the log does not keep. -/
theorem exec {g : Logged σ → Logged σ} (h : ∀ l, (g l).log = l.log) :
    Accounts P P (fun _ => true) (exec g : M (Logged σ) Unit) := by
  intro w a w' hrun hP
  cases hrun
  exact ⟨[], (h _).trans (List.append_nil _).symm, .done hP nofun⟩

variable [Sys σ]

/-- A call whose failure is not reported: it is forgotten, or no failure to the kernel. -/
theorem call {g : σ → α × σ} {entry : α → SysCall}
    (hok : ∀ a, ok a = true → ¬ (entry a).Forgotten)
    (hstop : ∀ a, ok a = false → (entry a).Fails → (entry a).Forgotten) :
    Accounts NoError NoError ok (call (Logged.enter g entry) : M (Logged σ) α) := by
  intro w a w' hrun hP
  cases hrun
  refine ⟨_, rfl, ?_⟩
  generalize hc : ok (Logged.enter g entry w.os).1 = c
  cases c with
  | true => exact .done hP (List.forall_mem_singleton.2 (hok _ hc))
  | false =>
      by_cases hf : (entry (Logged.enter g entry w.os).1).Forgotten
      · exact .forgotten rfl hf hP
      · refine .reported (List.forall_mem_singleton.2 hf) rfl fun hfails => ?_
        exact absurd (hstop _ hc hfails) hf

theorem errno : Accounts P P (fun _ => true) (errno : M (Logged σ) Int32) := by
  intro w a w' hrun hP
  cases hrun
  exact ⟨[], (List.append_nil _).symm, .done hP nofun⟩

theorem ceprint (ps : List Piece) : Accounts P P (fun _ => true) (ceprint ps : M (Logged σ) Unit) :=
  .exec fun _ => rfl

end Accounts

/-! ## What makes no calls -/

section Silence

theorem getLib_silent : Prog.Keeps Silent (getLib : M (Logged σ) Inotifytools) :=
  .bind .read fun _ => .pure _

theorem guard_silent (c : Bool) (e : Fault) :
    Prog.Keeps Silent (Prog.guard c e : M (Logged σ) Unit) := by
  cases c
  · exact .fault e
  · exact .pure ()

theorem modifyStream_silent (f : EventStream → EventStream) :
    Prog.Keeps Silent (modifyStream f : M (Logged σ) Unit) := .update fun _ => ⟨rfl, rfl⟩

theorem bufferedEvent_silent : Prog.Keeps Silent (bufferedEvent : M (Logged σ) Bool) := by
  refine .bind (.bind getLib_silent fun _ => .pure _) fun s => .ite ?_ (.ite ?_ (.pure _))
  · refine .bind (modifyStream_silent _) fun _ => .bind getLib_silent fun _ => .ite ?_ ?_
    · exact .bind (guard_silent _ _) fun _ => .bind (modifyStream_silent _) fun _ => .pure _
    · exact .bind (modifyStream_silent _) fun _ => .pure _
  · exact .bind (modifyStream_silent _) fun _ => .pure _

variable [Sys σ]

theorem ceprint_silent (ps : List Piece) : Prog.Keeps Silent (ceprint ps : M (Logged σ) Unit) :=
  .update fun _ => ⟨rfl, rfl⟩

theorem niceassert_silent (cond : Bool) (line : Nat) (condstr msg : String) :
    Prog.Keeps Silent (niceassert cond line condstr msg : M (Logged σ) Unit) :=
  .ite (.pure _) (ceprint_silent _)

theorem assertInit_silent : Prog.Keeps Silent (assertInit : M (Logged σ) Unit) :=
  .bind getLib_silent fun _ => niceassert_silent _ _ _ _

end Silence

/-! ## Watching files -/

section Watching

variable [Sys σ] {P : Int32 → Prop}

theorem strerror_accounts (e : Int32) :
    Accounts P P (fun _ => true) (strerror e : M (Logged σ) Bytes) := .pure rfl

theorem assertInit_accounts : Accounts P P (fun _ => true) (assertInit : M (Logged σ) Unit) :=
  .then_ .getLib fun _ => .ite (.pure rfl) (.ceprint _)

theorem createWatch_accounts (fuel : Nat) (wd : Int32) (fid : Option Bytes) (filename : Bytes)
    (dirf : Int32) :
    Accounts P P (fun _ => true)
      (createWatch fuel wd fid filename dirf : M (Logged σ) (Option Int32)) := by
  refine .ite (.pure rfl) (.then_ (Q := P) ?_ fun wd => .then_ (Q := P) ?_ fun _ => .pure rfl)
  · refine .ite (.pure rfl) (.then_ .getLib fun l => ?_)
    dsimp only
    split
    · exact .then_ (.modifyLib fun _ => rfl) fun _ => .pure rfl
    · exact .fault _
  · refine .then_ .getLib fun _ => .then_ (.modifyLib fun _ => rfl) fun _ => .ite (.pure rfl) ?_
    exact .ite (.exec fun _ => rfl) (.pure rfl)

theorem isdir_accounts (p : Bytes) :
    Accounts NoError NoError (fun _ => true) (isdir p : M (Logged σ) Bool) := by
  refine .then_ (.call (fun _ _ h => h) nofun) fun mode => ?_
  cases mode with
  | none =>
      refine .then_ .errno fun _ => .then_ (strerror_accounts _) fun _ => ?_
      exact .then_ (.ite (.ceprint _) (.pure rfl)) fun _ => .pure rfl
  | some mode => exact .pure rfl

omit [Sys σ] in
theorem stops_pure {ok : α → Bool} {a : α} (h : ok a = false) :
    Stops ok (Pure.pure a : M (Logged σ) α) := by
  intro w b w' hrun
  cases hrun
  exact ⟨h, ⟨rfl, rfl⟩⟩

/-- Printing a failure and giving up. -/
theorem stops_printing {ok : α → Bool} {a : α} (h : ok a = false) (s : String) (b : Bytes) :
    Stops ok (do
      ceprint [.text s, .bytes b, .text ": ", .bytes (← strerror (← errno)), .text "\n"]
      return a : M (Logged σ) α) := by
  intro w b w' hrun
  cases hrun
  exact ⟨h, ⟨rfl, rfl⟩⟩

/-- Opening a path: a negative answer is -1, or nothing the kernel gives. -/
theorem openPath_accounts (p : CString) (flags : Int32) :
    Accounts NoError NoError (fun a => !decide (a < 0))
      (call (Sys.openPath p flags) : M (Logged σ) Int32) := by
  refine .call (fun a ha hf => ?_) fun a _ hfails => Option.some.inj hfails
  cases hf
  cases ha

theorem nameToHandleAt_accounts (p : CString) :
    Accounts NoError NoError
      (fun a => !decide (a.1 ≠ 0 ∨ leNat (a.2.slice 0 4) > maxFidLen))
      (call (Sys.nameToHandleAt p) : M (Logged σ) (Int32 × Mem)) := by
  refine .call (fun a ha hf => ?_) fun a _ hfails => Option.some.inj hfails
  have hret : a.1 = -1 := hf
  have hzero : a.1 = 0 := by grind
  cases hret.symm.trans hzero

theorem registerMount_accounts (fuel : Nat) (f : Bytes) (dirname : Option Bytes) :
    Accounts NoError NoError id (registerMount fuel f dirname : M (Logged σ) Bool) := by
  cases dirname with
  | none => exact .pure rfl
  | some d =>
      refine .then_ (.then_ .getLib fun _ => .pure rfl) fun _ => .ite (.pure rfl) ?_
      refine .bind (Q := NoError) (openPath_accounts _ _) (fun a ha => ?_) fun a ha => ?_
      · rw [if_neg (by simpa using ha)]
        exact .then_ (createWatch_accounts _ _ _ _ _) fun _ => .pure rfl
      · rw [if_pos (by simpa using ha)]
        exact stops_printing rfl _ _

theorem statfs_accounts (p : CString) : Accounts NoError NoError Option.isSome
    (call (Sys.statfs p) : M (Logged σ) (Option (Fin 8 → UInt8))) := by
  refine .call (fun fsid hfsid hf => ?_) fun fsid hfsid _ => ?_
  · cases fsid <;> contradiction
  · cases fsid with
    | none => trivial
    | some fsid => cases hfsid

theorem fanotifyEncodeFid_accounts (fuel : Nat) (p : CString) (dirname : Option Bytes) :
    Accounts NoError NoError Option.isSome
      (fanotifyEncodeFid fuel p dirname : M (Logged σ) (Option (Bytes × Int32))) := by
  refine .bindSome (statfs_accounts p) (fun fsid => ?_) (stops_printing rfl _ _)
  refine .bindTrue (registerMount_accounts _ _ _) ?_ (stops_pure rfl)
  refine .bind (Q := NoError) (nameToHandleAt_accounts p) (fun a ha => ?_) fun a ha => ?_
  · dsimp only
    rw [if_neg (by grind)]
    cases dirname with
    | none => exact .pure rfl
    | some d =>
        refine .bind (Q := NoError) (openPath_accounts _ _) (fun a ha => ?_) fun a ha => ?_
        · rw [if_neg (by simpa using ha)]
          exact .pure rfl
        · rw [if_pos (by simpa using ha)]
          exact stops_printing rfl _ _
  · dsimp only
    rw [if_pos (by grind)]
    exact stops_printing rfl _ _

theorem watchFid_accounts (fuel : Nat) (wd : Int32) (p : CString) (dirname : Option Bytes) :
    Accounts NoError NoError Option.isSome
      (watchFid fuel wd p dirname : M (Logged σ) (Option (Option Bytes × Int32))) :=
  .ite (.pure rfl)
    (.bindSome (fanotifyEncodeFid_accounts _ _ _) (fun _ => .pure rfl) (stops_pure rfl))

theorem storeWatch_accounts (fuel : Nat) (p : CString) (wd : Int32) :
    Accounts NoError NoError id (storeWatch fuel p wd : M (Logged σ) Bool) := by
  refine .then_ (isdir_accounts _) fun isDir => ?_
  refine .bindSome (watchFid_accounts _ _ _ _) (fun fid => ?_) (stops_pure rfl)
  exact .then_ (createWatch_accounts _ _ _ _ _) fun _ => .pure rfl

/-- Asking the kernel: the file is watched, or the call failed. -/
theorem addWatch_run (p : CString) (events : Int32) (w : World (Logged σ)) :
    ∃ c wd events' os, addWatch p events w = .ok ((wd, events'), { w with os }) ∧
      os.log = w.os.log ++ [⟨c, Sys.errno os⟩] ∧ ¬ c.Forgotten ∧ (c.Fails → wd = -1) := by
  unfold addWatch
  rw [getLib_bind]
  split
  · exact ⟨.fanotifyMark p _, _, _, _, rfl, rfl, id, Option.some.inj⟩
  · exact ⟨.addWatch p _, _, _, _, rfl, rfl, id, Option.some.inj⟩

theorem watchOne_accounts (fuel : Nat) (fname : Bytes) (events : Int32) :
    Accounts NoError NoError Prod.fst
      (watchOne fuel fname events : M (Logged σ) (Bool × Int32)) := by
  intro w a w' hrun hP
  obtain ⟨c, wd, events', os, hadd, hlog, hf, hfails⟩ := addWatch_run (cstring fname) events w
  unfold watchOne at hrun
  dsimp only at hrun
  rw [Prog.bind_run_ok hadd] at hrun
  dsimp only at hrun
  split at hrun
  · by_cases hwd : wd = -1
    · rw [watchRefused, if_pos hwd] at hrun
      cases hrun
      exact ⟨_, hlog, .reported (List.forall_mem_singleton.2 hf) rfl fun _ => rfl⟩
    · rw [watchRefused, if_neg hwd] at hrun
      cases hrun
      exact ⟨_, hlog, .reported (List.forall_mem_singleton.2 hf) rfl fun h => absurd (hfails h) hwd⟩
  · obtain ⟨ok, w₁, hstore, hrun⟩ := Prog.bind_ok hrun
    cases hrun
    exact (storeWatch_accounts fuel _ _).after hlog (List.forall_mem_singleton.2 hf) hstore hP

theorem watchEach_accounts (fuel : Nat) (files : List Bytes) (events : Int32) :
    Accounts NoError NoError id (watchEach fuel files events : M (Logged σ) Bool) := by
  induction files generalizing events with
  | nil => exact .pure rfl
  | cons f files ih =>
      refine .bind (watchOne_accounts fuel f events) (fun a ha => ?_) fun a ha => ?_
      · obtain ⟨ok, events⟩ := a
        cases ha
        exact ih events
      · obtain ⟨ok, events⟩ := a
        cases ha
        exact stops_pure rfl

theorem watchFiles_accounts (fuel : Nat) (files : List Bytes) (events : Int32) :
    Accounts P NoError id (watchFiles fuel files events : M (Logged σ) Bool) :=
  .then_ assertInit_accounts fun _ => .then_ .clearError fun _ => watchEach_accounts _ _ _

/-! ## Walking trees -/

/-- The numbers the walk goes on after. -/
theorem tolerated_ne_zero {e : Int32} (h : e = eacces ∨ e = enoent ∨ e = eloop) : e ≠ 0 := by
  rcases h with rfl | rfl | rfl <;> decide

omit [Sys σ] in
/-- A subdirectory: the walk goes on after some errors, and none of them was forgotten. -/
theorem judged_accounts {x : M (Logged σ) Bool} (hx : Accounts AnyError NoError id x) :
    Accounts NoError AnyError id (do
      let status ← x
      let e := (← getLib).error
      return status || (e = eacces ∨ e = enoent ∨ e = eloop)) := by
  intro w a w' hrun _
  obtain ⟨status, w₁, hstatus, hrun⟩ := Prog.bind_ok hrun
  obtain ⟨new, hlog, hout⟩ := hx _ _ _ hstatus trivial
  cases hrun
  refine ⟨new, hlog, ?_⟩
  cases hout with
  | done _ h => exact .done trivial h
  | reported h hlast herror =>
      by_cases ht : w'.lib.error = eacces ∨ w'.lib.error = enoent ∨ w'.lib.error = eloop
      · rw [decide_eq_true ht]
        exact .done trivial h
      · rw [decide_eq_false ht]
        exact .reported h hlast herror
  | forgotten hlast hf herror =>
      rw [decide_eq_false fun ht => tolerated_ne_zero ht herror]
      exact .forgotten hlast hf herror

theorem walkEntry_accounts {descend : Bytes → M (Logged σ) Bool}
    (hd : ∀ p, Accounts AnyError NoError id (descend p)) (myPath : Bytes) (ex : List Bytes)
    (name : Bytes) :
    Accounts NoError AnyError id (walkEntry descend myPath ex name : M (Logged σ) Bool) := by
  intro w a w' hrun hP
  obtain ⟨mode, w₁, hstat, hrun⟩ := Prog.bind_ok hrun
  obtain ⟨hlog, hlib⟩ := call_logged (e := .lstat (cstring (myPath ++ name))) hstat
  have hkept : w₁.lib.error = 0 := (congrArg Inotifytools.error hlib).trans hP
  cases mode with
  | none =>
      cases hrun
      refine ⟨_, hlog, ?_⟩
      by_cases he : Sys.errno w₁.os = eacces
      · rw [he]
        exact .done trivial (List.forall_mem_singleton.2 id)
      · rw [decide_eq_false he]
        exact .reported (List.forall_mem_singleton.2 id) rfl fun _ => rfl
  | some mode =>
      have hold : Remembers [⟨.lstat (cstring (myPath ++ name)) (some mode), Sys.errno w₁.os⟩] :=
        List.forall_mem_singleton.2 id
      refine (?_ : Accounts NoError AnyError id _).after hlog hold hrun hkept
      exact .ite (.any (.pure rfl)) (.ite (.any (.pure rfl)) (judged_accounts (hd _)))

/-- The walk of a tree reports a failure, unless it forgets one. -/
theorem walkEntries_accounts {descend : Bytes → M (Logged σ) Bool}
    (hd : ∀ p, Accounts AnyError NoError id (descend p)) (dir : Nat) (myPath : Bytes)
    (ex : List Bytes) (fuel : Nat) :
    Accounts NoError NoError id
      (walkEntries descend dir myPath ex fuel : M (Logged σ) Bool) := by
  induction fuel with
  | zero => exact .fault _
  | succ fuel ih =>
      refine .then_ (.call (fun _ _ h => h) nofun) fun name => ?_
      cases name with
      | none => exact .pure rfl
      | some name =>
          have hentry := walkEntry_accounts hd myPath ex name.bytes
          refine .bindTrue (.ite hentry (.any (.pure rfl))) ?_ (stops_pure rfl)
          exact .then_ .clearError fun _ => ih

theorem watchRecursivelyWithExclude_accounts (fuel : Nat) (path : Bytes) (events : Int32)
    (ex : List Bytes) :
    Accounts AnyError NoError id
      (watchRecursivelyWithExclude fuel path events ex : M (Logged σ) Bool) := by
  induction fuel generalizing path with
  | zero => exact .fault _
  | succ fuel ih =>
      refine .then_ assertInit_accounts fun _ => .then_ .clearError fun _ => ?_
      intro w a w' hrun hP
      obtain ⟨dir, w₁, hopen, hrun⟩ := Prog.bind_ok hrun
      obtain ⟨hlog, hlib⟩ := call_logged (e := .opendir (cstring path)) hopen
      have hkept : w₁.lib.error = 0 := (congrArg Inotifytools.error hlib).trans hP
      have hold : Remembers [⟨.opendir (cstring path) dir, Sys.errno w₁.os⟩] :=
        List.forall_mem_singleton.2 id
      cases dir with
      | none =>
          obtain ⟨e, w₂, herrno, hrun⟩ := Prog.bind_ok hrun
          cases herrno
          split at hrun
          · exact (watchFiles_accounts (P := AnyError) fuel _ _).after hlog hold hrun trivial
          · cases hrun
            exact ⟨_, hlog, .reported hold rfl fun _ => rfl⟩
      | some dir =>
          refine Accounts.after (?_ : Accounts NoError NoError id _) hlog hold hrun hkept
          refine .bindTrue (walkEntries_accounts ih dir _ ex fuel) ?_ ?_
          · exact .then_ (.exec fun _ => rfl) fun _ => watchFiles_accounts fuel [_] _
          · intro w b w' hrun
            cases hrun
            exact ⟨rfl, ⟨rfl, rfl⟩⟩

end Watching

/-! ## Removing -/

theorem watch_same {w w' : World σ} {id : Nat} {v : Watch} (hrun : watch id w = .ok (v, w')) :
    w' = w := by
  cases hv : w.lib.store.watches[id]? with
  | some v =>
      cases (watch_run hv).symm.trans hrun
      rfl
  | none =>
      unfold watch at hrun
      rw [getLib_bind, hv] at hrun
      cases hrun

/-- A watch that stays: nobody was asked, or the kernel has refused. -/
theorem removeInotifyWatch_log [Sys σ] {id : Nat}
    (hrun : removeInotifyWatch id w = .ok (false, w')) :
    w'.os.log = w.os.log ∨ ∃ wd a e, w'.os.log = w.os.log ++ [⟨.rmWatch wd a, e⟩] ∧ a < 0 ∧
      w'.lib.error = a := by
  obtain ⟨_, w₁, hzero, hrun⟩ := Prog.bind_ok hrun
  cases hzero
  obtain ⟨v, w₂, hwatch, hrun⟩ := Prog.bind_ok hrun
  have hsame : w₂.os = w.os := by rw [watch_same hwatch]
  split at hrun
  · cases hrun
    exact .inl (congrArg Logged.log hsame)
  · rw [getLib_bind] at hrun
    obtain ⟨status, w₃, hremove, hrun⟩ := Prog.bind_ok hrun
    obtain ⟨hlog, hlib⟩ := call_logged (e := .rmWatch v.wd) hremove
    split at hrun
    · next hneg =>
        cases hrun
        exact .inr ⟨_, status, _, by rw [← hsame]; exact hlog, hneg, rfl⟩
    · cases hrun

/-- A refused removal is forgotten; one that asks nobody reports nothing. -/
theorem removeWatch_reports [Sys σ] {id : Option Nat} (hdoc : ∀ e ∈ w'.os.log, e.Documented)
    (hrun : removeWatch id w = .ok (false, w')) :
    ReportsErrno w w' ↔ ¬ ∃ e ∈ callsBetween w w', e.call.Forgotten := by
  unfold removeWatch at hrun
  obtain ⟨_, w₁, hassert, hrun⟩ := Prog.bind_ok hrun
  rw [← (assertInit_silent _ _ _ hassert).callsBetween, ReportsErrno,
    ← (assertInit_silent _ _ _ hassert).callsBetween]
  cases id with
  | none => cases hrun
  | some id =>
      obtain ⟨removed, w₂, hremove, hrun⟩ := Prog.bind_ok hrun
      cases removed with
      | true =>
          obtain ⟨_, w₃, -, hrun⟩ := Prog.bind_ok hrun
          cases hrun
      | false =>
          cases hrun
          rcases removeInotifyWatch_log hremove with hsilent | ⟨wd, a, e, hlog, hneg, herror⟩
          · have hnone : callsBetween w₁ w' = [] :=
              callsBetween_eq (by rw [hsilent, List.append_nil])
            rw [hnone]
            exact iff_of_true nofun fun ⟨_, he, _⟩ => nomatch he
          · have hlast := callsBetween_eq hlog
            have hmem : (⟨.rmWatch wd a, e⟩ : Entry) ∈ w'.os.log := by
              rw [hlog]
              exact List.mem_append_right _ (List.mem_singleton.2 rfl)
            have hfailed : a = -1 := by
              have hge : -1 ≤ a := (hdoc _ hmem).1 a rfl
              grind
            rw [hlast]
            refine iff_of_false (fun h => ?_) fun h => h ⟨_, List.mem_singleton.2 rfl, hfailed⟩
            have hpos := (h _ rfl (congrArg some hfailed)).2
            rw [herror, hfailed] at hpos
            exact absurd hpos (by decide)

/-! ## Reading -/

section Reading

variable [Sys σ]

/-- A turn of the loop until an event is at the cursor. -/
def prepareRecord (fuel : Nat) (timeout : Int) (numEvents : Int32) : M σ Bool := do
  setError 0
  let buffered ← bufferedEvent
  (if buffered then pure true else readEvents fuel timeout numEvents)

/-- A turn prepares a record and decodes it. -/
theorem eventRound_prepare (fuel : Nat) (timeout : Int) (numEvents : Int32) :
    (eventRound fuel timeout numEvents : M σ Round) =
      prepareRecord fuel timeout numEvents >>= fun ready =>
        if ready then decodeAndDeliver fuel else pure .fail := by
  unfold eventRound prepareRecord
  simp only [Prog.bind_assoc]
  refine congrArg _ (funext fun _ => congrArg _ (funext fun buffered => congrArg _
    (funext fun ready => ?_)))
  cases ready <;> rfl

/-- The end of the stream. -/
def SysCall.EndOfFile : SysCall → Prop
  | read n (some data) => data.take n = []
  | _ => False

theorem SysCall.EndOfFile.not_fails {c : SysCall} (h : c.EndOfFile) : ¬ c.Fails := by
  cases c with
  | read n data =>
      cases data with
      | none => exact h.elim
      | some data => exact nofun
  | _ => exact h.elim

/-- Why there is nothing to decode after the call `e`. -/
inductive Unready (error : Int32) (e : Entry) : Prop
  | failed (h : e.call.Fails) (herror : error = e.errno)
  | timeout (h : e.call = .ppoll 0) (herror : error = 0)
  | endOfFile (h : e.call.EndOfFile) (herror : error = 0)

theorem waitForBytes_log {numEvents : Int32} {fuel : Nat} {rc : Int32} {w w' : World (Logged σ)}
    (hrun : waitForBytes numEvents fuel w = .ok (rc, w')) :
    ∃ new, w'.os.log = w.os.log ++ new ∧ ⟨.fionread rc, Sys.errno w'.os⟩ ∈ new.getLast? ∧
      w'.lib = w.lib := by
  induction fuel generalizing w with
  | zero => cases hrun
  | succ fuel ih =>
      unfold waitForBytes at hrun
      rw [getLib_bind] at hrun
      obtain ⟨⟨rc', available⟩, w₁, hioctl, hrun⟩ := Prog.bind_ok hrun
      obtain ⟨hlog, hlib⟩ := call_logged (e := fun a : Int32 × UInt32 => .fionread a.1) hioctl
      dsimp only at hrun
      split at hrun
      · cases hrun
        exact ⟨_, hlog, rfl, hlib⟩
      · obtain ⟨new, hnew, hlast, hlib'⟩ := ih hrun
        refine ⟨_, by rw [hnew, hlog, List.append_assoc], ?_, hlib'.trans hlib⟩
        rw [List.getLast?_append, Option.mem_def.1 hlast]
        rfl

omit [Sys σ] in
/-- A negative answer is a failure. -/
theorem answer_failed {e : Entry} {rc : Int32} (h : e.call = .ppoll rc) (hdoc : e.Documented)
    (hneg : rc < 0) : e.call.Fails := by
  have hge : -1 ≤ rc := hdoc.1 rc (by rw [h]; rfl)
  have hrc : rc = -1 := by grind
  rw [h, hrc]
  rfl

theorem readEvents_log {fuel : Nat} {timeout : Int} {numEvents : Int32} {ready : Bool}
    {w w' : World (Logged σ)} (hzero : w.lib.error = 0)
    (hrun : readEvents fuel timeout numEvents w = .ok (ready, w')) :
    ∃ new e, w'.os.log = w.os.log ++ new ∧ e ∈ new.getLast? ∧
      if ready then w'.lib.error = 0 ∧ ∃ n data, e.call = .read n data
      else e.Documented → Unready w'.lib.error e := by
  unfold readEvents at hrun
  rw [getLib_bind] at hrun
  obtain ⟨rc₀, w₁, hpoll, hrun⟩ := Prog.bind_ok hrun
  obtain ⟨hlog, hlib⟩ := call_logged (e := .ppoll) hpoll
  -- poll, then FIONREAD, then read: the last call made decides
  split at hrun
  · next hneg =>
      cases hrun
      exact ⟨_, _, hlog, rfl, fun hdoc => .failed (answer_failed rfl hdoc hneg) rfl⟩
  · split at hrun
    · next hrc =>
        cases hrun
        exact ⟨_, _, hlog, rfl, fun _ => .timeout (congrArg _ hrc) (by rw [hlib, hzero])⟩
    · obtain ⟨rc, w₂, hwait, hrun⟩ := Prog.bind_ok hrun
      obtain ⟨new, hlog₂, hlast, hlib₂⟩ := waitForBytes_log hwait
      rw [hlog, List.append_assoc] at hlog₂
      split at hrun
      · next hrc =>
          cases hrun
          have hlast' : ⟨.fionread rc, Sys.errno w₂.os⟩ ∈
              (([⟨.ppoll rc₀, Sys.errno w₁.os⟩] : List Entry) ++ new).getLast? := by
            rw [List.getLast?_append, Option.mem_def.1 hlast]
            rfl
          exact ⟨_, _, hlog₂, hlast', fun _ => .failed (congrArg some hrc) rfl⟩
      · rw [getLib_bind] at hrun
        obtain ⟨data, w₃, hread, hrun⟩ := Prog.bind_ok hrun
        obtain ⟨hlog₃, hlib₃⟩ := call_logged (e := .read _) hread
        rw [hlog₂, List.append_assoc] at hlog₃
        have hkept : w₃.lib.error = 0 := by rw [hlib₃, hlib₂, hlib, hzero]
        cases data with
        | none =>
            cases hrun
            refine ⟨_, _, hlog₃, List.getLast?_concat, fun _ => .failed ?_ rfl⟩
            trivial
        | some data =>
            dsimp only at hrun
            split at hrun
            · next hempty =>
                cases hrun
                refine ⟨_, _, hlog₃, List.getLast?_concat, fun _ => .endOfFile ?_ hkept⟩
                exact List.isEmpty_iff.1 hempty
            · cases hrun
              refine ⟨_, _, hlog₃, List.getLast?_concat, hkept, ?_⟩
              exact ⟨_, _, rfl⟩

/-- A turn that has prepared nothing, or a record with what was read last. -/
theorem prepareRecord_log {fuel : Nat} {timeout : Int} {numEvents : Int32} {ready : Bool}
    {w w' : World (Logged σ)} (hrun : prepareRecord fuel timeout numEvents w = .ok (ready, w')) :
    ∃ new, w'.os.log = w.os.log ++ new ∧
      if ready then w'.lib.error = 0 ∧ ∀ e ∈ new.getLast?, ∃ n data, e.call = .read n data
      else ∃ e ∈ new.getLast?, e.Documented → Unready w'.lib.error e := by
  obtain ⟨_, w₁, hzero, hrun⟩ := Prog.bind_ok hrun
  cases hzero
  obtain ⟨buffered, w₂, hbuffered, hrun⟩ := Prog.bind_ok hrun
  have hsilent : Silent { w with lib := { w.lib with error := 0 } } w₂ :=
    bufferedEvent_silent _ _ _ hbuffered
  cases buffered with
  | true =>
      cases hrun
      exact ⟨[], hsilent.log.trans (List.append_nil _).symm, hsilent.error, nofun⟩
  | false =>
      obtain ⟨new, e, hlog, hlast, hout⟩ := readEvents_log hsilent.error hrun
      refine ⟨new, by rw [hlog, hsilent.log], ?_⟩
      cases ready with
      | true =>
          refine ⟨hout.1, fun e' he' => ?_⟩
          cases Option.mem_unique hlast he'
          exact hout.2
      | false => exact ⟨e, hlast, hout⟩

/-- A part whose results all have `P`. -/
def Yields (P : α → Prop) (m : M σ α) : Prop := ∀ w a w', m w = .ok (a, w') → P a

namespace Yields

variable {P : α → Prop}

omit [Sys σ] in
theorem pure {a : α} (h : P a) : Yields P (Pure.pure a : M σ α) := by
  intro w b w' hrun
  cases hrun
  exact h

omit [Sys σ] in
theorem bind {x : M σ β} {f : β → M σ α} (h : ∀ b, Yields P (f b)) : Yields P (x >>= f) := by
  intro w a w' hrun
  obtain ⟨b, w₁, -, hrun⟩ := Prog.bind_ok hrun
  exact h b _ _ _ hrun

omit [Sys σ] in
theorem ite {c : Prop} [Decidable c] {m n : M σ α} (hm : Yields P m) (hn : Yields P n) :
    Yields P (if c then m else n) := by
  split <;> assumption

end Yields

theorem deliver_goes_on (pid : Int32) : Yields (· ≠ .fail) (deliver pid : M σ Round) := by
  refine .bind fun _ => .ite (.pure nofun) (.bind fun _ => .ite (.pure nofun) ?_)
  exact .bind fun _ => .bind fun _ => .pure nofun

/-- Only a fanotify event without a fid is not converted. -/
theorem convertFanotifyEvent_none {fuel : Nat} {w w' : World (Logged σ)}
    (hrun : convertFanotifyEvent fuel w = .ok (none, w')) :
    locateFid w.lib.stream w.lib.stream.retOff = none ∧ Silent w w' := by
  unfold convertFanotifyEvent at hrun
  obtain ⟨s, w₁, hs, hrun⟩ := Prog.bind_ok hrun
  cases hs
  obtain ⟨s, w₁, hs, hrun⟩ := Prog.bind_ok hrun
  cases hs
  obtain ⟨_, w₁, hmove, hrun⟩ := Prog.bind_ok hrun
  cases hmove
  obtain ⟨s, w₁, hs, hrun⟩ := Prog.bind_ok hrun
  dsimp only at hrun
  cases hfid : locateFid s w.lib.stream.retOff with
  | none =>
      rw [hfid] at hrun
      cases hs
      cases hrun
      exact ⟨hfid, ⟨rfl, rfl⟩⟩
  | some info =>
      rw [hfid] at hrun
      -- the rest of the conversion always comes to a process id
      refine absurd rfl ((?_ : Yields (· ≠ none) _) _ _ _ hrun)
      refine .bind fun _ => .bind fun _ => .bind fun _ => .bind fun _ => .bind fun _ => ?_
      refine .bind fun _ => .bind fun _ => .bind fun r => ?_
      exact .bind fun _ => .bind fun _ => .bind fun _ => .bind fun _ => .pure nofun

theorem decodeAndDeliver_fail {fuel : Nat} {w w' : World (Logged σ)}
    (hrun : decodeAndDeliver fuel w = .ok (.fail, w')) :
    w.lib.fanotifyMode = true ∧
      locateFid w.lib.stream (usizeOfI32 w.lib.stream.firstByte) = none ∧ Silent w w' := by
  obtain ⟨pid, w₁, hdecode, hrun⟩ := Prog.bind_ok hrun
  cases pid with
  | some pid =>
      obtain ⟨_, w₂, -, hrun⟩ := Prog.bind_ok hrun
      exact absurd rfl (deliver_goes_on pid _ _ _ hrun)
  | none =>
      cases hrun
      obtain ⟨_, w₂, hret, hdecode⟩ := Prog.bind_ok hdecode
      cases hret
      rw [getLib_bind] at hdecode
      split at hdecode
      · next hmode =>
          obtain ⟨hnone, hsilent⟩ := convertFanotifyEvent_none hdecode
          exact ⟨hmode, hnone, ⟨hsilent.error, hsilent.log⟩⟩
      · cases hdecode

/-- The last turn of a call that returns without an event: the turns before it have dropped what
    they read. -/
inductive LastTurn (timeout : Int) (numEvents : Int32) : Nat → World σ → Nat → World σ → Prop
  | here {fuel : Nat} {w w' : World σ} (h : eventRound fuel timeout numEvents w = .ok (.fail, w')) :
      LastTurn timeout numEvents (fuel + 1) w fuel w
  | later {fuel fuel' : Nat} {w w₁ w₂ : World σ}
      (h : eventRound fuel timeout numEvents w = .ok (.skip, w₁))
      (hlast : LastTurn timeout numEvents fuel w₁ fuel' w₂) :
      LastTurn timeout numEvents (fuel + 1) w fuel' w₂

theorem LastTurn.unique {timeout : Int} {numEvents : Int32} {fuel fuel₁ fuel₂ : Nat}
    {w w₁ w₂ : World σ} (h₁ : LastTurn timeout numEvents fuel w fuel₁ w₁)
    (h₂ : LastTurn timeout numEvents fuel w fuel₂ w₂) : fuel₁ = fuel₂ ∧ w₁ = w₂ := by
  induction h₁ with
  | here h =>
      cases h₂ with
      | here => exact ⟨rfl, rfl⟩
      | later h' => cases h.symm.trans h'
  | later h _ ih =>
      cases h₂ with
      | here h' => cases h.symm.trans h'
      | later h' hlast =>
          cases h.symm.trans h'
          exact ih hlast

/-- The world in which a call of `next_events` enters its loop: behind the assertions. -/
def World.asserted (numEvents : Int32) (w : World σ) : World σ :=
  (do
    assertInit
    niceassert (numEvents ≤ Int32.ofNat maxEvents) 1096 "num_events <= MAX_EVENTS"
      "too many events requested" : M σ Unit).after w

theorem nextEventsLoop_false {timeout : Int} {numEvents : Int32} {fuel : Nat} {w w' : World σ}
    (hrun : nextEventsLoop timeout numEvents fuel w = .ok (false, w')) :
    ∃ fuel' w₁, LastTurn timeout numEvents fuel w fuel' w₁ ∧
      eventRound fuel' timeout numEvents w₁ = .ok (.fail, w') := by
  induction fuel generalizing w with
  | zero => cases hrun
  | succ fuel ih =>
      obtain ⟨round, w₁, hround, hrun⟩ := Prog.bind_ok hrun
      cases round with
      | fail =>
          cases hrun
          exact ⟨fuel, w, .here hround, hround⟩
      | skip =>
          obtain ⟨fuel', w₂, hlast, hfail⟩ := ih hrun
          exact ⟨fuel', w₂, .later hround hlast, hfail⟩
      | event => cases hrun

theorem nextEvents_none {timeout : Int} {numEvents : Int32} {fuel : Nat} {w w' : World σ}
    (hpos : 1 ≤ numEvents) (hrun : nextEvents fuel timeout numEvents w = .ok (none, w')) :
    nextEventsLoop timeout numEvents fuel (w.asserted numEvents) = .ok (false, w') := by
  obtain ⟨found, w₁, hraw, hrun⟩ := Prog.bind_ok hrun
  cases found with
  | true => cases hrun
  | false =>
      cases hrun
      obtain ⟨_, w₁, hinit, hraw⟩ := Prog.bind_ok hraw
      obtain ⟨_, w₂, hle, hraw⟩ := Prog.bind_ok hraw
      have hasserted : w.asserted numEvents = w₂ := by
        unfold World.asserted Prog.after
        rw [Prog.bind_run_ok hinit, hle]
      rw [hasserted]
      rwa [if_neg (Int32.not_lt.2 hpos)] at hraw

/-- The turn comes to the end of the stream, or to an event that no fid says what it is about. -/
def EndsSilently (fuel : Nat) (timeout : Int) (numEvents : Int32) (w : World (Logged σ)) : Prop :=
  ∃ ready w', prepareRecord fuel timeout numEvents w = .ok (ready, w') ∧
    if ready then w'.lib.fanotifyMode = true ∧
      locateFid w'.lib.stream (usizeOfI32 w'.lib.stream.firstByte) = none
    else ∃ e ∈ (callsBetween w w').getLast?, e.call.EndOfFile

/-- A turn without an event has an `errno` to report, or `ppoll` has timed out. -/
def Explained (w w' : World (Logged σ)) : Prop :=
  ReportsErrno w w' ∧
    (w'.lib.error = 0 → ∃ e ∈ (callsBetween w w').getLast?, e.call = .ppoll 0)

theorem eventRound_explained {fuel : Nat} {timeout : Int} {numEvents : Int32}
    {w w' : World (Logged σ)} (hdoc : ∀ e ∈ w'.os.log, e.Documented)
    (hrun : eventRound fuel timeout numEvents w = .ok (.fail, w')) :
    Explained w w' ↔ ¬ EndsSilently fuel timeout numEvents w := by
  rw [eventRound_prepare] at hrun
  obtain ⟨ready, w₁, hprepare, hrun⟩ := Prog.bind_ok hrun
  obtain ⟨new, hlog, hout⟩ := prepareRecord_log hprepare
  have hends : EndsSilently fuel timeout numEvents w ↔
      if ready then w₁.lib.fanotifyMode = true ∧
        locateFid w₁.lib.stream (usizeOfI32 w₁.lib.stream.firstByte) = none
      else ∃ e ∈ (callsBetween w w₁).getLast?, e.call.EndOfFile := by
    refine ⟨fun ⟨_, _, h, hends⟩ => ?_, fun h => ⟨_, _, hprepare, h⟩⟩
    cases h.symm.trans hprepare
    exact hends
  rw [hends]
  cases ready with
  | true =>
      -- a record without a fid ends the call with a message, and `error` stays 0
      obtain ⟨hmode, hnone, hsilent⟩ := decodeAndDeliver_fail hrun
      refine iff_of_false (fun h => ?_) fun h => h ⟨hmode, hnone⟩
      obtain ⟨e, he, hpoll⟩ := h.2 (hsilent.error.trans hout.1)
      rw [callsBetween_eq (hsilent.log.trans hlog)] at he
      obtain ⟨n, data, hread⟩ := hout.2 e he
      cases hpoll.symm.trans hread
  | false =>
      cases hrun
      obtain ⟨e, he, hunready⟩ := hout
      have hmem : e ∈ w'.os.log := by
        rw [hlog]
        exact List.mem_append_right _ (List.mem_of_getLast? he)
      rw [Explained, ReportsErrno, callsBetween_eq hlog, Option.mem_def.1 he]
      cases hunready (hdoc e hmem) with
      | failed hfails herror =>
          have hpos : 0 < w'.lib.error := by
            rw [herror]
            exact (hdoc e hmem).2 hfails
          refine iff_of_true ⟨?_, fun hzero => ?_⟩ ?_
          · rintro e' ⟨⟩ -
            exact ⟨herror, hpos⟩
          · rw [hzero] at hpos
            exact absurd hpos (by decide)
          · rintro ⟨e', ⟨⟩, heof⟩
            exact heof.not_fails hfails
      | timeout hpoll herror =>
          refine iff_of_true ⟨?_, fun _ => ⟨e, rfl, hpoll⟩⟩ ?_
          · rintro e' ⟨⟩ hfails
            rw [hpoll] at hfails
            cases hfails
          · rintro ⟨e', ⟨⟩, heof⟩
            rw [hpoll] at heof
            exact heof
      | endOfFile heof herror =>
          refine iff_of_false (fun h => ?_) fun h => h ⟨e, rfl, heof⟩
          obtain ⟨e', ⟨⟩, hpoll⟩ := h.2 herror
          rw [hpoll] at heof
          exact heof

end Reading

/-! ## Operations that fail -/

/-- The operations that report failures through `error`. -/
inductive Attempt
  | watchFiles (filenames : List Bytes) (events : Int32)
  | watchRecursivelyWithExclude (path : Bytes) (events : Int32) (excludeList : List Bytes)
  | removeWatchByWd (wd : Int32)
  | removeWatchByFilename (filename : Bytes)
  | nextEvents (timeout : Int) (numEvents : Int32) (pos : 1 ≤ numEvents)

namespace Attempt

variable [Sys σ]

/-- What the operation does, and whether it succeeds. -/
def run (fuel : Nat) : Attempt → M σ Bool
  | watchFiles filenames events => InotifyTools.watchFiles fuel filenames events
  | watchRecursivelyWithExclude path events excludeList =>
      InotifyTools.watchRecursivelyWithExclude fuel path events excludeList
  | removeWatchByWd wd => InotifyTools.removeWatchByWd wd
  | removeWatchByFilename filename => InotifyTools.removeWatchByFilename filename
  | nextEvents timeout numEvents _ => do
      return (← InotifyTools.nextEvents fuel timeout numEvents).isSome

/-- What the failure of the operation comes with: the number of the call that failed, and for a call
    of `next_events` one unless `ppoll` has timed out in its last turn. -/
def Reports (fuel : Nat) (w w' : World (Logged σ)) : Attempt → Prop
  | nextEvents timeout numEvents _ => ∃ fuel' w₁,
      LastTurn timeout numEvents fuel (w.asserted numEvents) fuel' w₁ ∧ Explained w₁ w'
  | _ => ReportsErrno w w'

/-- The failures that come without a number. -/
def Forgets (fuel : Nat) (w w' : World (Logged σ)) : Attempt → Prop
  | nextEvents timeout numEvents _ => ∃ fuel' w₁,
      LastTurn timeout numEvents fuel (w.asserted numEvents) fuel' w₁ ∧
        EndsSilently fuel' timeout numEvents w₁
  | _ => ∃ e ∈ callsBetween w w', e.call.Forgotten

end Attempt

/-- **Failures report their `errno`, unless it is forgotten.** An operation that fails leaves the
    positive number of the call that failed in `error`, and a call of `next_events` returns nothing
    without a number only on a timeout, exactly when no `statfs`, `open`, `name_to_handle_at` or
    `inotify_rm_watch` has failed and `next_events` came neither to the end of the stream nor to a
    fanotify event without a fid. -/
theorem failure_reported_iff [Sys σ] {o : Attempt} {fuel : Nat} {w w' : World (Logged σ)}
    (hdoc : ∀ e ∈ w'.os.log, e.Documented) (hrun : o.run fuel w = .ok (false, w')) :
    o.Reports fuel w w' ↔ ¬ o.Forgets fuel w w' := by
  have hbetween : ∀ e ∈ callsBetween w w', e.Documented :=
    fun e he => hdoc e (List.mem_of_mem_drop he)
  cases o with
  | watchFiles filenames events =>
      obtain ⟨new, hlog, hout⟩ :=
        watchFiles_accounts (P := AnyError) fuel filenames events _ _ _ hrun trivial
      exact hout.reportsErrno_iff hlog hbetween
  | watchRecursivelyWithExclude path events ex =>
      obtain ⟨new, hlog, hout⟩ :=
        watchRecursivelyWithExclude_accounts fuel path events ex _ _ _ hrun trivial
      exact hout.reportsErrno_iff hlog hbetween
  | removeWatchByWd wd => exact removeWatch_reports hdoc hrun
  | removeWatchByFilename n => exact removeWatch_reports hdoc hrun
  | nextEvents timeout numEvents pos =>
      obtain ⟨event, w₁, hnext, hrun⟩ := Prog.bind_ok hrun
      cases event with
      | some event => cases hrun
      | none =>
          cases hrun
          obtain ⟨fuel', w₁, hlast, hfail⟩ := nextEventsLoop_false (nextEvents_none pos hnext)
          have hiff := eventRound_explained hdoc hfail
          constructor
          · rintro ⟨fuel₁, w₂, hlast₁, hexplained⟩ ⟨fuel₂, w₃, hlast₂, hends⟩
            obtain ⟨rfl, rfl⟩ := hlast.unique hlast₁
            obtain ⟨rfl, rfl⟩ := hlast.unique hlast₂
            exact hiff.1 hexplained hends
          · intro hnever
            exact ⟨fuel', w₁, hlast, hiff.2 fun hends => hnever ⟨fuel', w₁, hlast, hends⟩⟩

/-! ## On the desk -/

/-- The file "f" is watched. -/
def watchingDesk : World (Logged Desk) :=
  World.after 9 { lib := Inotifytools.new, os := { os := {} } }
    [.init false false 0, .watchFiles [ascii "f"] 2]

/-- The file is gone, and the kernel watch with it. -/
def deletedDesk : World (Logged Desk) :=
  { watchingDesk with
    os := { watchingDesk.os with os := { watchingDesk.os.os with watched := [] } } }

/-- A refused removal leaves -1 in `error` rather than the number of the failure. -/
theorem refusal_forgotten :
    Reachable (fun l l' : Logged Desk => l'.log = l.log ∧ Desk.Forgets l.os l'.os) deletedDesk ∧
      deletedDesk.lib.initialized = true ∧
      ∃ w', (Attempt.removeWatchByWd 1).run 9 deletedDesk = .ok (false, w') ∧
        (∀ e ∈ w'.os.log, e.Documented) ∧
        (callsBetween deletedDesk w').map Entry.errno = [einval] ∧ w'.lib.error = -1 ∧
        ¬ (Attempt.removeWatchByWd 1).Reports 9 deletedDesk w' := by
  have hfailed : ((Attempt.removeWatchByWd 1).run 9 : M (Logged Desk) Bool).result deletedDesk
      = some false := by decide +kernel
  have hrun := Prog.run_of_result hfailed
  refine ⟨⟨_, (World.run_after _ 9 _ _).tail (.env watchingDesk ⟨rfl, List.nil_subset _⟩)⟩,
    by decide +kernel, _, hrun, by decide +kernel, by decide +kernel, by decide +kernel, ?_⟩
  have hnot : ¬ ReportsErrno deletedDesk
      (((Attempt.removeWatchByWd 1).run 9).after deletedDesk) := by decide +kernel
  exact hnot

/-- A refused watch is reported. -/
theorem failure_reported_desk :
    let w : World (Logged Desk) := World.after 9
      { lib := Inotifytools.new, os := { os := { nextWd := 0 } } } [.init false false 0]
    ∃ w', (Attempt.watchFiles [ascii "f"] 2).run 9 w = .ok (false, w') ∧ w'.lib.error = einval ∧
      (Attempt.watchFiles [ascii "f"] 2).Reports 9 w w' := by
  intro w
  have hfailed : ((Attempt.watchFiles [ascii "f"] 2).run 9 : M (Logged Desk) Bool).result w
      = some false := by decide +kernel
  have hrun := Prog.run_of_result hfailed
  have hkept : ¬ ∃ e ∈ callsBetween w (((Attempt.watchFiles [ascii "f"] 2).run 9).after w),
      e.call.Forgotten := by decide +kernel
  exact ⟨_, hrun, by decide +kernel, (failure_reported_iff (by decide +kernel) hrun).2 hkept⟩

end InotifyTools
