import InotifyTools.Base.Masks
import InotifyTools.Implementation.Desk
import InotifyTools.Implementation.EventList
import InotifyTools.Proofs.Runs

set_option autoImplicit false

/-! # Event lists against their specification

A list is read element by element; what comes out is what splitting it at the separators says. -/

namespace InotifyTools

variable {σ : Type}

/-! ## Event names -/

/-- The mask of an event name, in any case. -/
def eventMask (e : Bytes) : Option Int32 :=
  (eventTable.find? fun n => eqIgnoreAsciiCase n.1 e).map Prod.snd

theorem eventMask_mem {e : Bytes} {m : Int32} (h : eventMask e = some m) :
    ∃ n ∈ eventTable, eqIgnoreAsciiCase n.1 e = true ∧ n.2 = m := by
  obtain ⟨n, hfind, hm⟩ := Option.map_eq_some_iff.1 h
  exact ⟨n, List.mem_of_find?_eq_some hfind, by simpa using List.find?_some hfind, hm⟩

/-- A name of the table has a mask of its own. -/
theorem eventMask_ne {e : Bytes} {m : Int32} (h : eventMask e = some m) : m ≠ 0 ∧ m ≠ -1 := by
  obtain ⟨n, hn, -, rfl⟩ := eventMask_mem h
  have hall : ∀ n ∈ eventTable, n.2 ≠ 0 ∧ n.2 ≠ -1 := by decide
  exact hall n hn

/-- Event names are short. -/
theorem length_of_eventMask {e : Bytes} {m : Int32} (h : eventMask e = some m) : e.length ≤ 13 := by
  obtain ⟨n, hn, heq, -⟩ := eventMask_mem h
  have hall : ∀ n ∈ eventTable, n.1.length ≤ 13 := by decide
  have hlen : n.1.length = e.length := by
    simpa using congrArg List.length (of_decide_eq_true heq)
  rw [← hlen]
  exact hall n hn

theorem eventMask_nil : eventMask [] = none := by decide

/-- An element that is too long for a name is unknown. -/
theorem eventMask_long {e : Bytes} (h : 13 < e.length) : eventMask e = none := by
  cases he : eventMask e with
  | none => rfl
  | some m => exact absurd (length_of_eventMask he) (by omega)

theorem onestrToEvent_eq (e : Bytes) :
    onestrToEvent e = if e = [] then 0 else (eventMask e).getD (-1) := by
  unfold onestrToEvent eventMask
  simp only [List.isEmpty_iff]

/-- Cutting an element at the internal limit makes no difference. -/
theorem onestrToEvent_take (e : Bytes) :
    onestrToEvent (e.take (if e.length > eventstrSize - 1 then eventstrSize - 1 else e.length))
      = onestrToEvent e := by
  split
  · next hlong =>
      have hsize : eventstrSize = 4096 := rfl
      have htake : (e.take (eventstrSize - 1)).length = 4095 := by
        rw [List.length_take]
        omega
      have hne : e ≠ [] := List.ne_nil_of_length_pos (by omega)
      have hne' : e.take (eventstrSize - 1) ≠ [] := List.ne_nil_of_length_pos (by omega)
      rw [onestrToEvent_eq, onestrToEvent_eq, if_neg hne, if_neg hne', eventMask_long (by omega),
        eventMask_long (by omega)]
  · rw [List.take_length]

/-! ## Lists of names -/

/-- What a list of elements stands for, with `acc` to start from: 0 if the first element that is no
    event name is empty, -1 if it is not, and otherwise the masks of all of them. -/
def listMask (acc : Int32) (es : List Bytes) : Int32 :=
  match es.find? fun e => (eventMask e).isNone with
  | some e => if e = [] then 0 else -1
  | none => Masks.union acc (es.filterMap eventMask)

theorem listMask_cons_none {acc : Int32} {e : Bytes} {es : List Bytes} (h : eventMask e = none) :
    listMask acc (e :: es) = onestrToEvent e := by
  rw [onestrToEvent_eq, h, listMask, List.find?_cons_of_pos (by rw [h]; rfl)]
  rfl

theorem listMask_cons_some {acc m : Int32} {e : Bytes} {es : List Bytes}
    (h : eventMask e = some m) : listMask acc (e :: es) = listMask (acc ||| m) es := by
  rw [listMask, List.find?_cons_of_neg (by rw [h]; exact nofun), List.filterMap_cons_some h]
  rfl

/-- Reading one element. -/
theorem listMask_cons (acc : Int32) (e : Bytes) (es : List Bytes) :
    listMask acc (e :: es) =
      if onestrToEvent e = 0 ∨ onestrToEvent e = -1 then onestrToEvent e
      else listMask (acc ||| onestrToEvent e) es := by
  cases he : eventMask e with
  | none =>
      rw [listMask_cons_none he, if_pos]
      rw [onestrToEvent_eq, he]
      split
      · exact .inl rfl
      · exact .inr rfl
  | some m =>
      have hne : e ≠ [] := by
        rintro rfl
        cases eventMask_nil.symm.trans he
      have hone : onestrToEvent e = m := by rw [onestrToEvent_eq, if_neg hne, he]; rfl
      obtain ⟨hzero, hunknown⟩ := eventMask_ne he
      rw [listMask_cons_some he, hone, if_neg (not_or.2 ⟨hzero, hunknown⟩)]

/-- The first separator cuts off the first element. -/
theorem split_of_findIdx? {sep : UInt8} {s : Bytes} {p : Nat} (h : s.findIdx? (· = sep) = some p) :
    ∃ e rest, s = e ++ sep :: rest ∧ sep ∉ e ∧ p = e.length := by
  induction s generalizing p with
  | nil => cases h
  | cons b s ih =>
      rw [List.findIdx?_cons] at h
      by_cases hb : b = sep
      · rw [if_pos (decide_eq_true hb)] at h
        cases h
        exact ⟨[], s, by rw [hb]; rfl, List.not_mem_nil, rfl⟩
      · rw [if_neg (by simpa using hb)] at h
        obtain ⟨q, hq, rfl⟩ := Option.map_eq_some_iff.1 h
        obtain ⟨e, rest, rfl, hmem, rfl⟩ := ih hq
        refine ⟨b :: e, rest, rfl, ?_, rfl⟩
        rw [List.mem_cons, not_or]
        exact ⟨Ne.symm hb, hmem⟩

variable [Sys σ] {w : World σ}

theorem niceassert_run (cond : Bool) (line : Nat) (condstr msg : String) (w : World σ) :
    ∃ os, niceassert cond line condstr msg w = .ok ((), { w with os }) := by
  cases cond
  · exact ⟨_, rfl⟩
  · exact ⟨_, rfl⟩

/-- The loop reads what splitting at the separator leaves. -/
theorem strToEventElements_run {sep : UInt8} {fuel : Nat} {event1 : Bytes} (hne : event1 ≠ [])
    (hfuel : event1.length ≤ fuel) (ret : Int32) (w : World σ) :
    ∃ os, strToEventElements sep fuel event1 ret w
      = .ok (listMask ret (event1.splitOn sep), { w with os }) := by
  induction fuel generalizing event1 ret w with
  | zero => exact absurd (List.eq_nil_of_length_eq_zero (Nat.le_zero.1 hfuel)) hne
  | succ fuel ih =>
      unfold strToEventElements
      rw [if_neg (by rwa [List.isEmpty_iff])]
      cases hfind : event1.findIdx? (· = sep) with
      | none =>
          have hsep : sep ∉ event1 := fun hmem =>
            absurd (List.findIdx?_eq_none_iff.1 hfind sep hmem) (by simp)
          rw [List.splitOn_eq_singleton hsep, listMask_cons]
          dsimp only
          rw [Prog.pure_bind, onestrToEvent_take]
          split
          · exact ⟨w.os, rfl⟩
          · exact ⟨w.os, rfl⟩
      -- an element too long is cut, and what is left of it is not read again
      | some p =>
          obtain ⟨e, rest, rfl, hsep, rfl⟩ := split_of_findIdx? hfind
          obtain ⟨os, hassert⟩ := niceassert_run (e.length < eventstrSize) 1930 "len < eventstr_size"
            "malformed event string (very long)" w
          rw [List.splitOn_append_cons_self_of_not_mem hsep, listMask_cons]
          dsimp only
          rw [Prog.bind_assoc, Prog.bind_run_ok hassert, Prog.pure_bind]
          have hcut : (e ++ sep :: rest).take
              (if e.length > eventstrSize - 1 then eventstrSize - 1 else e.length)
              = e.take (if e.length > eventstrSize - 1 then eventstrSize - 1 else e.length) :=
            List.take_append_of_le_length (by split <;> omega)
          have hrest : (e ++ sep :: rest).drop (e.length + 1) = rest := by
            rw [List.drop_append, List.drop_of_length_le (by omega)]
            simp
          rw [hcut, onestrToEvent_take, hrest]
          split
          · exact ⟨os, rfl⟩
          · cases rest with
            | nil => exact ⟨os, rfl⟩
            | cons b rest =>
                have hlength : (b :: rest).length ≤ fuel := by
                  rw [List.length_append, List.length_cons] at hfuel
                  omega
                obtain ⟨os', hrun⟩ := ih (List.cons_ne_nil b rest) hlength (ret ||| onestrToEvent e)
                  { w with os }
                exact ⟨os', hrun⟩

/-- A separator that can stand between event names. -/
def Separates (sep : UInt8) : Prop := sep ≠ 0 ∧ sep ≠ 0x5f ∧ isAsciiAlphabetic sep = false

/-- The bits of all event names. -/
def namedBits : Int32 := Masks.union 0 (eventTable.map Prod.snd)

theorem eventMask_within {e : Bytes} {m : Int32} (h : eventMask e = some m) :
    m &&& namedBits = m := by
  obtain ⟨n, hn, -, rfl⟩ := eventMask_mem h
  have hall : ∀ n ∈ eventTable, n.2 &&& namedBits = n.2 := by decide
  exact hall n hn

/-- The masks of some event names come to neither of the values that stand for errors. -/
theorem union_eventMask_ne {es : List Bytes} (hne : es ≠ [])
    (h : es.find? (fun e => (eventMask e).isNone) = none) :
    Masks.union 0 (es.filterMap eventMask) ≠ 0 ∧ Masks.union 0 (es.filterMap eventMask) ≠ -1 := by
  constructor
  · intro hzero
    obtain ⟨e, he⟩ := List.exists_mem_of_ne_nil es hne
    have hnamed := List.find?_eq_none.1 h e he
    rw [Bool.not_eq_true, Option.isNone_eq_false_iff] at hnamed
    obtain ⟨m, hm⟩ := Option.isSome_iff_exists.1 hnamed
    have hmem : m ∈ es.filterMap eventMask := List.mem_filterMap.2 ⟨e, he, hm⟩
    exact (eventMask_ne hm).1 ((Masks.union_eq_zero_iff.1 hzero).2 m hmem)
  · intro hall
    have hparts : ∀ m ∈ es.filterMap eventMask, m &&& namedBits = m := by
      intro m hm
      obtain ⟨e, -, he⟩ := List.mem_filterMap.1 hm
      exact eventMask_within he
    have hwithin := Masks.union_within Int32.zero_and hparts
    rw [hall] at hwithin
    exact absurd hwithin (by decide)

/-- The string that is read: up to the first NUL. -/
theorem strToEventSep_run {sep : UInt8} (hsep : Separates sep) (s : Bytes) (w : World σ) :
    ∃ os, strToEventSep (some s) sep w
      = .ok (listMask 0 ((s.takeWhile (· ≠ 0)).splitOn sep), { w with os }) := by
  obtain ⟨hnul, hunderscore, hletter⟩ := hsep
  unfold strToEventSep
  rw [if_neg (by rw [hletter]; simp [hnul, hunderscore])]
  dsimp only
  split
  · next hempty =>
      rw [List.isEmpty_iff.1 hempty, List.splitOn_nil, listMask_cons_none eventMask_nil]
      exact ⟨w.os, rfl⟩
  · next hne => exact strToEventElements_run (by rwa [List.isEmpty_iff] at hne) le_rfl 0 w

/-- **The event-list parser matches its specification.** Reading a string returns 0 if it is empty, 0
    or -1 if the first element that is no event name is empty or not, and otherwise the masks of all
    elements, which come to neither. -/
theorem strToEventSep_spec {sep : UInt8} (hsep : Separates sep) (s : Bytes) (w : World σ) :
    ∃ m os, strToEventSep (some s) sep w = .ok (m, { w with os }) ∧
      if s.takeWhile (· ≠ 0) = [] then m = 0
      else match ((s.takeWhile (· ≠ 0)).splitOn sep).find? fun e => (eventMask e).isNone with
        | some e => m = if e = [] then 0 else -1
        | none => m = Masks.union 0 (((s.takeWhile (· ≠ 0)).splitOn sep).filterMap eventMask) ∧
            m ≠ 0 ∧ m ≠ -1 := by
  obtain ⟨os, hrun⟩ := strToEventSep_run hsep s w
  refine ⟨_, os, hrun, ?_⟩
  split
  · next hempty =>
      rw [hempty, List.splitOn_nil, listMask_cons_none eventMask_nil]
      rfl
  · unfold listMask
    cases hfind : ((s.takeWhile (· ≠ 0)).splitOn sep).find? fun e => (eventMask e).isNone with
    | some e => exact rfl
    | none => exact ⟨rfl, union_eventMask_ne (List.splitOn_ne_nil _ _) hfind⟩

/-- A list with a separator of its own, in mixed case. -/
theorem strToEventSep_spec_desk :
    ∃ os, strToEventSep (some (ascii "open:Modify")) 0x3a
        ({ lib := Inotifytools.new, os := {} } : World Desk)
      = .ok (inOpen ||| inModify, { lib := Inotifytools.new, os }) := by
  have hsep : Separates 0x3a := ⟨by decide, by decide, by decide⟩
  obtain ⟨m, os, hrun, hm⟩ := strToEventSep_spec hsep (ascii "open:Modify")
    ({ lib := Inotifytools.new, os := {} } : World Desk)
  have hfind : (((ascii "open:Modify").takeWhile (· ≠ 0)).splitOn 0x3a).find?
      (fun e => (eventMask e).isNone) = none := by decide
  rw [if_neg (by decide), hfind] at hm
  have hmask : m = inOpen ||| inModify := hm.1.trans (by decide)
  exact ⟨os, hmask ▸ hrun⟩

end InotifyTools
