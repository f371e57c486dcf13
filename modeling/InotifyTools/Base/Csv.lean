import Mathlib.Data.List.Forall2
import Mathlib.Tactic.Common

set_option autoImplicit false

/-! # Separated values

A text is a list of records, each ended by a symbol of its own, and a record is a list of fields with
separators between them. A field stands for itself, or between quotes, where a quote is doubled and
every other symbol stands for itself. -/

namespace Csv

/-- The symbols with a meaning. -/
structure Dialect (α : Type) where
  sep : α
  eol : α
  quote : α
  sep_ne_eol : sep ≠ eol
  sep_ne_quote : sep ≠ quote
  eol_ne_quote : eol ≠ quote

/-! ## Reading -/

/-- Where the reader stands: before a field, inside one without or with quotes, or behind a quote
    that ends a field unless it is doubled. -/
inductive Place
  | start
  | plain
  | quoted
  | closed
deriving DecidableEq

/-- The place of the reader, and the field, the record and the text read so far. -/
structure Reader (α : Type) where
  place : Place := .start
  field : List α := []
  fields : List (List α) := []
  records : List (List (List α)) := []

namespace Reader

variable {α : Type} (r : Reader α)

def put (place : Place) (c : α) : Reader α := { r with place, field := r.field ++ [c] }

def endField : Reader α := { r with place := .start, field := [], fields := r.fields ++ [r.field] }

def endRecord : Reader α :=
  { place := .start, field := [], fields := [], records := r.records ++ [r.fields ++ [r.field]] }

variable [DecidableEq α] (d : Dialect α)

/-- A symbol that ends a field. -/
def delimit (c : α) : Option (Reader α) :=
  if c = d.sep then some r.endField else if c = d.eol then some r.endRecord else none

def step (c : α) : Option (Reader α) :=
  match r.place with
  | .start =>
      if c = d.quote then some { r with place := .quoted } else r.delimit d c <|> some (r.put .plain c)
  | .plain => if c = d.quote then none else r.delimit d c <|> some (r.put .plain c)
  | .quoted => if c = d.quote then some { r with place := .closed } else some (r.put .quoted c)
  | .closed => if c = d.quote then some (r.put .quoted c) else r.delimit d c

def run (xs : List α) : Option (Reader α) := xs.foldlM (fun r c => r.step d c) r

/-- The records at the end of the text. The last one may lack its end, but not a closing quote. -/
def close : Option (List (List (List α))) :=
  if r.place = .quoted then none
  else if r.place = .start ∧ r.fields = [] then some r.records
  else some r.endRecord.records

end Reader

variable {α : Type} [DecidableEq α] {d : Dialect α}

def read (d : Dialect α) (xs : List α) : Option (List (List (List α))) := do
  (← Reader.run {} d xs).close

/-- Read the rest of a field: what it holds, and the text from the symbol on that ends it. -/
def Reader.readField (d : Dialect α) (r : Reader α) : List α → Option (List α × List α)
  | [] => if r.place = .quoted then none else some (r.field, [])
  | c :: xs =>
      if r.place ≠ .quoted ∧ (c = d.sep ∨ c = d.eol) then some (r.field, c :: xs)
      else (r.step d c).bind fun r' => r'.readField d xs

def readField (d : Dialect α) (xs : List α) : Option (List α × List α) := Reader.readField d {} xs

/-! ## Writing -/

def doubled (d : Dialect α) (t : List α) : List α :=
  t.flatMap fun c => if c = d.quote then [d.quote, c] else [c]

/-- `s` is a way to write the field `t`. -/
inductive Form (d : Dialect α) : List α → List α → Prop
  | plain {t : List α} (h : ∀ c ∈ t, c ≠ d.sep ∧ c ≠ d.eol ∧ c ≠ d.quote) : Form d t t
  | quoted (t : List α) : Form d ([d.quote] ++ doubled d t ++ [d.quote]) t

namespace Reader

variable {r : Reader α}

theorem run_append (r : Reader α) (xs ys : List α) :
    r.run d (xs ++ ys) = (r.run d xs).bind fun r' => r'.run d ys := List.foldlM_append ..

theorem run_cons (r : Reader α) (c : α) (xs : List α) :
    r.run d (c :: xs) = (r.step d c).bind fun r' => r'.run d xs := List.foldlM_cons ..

theorem run_singleton (r : Reader α) (c : α) : r.run d [c] = r.step d c := by
  rw [run_cons]
  exact Option.bind_fun_some _

/-- Anywhere but inside quotes, a separator ends the field. -/
theorem step_sep (h : r.place ≠ .quoted) : r.step d d.sep = some r.endField := by
  have hdelimit : r.delimit d d.sep = some r.endField := if_pos rfl
  unfold step
  split
  · rw [if_neg d.sep_ne_quote, hdelimit]
    rfl
  · rw [if_neg d.sep_ne_quote, hdelimit]
    rfl
  · next hplace => exact absurd hplace h
  · rw [if_neg d.sep_ne_quote, hdelimit]

/-- Anywhere but inside quotes, the end of a record ends it. -/
theorem step_eol (h : r.place ≠ .quoted) : r.step d d.eol = some r.endRecord := by
  have hdelimit : r.delimit d d.eol = some r.endRecord :=
    (if_neg d.sep_ne_eol.symm).trans (if_pos rfl)
  unfold step
  split
  · rw [if_neg d.eol_ne_quote, hdelimit]
    rfl
  · rw [if_neg d.eol_ne_quote, hdelimit]
    rfl
  · next hplace => exact absurd hplace h
  · rw [if_neg d.eol_ne_quote, hdelimit]

theorem step_plain {c : α} (h : c ≠ d.sep ∧ c ≠ d.eol ∧ c ≠ d.quote)
    (hplace : r.place = .start ∨ r.place = .plain) : r.step d c = some (r.put .plain c) := by
  obtain ⟨hsep, heol, hquote⟩ := h
  have hdelimit : r.delimit d c = none := (if_neg hsep).trans (if_neg heol)
  unfold step
  rcases hplace with hplace | hplace
  · rw [hplace]
    dsimp only
    rw [if_neg hquote, hdelimit]
    rfl
  · rw [hplace]
    dsimp only
    rw [if_neg hquote, hdelimit]
    rfl

theorem run_plain {t : List α} (h : ∀ c ∈ t, c ≠ d.sep ∧ c ≠ d.eol ∧ c ≠ d.quote)
    (hplace : r.place = .start ∨ r.place = .plain) :
    ∃ place, place ≠ .quoted ∧ r.run d t = some { r with place, field := r.field ++ t } := by
  induction t generalizing r with
  | nil =>
      refine ⟨r.place, ?_, by rw [List.append_nil]; rfl⟩
      rcases hplace with hplace | hplace <;> rw [hplace] <;> exact nofun
  | cons c t ih =>
      have hstep := step_plain (h c List.mem_cons_self) hplace
      obtain ⟨place, hne, hrun⟩ := ih (fun c' hc => h c' (List.mem_cons_of_mem c hc))
        (r := r.put .plain c) (.inr rfl)
      refine ⟨place, hne, ?_⟩
      rw [run_cons, hstep, Option.bind_some, hrun, put]
      dsimp only
      rw [List.append_assoc]
      rfl

/-- Inside quotes, doubling undoes what a quote means. -/
theorem run_doubled (hplace : r.place = .quoted) (t : List α) :
    r.run d (doubled d t) = some { r with field := r.field ++ t } := by
  induction t generalizing r with
  | nil =>
      rw [List.append_nil]
      rfl
  | cons c t ih =>
      have hput : r.run d (if c = d.quote then [d.quote, c] else [c]) = some (r.put .quoted c) := by
        by_cases hquote : c = d.quote
        · rw [if_pos hquote, run_cons, step, hplace]
          dsimp only
          rw [if_pos rfl, Option.bind_some, run_singleton, step]
          dsimp only
          rw [if_pos hquote]
          rfl
        · rw [if_neg hquote, run_singleton, step, hplace]
          exact if_neg hquote
      have hcons : doubled d (c :: t) = (if c = d.quote then [d.quote, c] else [c]) ++ doubled d t :=
        List.flatMap_cons ..
      rw [hcons, run_append, hput, Option.bind_some, ih rfl, put]
      dsimp only
      rw [List.append_assoc, hplace]
      rfl

/-- A field in one of its forms is read. -/
theorem run_form {s t : List α} (h : Form d s t) (hplace : r.place = .start) (hfield : r.field = []) :
    ∃ place, place ≠ .quoted ∧ r.run d s = some { r with place, field := t } := by
  cases h with
  | plain h =>
      have hrun := run_plain (r := r) h (.inl hplace)
      rwa [hfield, List.nil_append] at hrun
  | quoted =>
      refine ⟨.closed, nofun, ?_⟩
      have hopen : r.step d d.quote = some { r with place := .quoted } := by
        rw [step, hplace]
        exact if_pos rfl
      rw [run_append, run_append, run_singleton, hopen, Option.bind_some, run_doubled rfl,
        Option.bind_some, run_singleton, step]
      dsimp only
      rw [if_pos rfl, hfield, List.nil_append]

/-- A record with a field in each place is read. -/
theorem run_record {ss ts : List (List α)} (h : List.Forall₂ (Form d) ss ts) (hne : ts ≠ [])
    (hplace : r.place = .start) (hfield : r.field = []) :
    r.run d ([d.sep].intercalate ss ++ [d.eol])
      = some { records := r.records ++ [r.fields ++ ts] } := by
  induction h generalizing r with
  | nil => exact absurd rfl hne
  | @cons s t ss ts hform hrest ih =>
      obtain ⟨place, hclosed, hrun⟩ := run_form hform hplace hfield
      cases hrest with
      | nil =>
          rw [List.intercalate_singleton, run_append, hrun, Option.bind_some, run_singleton,
            step_eol hclosed]
          rfl
      | @cons s' t' ss' ts' hform' hrest' =>
          rw [List.intercalate_cons_cons, List.append_assoc, List.append_assoc, run_append, hrun,
            Option.bind_some, run_append, run_singleton, step_sep hclosed, Option.bind_some,
            ih (List.cons_ne_nil t' ts') rfl rfl, endField]
          dsimp only
          rw [List.append_assoc]
          rfl

/-! ## Reading one field -/

/-- Where a field goes on, its reader takes a step. -/
theorem readField_cons {r' : Reader α} {c : α} (h : r.place = .quoted ∨ c ≠ d.sep ∧ c ≠ d.eol)
    (hstep : r.step d c = some r') (xs : List α) : r.readField d (c :: xs) = r'.readField d xs := by
  have hgoes : ¬(r.place ≠ .quoted ∧ (c = d.sep ∨ c = d.eol)) := by
    rintro ⟨hplace, hends⟩
    obtain ⟨hsep, heol⟩ := h.resolve_left hplace
    exact hends.elim hsep heol
  rw [readField, if_neg hgoes, hstep, Option.bind_some]

/-- Anywhere but inside quotes, a field ends where a separator or the end of a record stands. -/
theorem readField_end {c : α} (h : r.place ≠ .quoted) (hc : c = d.sep ∨ c = d.eol) (xs : List α) :
    r.readField d (c :: xs) = some (r.field, c :: xs) := by
  rw [readField, if_pos ⟨h, hc⟩]

theorem readField_plain {t : List α} (h : ∀ c ∈ t, c ≠ d.sep ∧ c ≠ d.eol ∧ c ≠ d.quote)
    (hplace : r.place = .start ∨ r.place = .plain) {e : α} (he : e = d.sep ∨ e = d.eol)
    (xs : List α) : r.readField d (t ++ e :: xs) = some (r.field ++ t, e :: xs) := by
  induction t generalizing r with
  | nil =>
      have hplace : r.place ≠ .quoted := by
        rcases hplace with hplace | hplace <;> rw [hplace] <;> exact nofun
      rw [List.nil_append, readField_end hplace he, List.append_nil]
  | cons c t ih =>
      have hc := h c List.mem_cons_self
      rw [List.cons_append, readField_cons (.inr ⟨hc.1, hc.2.1⟩) (step_plain hc hplace),
        ih (fun c' hc' => h c' (List.mem_cons_of_mem c hc')) (.inr rfl), put, List.append_assoc,
        List.singleton_append]

/-- Inside quotes, nothing ends the field, and doubling undoes what a quote means. -/
theorem readField_doubled (hplace : r.place = .quoted) (t xs : List α) :
    r.readField d (doubled d t ++ xs) = { r with field := r.field ++ t }.readField d xs := by
  induction t generalizing r with
  | nil =>
      rw [List.append_nil]
      rfl
  | cons c t ih =>
      have hcons : doubled d (c :: t) = (if c = d.quote then [d.quote, c] else [c]) ++ doubled d t :=
        List.flatMap_cons ..
      have hput : ∀ ys, r.readField d ((if c = d.quote then [d.quote, c] else [c]) ++ ys)
          = (r.put .quoted c).readField d ys := by
        intro ys
        by_cases hquote : c = d.quote
        · have hclose : r.step d d.quote = some { r with place := .closed } := by
            rw [step, hplace]
            exact if_pos rfl
          have hopen : { r with place := .closed }.step d c = some (r.put .quoted c) := if_pos hquote
          have hne : c ≠ d.sep ∧ c ≠ d.eol := by
            rw [hquote]
            exact ⟨d.sep_ne_quote.symm, d.eol_ne_quote.symm⟩
          rw [if_pos hquote, List.cons_append, readField_cons (.inl hplace) hclose,
            List.singleton_append, readField_cons (.inr hne) hopen]
        · have hstep : r.step d c = some (r.put .quoted c) := by
            rw [step, hplace]
            exact if_neg hquote
          rw [if_neg hquote, List.singleton_append, readField_cons (.inl hplace) hstep]
      rw [hcons, List.append_assoc, hput, ih rfl, put]
      dsimp only
      rw [List.append_assoc, hplace, List.singleton_append]

end Reader

/-- **A written field ends itself:** it is read back, and nothing behind it is taken. -/
theorem readField_form {s t : List α} (h : Form d s t) {e : α} (he : e = d.sep ∨ e = d.eol)
    (xs : List α) : readField d (s ++ e :: xs) = some (t, e :: xs) := by
  cases h with
  | plain h => exact Reader.readField_plain h (.inl rfl) he xs
  | quoted =>
      have hopen : ({} : Reader α).step d d.quote = some { place := .quoted } := if_pos rfl
      have hclose : ({ place := .quoted, field := t } : Reader α).step d d.quote
          = some { place := .closed, field := t } := if_pos rfl
      rw [readField, List.append_assoc, List.append_assoc, List.singleton_append,
        Reader.readField_cons (.inr ⟨d.sep_ne_quote.symm, d.eol_ne_quote.symm⟩) hopen,
        Reader.readField_doubled rfl, List.nil_append, List.singleton_append,
        Reader.readField_cons (.inl rfl) hclose, Reader.readField_end (by exact nofun) he]

/-- **A written record is read back.** -/
theorem read_record {ss ts : List (List α)} (h : List.Forall₂ (Form d) ss ts) (hne : ts ≠ []) :
    read d ([d.sep].intercalate ss ++ [d.eol]) = some [ts] := by
  rw [read, Reader.run_record h hne rfl rfl]
  rfl

end Csv
