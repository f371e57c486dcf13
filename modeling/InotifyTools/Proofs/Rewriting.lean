import InotifyTools.Base.Rekeying
import InotifyTools.Proofs.Moves

set_option autoImplicit false

/-! # Bulk renames

`replace_filename` rewrites a prefix of the names of all watches found by name, one after the
other, in an index that changes under it. -/

namespace InotifyTools

open KeyedMap

variable {σ : Type}

/-! ## Names -/

/-- The name with the prefix `old` replaced by `new`, if it has it. -/
def rewriteName (old new n : Bytes) : Bytes :=
  if old <+: n then new ++ n.drop old.length else n

theorem rewriteName_append (old new t : Bytes) : rewriteName old new (old ++ t) = new ++ t := by
  unfold rewriteName
  rw [if_pos (List.prefix_append _ _), List.drop_left]

theorem rewriteName_of_not {old n : Bytes} (new : Bytes) (h : ¬ old <+: n) :
    rewriteName old new n = n := if_neg h

theorem Watch.moved_name (old : Bytes) {new : Bytes} (hnul : 0 ∉ new) (v : Watch) :
    (v.moved old new).filename.bytes = rewriteName old new v.filename.bytes :=
  v.moved_filename old hnul

/-- Names none of which begins with `new` stay apart. -/
theorem rewriteName_movable {s : Store} (hs : s.WellIndexed) (old : Bytes) {new : Bytes}
    (hnew : ∀ (n : Bytes) (id : Nat), s.byFilename[n]? = some id → ¬ new <+: n) :
    Movable (rewriteName old new) s.byFilename := by
  have hfree : ∀ (a b : Bytes) (u v : Nat), s.byFilename[a]? = some u → s.byFilename[b]? = some v →
      rewriteName old new a = b → a = b := by
    intro a b u v _ hb he
    by_cases ha : old <+: a
    · obtain ⟨t, rfl⟩ := ha
      rw [rewriteName_append] at he
      exact absurd (he ▸ List.prefix_append _ _) (hnew b v hb)
    · rwa [rewriteName_of_not new ha] at he
  refine ⟨fun a b v ha hb => hs.byFilename.inj ha hb, fun a b u v ha hb he => ?_, hfree⟩
  by_cases hpre : old <+: b
  · by_cases hpre' : old <+: a
    · obtain ⟨t, rfl⟩ := hpre
      obtain ⟨t', rfl⟩ := hpre'
      rw [rewriteName_append, rewriteName_append, List.append_cancel_left_eq] at he
      rw [he]
    · rw [rewriteName_of_not new hpre'] at he
      exact (hfree b a v u hb ha he.symm).symm
  · rw [rewriteName_of_not new hpre] at he
    exact hfree a b u v ha hb he

/-! ## Renames one after the other -/

/-- `s` becomes `s'` when the watches `ids` are renamed in this order, each once. -/
inductive Store.Renames (old new : Bytes) : Store → List Nat → Store → Prop
  | nil (s : Store) : Renames old new s [] s
  | cons {s s' : Store} {id : Nat} {v : Watch} {ids : List Nat} (hv : s.watches[id]? = some v)
      (h : Renames old new (s.rename id v (cstring (rewriteName old new v.filename.bytes))) ids s') :
      Renames old new s (id :: ids) s'

theorem Store.Renames.append {old new : Bytes} {s s₁ s₂ : Store} {ids ids' : List Nat}
    (h : Renames old new s ids s₁) (h' : Renames old new s₁ ids' s₂) :
    Renames old new s (ids ++ ids') s₂ := by
  induction h with
  | nil => exact h'
  | cons hv _ ih => exact .cons hv (ih h')

/-- The watch is found by a name that begins with `old`. -/
def Store.Begins (s : Store) (old : Bytes) (id : Nat) : Prop :=
  ∃ t : Bytes, s.byFilename[old ++ t]? = some id

/-- What is left of `s₀` in the middle of a bulk rename: the watches found by name have been
    renamed and entered under their new names, but for those that are still to come. -/
structure Rewriting (s₀ s : Store) (old new : Bytes) (rest : List Nat) : Prop where
  byFilename : Rekeyed (rewriteName old new) s₀.byFilename s.byFilename rest
  watches : ∀ id, s.watches[id]? = s₀.watches[id]?.map fun v =>
    if id ∈ s₀.byFilename.values ∧ id ∉ rest then v.moved old new else v
  others : s = { s₀ with watches := s.watches, byFilename := s.byFilename }

namespace Rewriting

variable {s₀ : Store} {old new : Bytes} {id : Nat} {rest : List Nat} {v : Watch}

/-- One round of `replace_filename` renames the watch if its name begins with `old`. -/
theorem step {w : World σ} (h : Rewriting s₀ w.lib.store old new (id :: rest)) (hid : id ∉ rest)
    (h₀ : s₀.WellIndexed) (hnul : 0 ∉ new)
    (hnew : ∀ (n : Bytes) (i : Nat), s₀.byFilename[n]? = some i → ¬ new <+: n)
    {n : Bytes} (hn : s₀.byFilename[n]? = some id) :
    ∃ s, replaceFilenameOf old new id w = .ok ((), { w with lib := { w.lib with store := s } }) ∧
      Rewriting s₀ s old new rest ∧
      Store.Renames old new w.lib.store (if old <+: n then [id] else []) s := by
  obtain ⟨v, hv, rfl, -⟩ := h₀.found_filename hn
  have hv' : w.lib.store.watches[id]? = some v := by
    rw [h.watches, hv]
    simp
  have hmovable := rewriteName_movable h₀ old hnew
  have hne : v.filename.bytes ≠ new := fun he => hnew _ _ hn (he ▸ List.prefix_rfl)
  have hwatches : ∀ i : Nat, (w.lib.store.watches.insert id (v.moved old new))[i]? =
      s₀.watches[i]?.map fun v =>
        if i ∈ s₀.byFilename.values ∧ i ∉ rest then v.moved old new else v := by
    intro i
    rw [lookup_insert]
    by_cases hi : id = i
    · subst hi
      rw [if_pos rfl, hv, Option.map_some, if_pos ⟨(mem_values _ _).2 ⟨_, hn⟩, hid⟩]
    · have hmem : (i ∉ id :: rest) ↔ i ∉ rest := by simp [Ne.symm hi]
      rw [if_neg hi, h.watches]
      simp only [hmem]
  refine ⟨_, replaceFilenameOf_run hv', ?_⟩
  by_cases hold : old <+: v.filename.bytes
  · have hname : new ++ v.filename.bytes.drop old.length = rewriteName old new v.filename.bytes :=
      (if_pos hold).symm
    have hmoved : v.moved old new
        = { v with filename := cstring (new ++ v.filename.bytes.drop old.length) } := if_pos hold
    have hbytes : (cstring (new ++ v.filename.bytes.drop old.length)).bytes
        = rewriteName old new v.filename.bytes := by
      rw [← v.moved_name old hnul, hmoved]
    rw [hmoved] at hwatches
    rw [show w.lib.store.renameBelow old new id v = _ from if_pos ⟨hold, hne⟩, if_pos hold]
    refine ⟨⟨?_, hwatches, ?_⟩, .cons hv' (hname ▸ .nil _)⟩
    · have hmove := h.byFilename.move hmovable hn hid
      unfold Store.rename
      dsimp only
      rwa [if_pos (h.byFilename.waiting hn), hbytes]
    · conv_lhs => rw [h.others]
      rfl
  · rw [show w.lib.store.renameBelow old new id v = _ from if_neg fun hc => hold hc.1, if_neg hold]
    refine ⟨⟨h.byFilename.stay hmovable hn (rewriteName_of_not new hold), fun i => ?_, h.others⟩,
      .nil _⟩
    rw [← hwatches, show v.moved old new = v from if_neg hold, lookup_insert]
    split
    · next he => rw [← he, hv']
    · rfl

/-- All rounds of `replace_filename`. -/
theorem run {w : World σ} (h : Rewriting s₀ w.lib.store old new rest) (hrest : rest.Nodup)
    (h₀ : s₀.WellIndexed) (hnul : 0 ∉ new)
    (hnew : ∀ (n : Bytes) (i : Nat), s₀.byFilename[n]? = some i → ¬ new <+: n)
    (hmem : ∀ id ∈ rest, id ∈ s₀.byFilename.values) :
    ∃ s ids, replaceFilenames old new rest w =
        .ok ((), { w with lib := { w.lib with store := s } }) ∧ Rewriting s₀ s old new [] ∧
      Store.Renames old new w.lib.store ids s ∧ ids.Sublist rest ∧
      ∀ id ∈ rest, id ∈ ids ↔ s₀.Begins old id := by
  induction rest generalizing w with
  | nil => exact ⟨_, [], rfl, h, .nil _, .slnil, nofun⟩
  | cons id rest ih =>
      obtain ⟨hid, hnodup⟩ := List.nodup_cons.1 hrest
      obtain ⟨n, hn⟩ := (mem_values _ _).1 (hmem id List.mem_cons_self)
      obtain ⟨s₁, hround, h₁, hrenames₁⟩ := h.step hid h₀ hnul hnew hn
      obtain ⟨s₂, ids, hrun, h₂, hrenames₂, hsub, hids⟩ := ih
        (w := { w with lib := { w.lib with store := s₁ } }) h₁ hnodup
        fun i hi => hmem i (List.mem_cons_of_mem _ hi)
      have hbegins : s₀.Begins old id ↔ old <+: n := by
        constructor
        · rintro ⟨t, ht⟩
          exact h₀.byFilename.inj ht hn ▸ List.prefix_append _ _
        · rintro ⟨t, rfl⟩
          exact ⟨t, hn⟩
      refine ⟨s₂, (if old <+: n then [id] else []) ++ ids, ?_, h₂, hrenames₁.append hrenames₂, ?_, ?_⟩
      · unfold replaceFilenames
        rw [Prog.bind_run_ok hround, hrun]
      · split
        · exact hsub.cons_cons id
        · exact hsub.cons id
      · intro i hi
        rw [List.mem_append]
        rcases List.mem_cons.1 hi with rfl | hi
        · have hnot : i ∉ ids := fun hmem => hid (hsub.subset hmem)
          rw [hbegins]
          split <;> simp_all
        · have hne : i ≠ id := fun he => hid (he ▸ hi)
          rw [← hids i hi]
          split <;> simp [hne]

end Rewriting

/-! ## The whole rewrite -/

/-- `s'` is `s` with the prefix `old` of the names of all watches found by name replaced by `new`:
    the name index is the image of the one before, each watch concerned has been renamed once, and
    everything else is as it was. -/
structure Rewritten (old new : Bytes) (s s' : Store) : Prop where
  below : ∀ t : Bytes, s'.byFilename[new ++ t]? = s.byFilename[old ++ t]?
  beside : ∀ n : Bytes, ¬ old <+: n → ¬ new <+: n → s'.byFilename[n]? = s.byFilename[n]?
  gone : ∀ n : Bytes, old <+: n → ¬ new <+: n → s'.byFilename[n]? = none
  renamed : ∀ (t : Bytes) (id : Nat), s.byFilename[old ++ t]? = some id →
    ∃ v, s.watches[id]? = some v ∧ v.filename.bytes = old ++ t ∧
      s'.watches[id]? = some { v with filename := cstring (new ++ t) } ∧
      (cstring (new ++ t)).bytes = new ++ t
  kept : ∀ id : Nat, ¬ s.Begins old id → s'.watches[id]? = s.watches[id]?
  once : ∃ ids : List Nat, ids.Nodup ∧ (∀ id, id ∈ ids ↔ s.Begins old id) ∧
    Store.Renames old new s ids s'
  others : s' = { s with watches := s'.watches, byFilename := s'.byFilename }

/-- When all rounds are over, the store is rewritten. -/
theorem Rewriting.rewritten {s₀ s : Store} {old new : Bytes} (h : Rewriting s₀ s old new [])
    (h₀ : s₀.WellIndexed) (hnul : 0 ∉ new)
    (hnew : ∀ (n : Bytes) (id : Nat), s₀.byFilename[n]? = some id → ¬ new <+: n) {ids : List Nat}
    (hrenames : Store.Renames old new s₀ ids s) (hnodup : ids.Nodup)
    (hids : ∀ id, id ∈ ids ↔ s₀.Begins old id) : Rewritten old new s₀ s := by
  have hfinish := h.byFilename.finish
  -- nothing was indexed below the new name, so what is found there has been moved
  have hgone : ∀ n : Bytes, old <+: n → ¬ new <+: n → s.byFilename[n]? = none := by
    intro n hold hnot
    refine Option.eq_none_iff_forall_ne_some.2 fun id hid => ?_
    obtain ⟨m, hm, he⟩ := (hfinish n id).1 hid
    by_cases hm' : old <+: m
    · obtain ⟨t, rfl⟩ := hm'
      rw [rewriteName_append] at he
      exact hnot (he ▸ List.prefix_append _ _)
    · rw [rewriteName_of_not new hm'] at he
      exact hm' (he ▸ hold)
  refine ⟨fun t => Option.ext fun id => ?_, fun n hold hnot => Option.ext fun id => ?_, hgone, ?_, ?_,
    ⟨ids, hnodup, hids, hrenames⟩, h.others⟩
  · rw [hfinish]
    constructor
    · rintro ⟨m, hm, he⟩
      by_cases hm' : old <+: m
      · obtain ⟨t', rfl⟩ := hm'
        rw [rewriteName_append, List.append_cancel_left_eq] at he
        exact he ▸ hm
      · rw [rewriteName_of_not new hm'] at he
        exact absurd (he ▸ List.prefix_append _ _) (hnew m id hm)
    · exact fun ht => ⟨old ++ t, ht, rewriteName_append old new t⟩
  · rw [hfinish]
    constructor
    · rintro ⟨m, hm, he⟩
      by_cases hm' : old <+: m
      · obtain ⟨t, rfl⟩ := hm'
        rw [rewriteName_append] at he
        exact absurd (he ▸ List.prefix_append _ _) hnot
      · rw [rewriteName_of_not new hm'] at he
        exact he ▸ hm
    · exact fun hn => ⟨n, hn, rewriteName_of_not new hold⟩
  · intro t id hid
    obtain ⟨v, hv, hname, -⟩ := h₀.found_filename hid
    have hold : old <+: v.filename.bytes := hname ▸ List.prefix_append _ _
    have hmoved : v.moved old new = { v with filename := cstring (new ++ t) } := by
      unfold Watch.moved
      rw [if_pos hold, hname, List.drop_left]
    have hbytes := v.moved_name old hnul
    rw [hmoved, hname, rewriteName_append] at hbytes
    refine ⟨v, hv, hname, ?_, hbytes⟩
    rw [h.watches, hv, Option.map_some, if_pos ⟨(mem_values _ _).2 ⟨_, hid⟩, List.not_mem_nil⟩, hmoved]
  · intro id hnot
    rw [h.watches]
    cases hv : s₀.watches[id]? with
    | none => rfl
    | some v =>
        rw [Option.map_some]
        split
        · next hmem =>
            obtain ⟨n, hn⟩ := (mem_values _ _).1 hmem.1
            obtain ⟨v', hv', rfl, -⟩ := h₀.found_filename hn
            cases hv.symm.trans hv'
            unfold Watch.moved
            rw [if_neg]
            rintro ⟨t, ht⟩
            exact hnot ⟨t, ht ▸ hn⟩
        · rfl

variable [Sys σ] {w : World σ}

/-- **A bulk rename is an exact prefix rewrite** when no name begins with the new prefix yet: of every
    reachable handle, the name index becomes its image, and each watch concerned is renamed once. -/
theorem replaceFilename_rewrites {env : σ → σ → Prop} (h : Reachable env w) {old new : Bytes}
    (hold : old ≠ []) (hne : new ≠ []) (hnul : 0 ∉ new)
    (hnew : ∀ (n : Bytes) (id : Nat), w.lib.store.byFilename[n]? = some id → ¬ new <+: n) :
    ∃ s, replaceFilename old new w = .ok ((), { w with lib := { w.lib with store := s } }) ∧
      Rewritten old new w.lib.store s := by
  have hw := h.wellIndexed
  have hstart : Rewriting w.lib.store w.lib.store old new w.lib.store.byFilename.values := by
    refine ⟨.start _ _, fun id => ?_, rfl⟩
    have hnone : ¬ (id ∈ w.lib.store.byFilename.values ∧ id ∉ w.lib.store.byFilename.values) :=
      fun hc => hc.2 hc.1
    simp only [hnone, if_false, Option.map_id']
  have hnodup : w.lib.store.byFilename.values.Nodup :=
    nodup_values fun a b v ha hb => hw.byFilename.inj ha hb
  obtain ⟨s, ids, hrun, hend, hrenames, hsub, hids⟩ :=
    hstart.run hnodup hw hnul hnew fun _ h => h
  refine ⟨s, ?_, hend.rewritten hw hnul hnew hrenames (hsub.nodup hnodup) fun id => ?_⟩
  · unfold replaceFilename
    rw [if_neg (by simp [hold, hne])]
    exact hrun
  · constructor
    · exact fun hid => (hids id (hsub.subset hid)).1 hid
    · exact fun hbegins => (hids id (hbegins.elim fun t ht => (mem_values _ _).2 ⟨_, ht⟩)).2 hbegins

/-- The directory "d/a/" is given a new name that begins with the old one. -/
theorem replaceFilename_rewrites_desk :
    ∃ s, replaceFilename (ascii "d/a/") (ascii "d/a/x/") deskTree =
        .ok ((), { deskTree with lib := { deskTree.lib with store := s } }) ∧
      s.byFilename[ascii "d/a/x/f"]? = deskTree.lib.store.byFilename[ascii "d/a/f"]? ∧
      s.byFilename[ascii "d/ab/"]? = deskTree.lib.store.byFilename[ascii "d/ab/"]? ∧
      s.byFilename[ascii "d/a/f"]? = none := by
  have hkeys : ∀ n ∈ deskTree.lib.store.byFilename.keys, ¬ ascii "d/a/x/" <+: n := by decide +kernel
  have hold : ascii "d/a/" ≠ [] := by decide
  obtain ⟨s, hrun, hs⟩ := replaceFilename_rewrites deskTree_reachable hold (by decide) (by decide)
    fun n id hn => hkeys n (mem_keys_of_lookup hn)
  exact ⟨s, hrun, hs.below (ascii "f"), hs.beside _ (by decide) (by decide),
    hs.gone _ (by decide) (by decide)⟩

end InotifyTools
