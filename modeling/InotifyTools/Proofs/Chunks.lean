import InotifyTools.Proofs.Listening

set_option autoImplicit false

/-! # Chunks of fanotify records

What it means that the records of a chunk are decoded one by one before anything else is read, and
when they are: a record without a fid does no harm unless it is the first of its chunk. -/

namespace InotifyTools

variable {σ : Type} {w w' : World σ}

/-! ## Decoding a chunk -/

/-- The next turn finds `r` in the buffer, at the decoding cursor, and need not read. -/
def Finds (w : World σ) (r : FanRecord) : Prop :=
  ∃ (s : EventStream) (f : Nat), bufferedEvent w = .ok (true, w.withStream s) ∧
    s.firstByte.toInt = f ∧ s.evbuf.slice f r.encode.length = r.encode

/-- What a turn on `r` has to come to: with a fid, an event that shows it, returned or dropped;
    without, a call that returns nothing. -/
def Decodes (r : FanRecord) (round : Round) (w' : World σ) : Prop :=
  match r.info with
  | none => round = .fail
  | some i => round ≠ .fail ∧
      ShowsRecord i (w'.lib.store.wdOfKey i.key) r.mask w'.lib.stream.currentEvent

variable [Sys σ]

/-- The records are decoded in order, each where it stands, without reading in between, and then
    nothing is left over. -/
def Drains : List FanRecord → World σ → Prop
  | [], w => Buffered w.lib.stream []
  | r :: rs, w => Finds w r ∧
      ∀ c : Call, ∃ round w', Goes w c round w' ∧ Decodes r round w' ∧ Drains rs w'

/-- The call `c`, which reads the records, decodes the first of them, and the rest follow. -/
def DecodesChunk (w : World σ) (c : Call) : List FanRecord → Prop
  | [] => True
  | r :: rs => ∃ round w', Goes w c round w' ∧ Decodes r round w' ∧ Drains rs w'

/-! ## When chunks are decoded -/

omit [Sys σ] in
theorem Listening.finds {q : List FanRecord} {r : FanRecord} (h : Listening w (r :: q)) :
    Finds w r := by
  have hlong : eventSize ≤ (FanRecord.encodeAll (r :: q)).length := by
    have hlen := r.length_encode
    have hsize : eventSize = 16 := rfl
    have hmeta : metaLen = 24 := rfl
    show eventSize ≤ (r.encode ++ FanRecord.encodeAll q).length
    rw [List.length_append]
    omega
  obtain ⟨s, f, hrun, hready, -, -⟩ := bufferedEvent_run_ready h.held hlong (.inl h.mode)
  exact ⟨s, f, hrun, hready.first, (Mem.slice_append_eq hready.here).1⟩

/-- A turn on a record that is buffered, or that has a fid. -/
theorem Listening.decodes {q q' : List FanRecord} {r : FanRecord} {c : Call} {os : σ} {n : Nat}
    (h : Listening w q) (htake : Takes w c q (r :: q') os) (hr : q = r :: q' ∨ r.info.isSome)
    (hspare : w.lib.store.Spare (n + 1)) :
    ∃ round w', Goes w c round w' ∧ Decodes r round w' ∧ Listening w' q' ∧
      w'.lib.store.Spare n := by
  cases hi : r.info with
  | some i =>
      obtain ⟨htook, hturn⟩ := h.turn_fid htake hi
      obtain ⟨round, w', hturn⟩ := hturn (hspare.mono (by omega))
      obtain ⟨hw', htook⟩ := htook round w' hturn
      refine ⟨round, w', hturn.goes h.initialized hw'.initialized, ?_, hw', htook.spare n hspare⟩
      simp only [Decodes, hi]
      exact ⟨htook.round, htook.shows⟩
  | none =>
      have hq : q = r :: q' := hr.resolve_right (by simp [hi])
      obtain ⟨w', hturn, hinit, hstore, hheld, -⟩ := h.turn_bare htake hi
      refine ⟨.fail, w', hturn.goes h.initialized hinit, ?_, hheld hq, ?_⟩
      · simp only [Decodes, hi]
      · rw [hstore]
        exact hspare.mono (by omega)

/-- The records held are decoded while descriptors last. -/
theorem Listening.drains {q : List FanRecord} (h : Listening w q)
    (hspare : w.lib.store.Spare q.length) : Drains q w := by
  induction q generalizing w with
  | nil => exact h.held
  | cons r q ih =>
      refine ⟨h.finds, fun c => ?_⟩
      obtain ⟨round, w', hgoes, hdecodes, hw', hspare'⟩ :=
        h.decodes (c := c) (.inl ⟨rfl, rfl⟩) (.inl rfl) hspare
      exact ⟨round, w', hgoes, hdecodes, ih hw' hspare'⟩

/-- What is read behind a record without a fid is not found in the buffer. -/
theorem not_drains_of_stuck (h : Stuck w.lib.stream) (rs : List FanRecord) : ¬ Drains rs w := by
  cases rs with
  | nil => exact h.not_buffered
  | cons r rs =>
      rintro ⟨⟨s, f, hrun, -⟩, -⟩
      cases h.bufferedEvent_run.symm.trans hrun

/-- A chunk that starts without a fid is lost. -/
theorem Listening.not_decodes (h : Listening w []) {c : Call} {r : FanRecord} {rs : List FanRecord}
    {os : σ} (hanswer : Answered w c (r :: rs) os) (hi : r.info = none) :
    ¬ DecodesChunk w c (r :: rs) := by
  rintro ⟨round, w₁, hgoes, hdecodes, hdrains⟩
  simp only [Decodes, hi] at hdecodes
  obtain ⟨w', hturn, hinit, -, -, hstuck⟩ := h.turn_bare (.inr ⟨rfl, hanswer⟩) hi
  rw [hdecodes] at hgoes
  obtain ⟨-, rfl⟩ := Returns.unique hgoes (hturn.goes h.initialized hinit)
  exact not_drains_of_stuck (hstuck rfl) rs hdrains

/-- **Chunks that start with a fid are decoded**, and only they: as long as only such chunks are read,
    whatever else is done meanwhile, the records held are decoded one by one, each as the event it
    stands for or, without a fid, as a call that returns nothing; and the next chunk is so decoded
    exactly if it starts with a fid. -/
theorem chunks_decoded {env : σ → σ → Prop} {w₀ : World σ} {q : List FanRecord}
    {log : List (FidRecord × Event)} (h₀ : Starts env w₀)
    (h : Hears env Op.Aside StartsWithFid w₀ [] w q log) :
    (w.lib.store.Spare q.length → Drains q w) ∧
      ∀ (c : Call) (rs : List FanRecord) (os : σ), q = [] → Answered w c rs os →
        w.lib.store.Spare rs.length → (DecodesChunk w c rs ↔ StartsWithFid rs) := by
  have hw := h.listening (fun _ => id) (fun _ => id) h₀.listening.1
  refine ⟨hw.drains, fun c rs os hq hanswer hspare => ?_⟩
  subst hq
  cases rs with
  | nil =>
      cases hanswer with
      | data _ _ _ hne => exact absurd rfl hne
  | cons r rs =>
      refine ⟨fun hdecodes => ?_, fun hstarts => ?_⟩
      · show r.info.isSome = true
        by_contra hnone
        exact hw.not_decodes hanswer (by simpa using hnone) hdecodes
      · obtain ⟨round, w', hgoes, hdecodes, hw', hspare'⟩ :=
          hw.decodes (.inr ⟨rfl, hanswer⟩) (.inr hstarts) hspare
        exact ⟨round, w', hgoes, hdecodes, hw'.drains hspare'⟩

/-! ## On the desk -/

namespace Desk

/-- A queue overflow. -/
def overflow : FanRecord where
  version := 3
  mask := 0x4000
  maskHigh := 0
  fd := -1
  pid := 0
  info := none

/-- Somebody opened `a`, in the directory with the handle 7. -/
def opened : FanRecord where
  version := 3
  mask := 0x20
  maskHigh := 0
  fd := -1
  pid := 2
  info := some
    { infoType := fanEventInfoTypeDfidName, pad := 0, fsid := (1, 1), handleType := 1
      handle := [7, 0, 0, 0, 0, 0, 0, 0], name := ascii "a", padding := 3
      typed := by decide, noNul := by decide, named := by decide, fits := by decide }

/-- A new handle, with the records `rs` to be read. -/
def unread (rs : List FanRecord) : World Desk :=
  { lib := Inotifytools.new, os := { chunks := [FanRecord.encodeAll rs], links := [ascii "/d"] } }

/-- That handle, initialised. -/
def listener (rs : List FanRecord) : World Desk := (unread rs).after 9 [.init true false 0]

theorem starts (rs : List FanRecord) : Starts (fun _ _ => False) (listener rs) :=
  .init ⟨_, .refl⟩ rfl rfl (rfl : InotifyTools.init true false 0 (unread rs) = .ok (true, listener rs))

end Desk

/-- The event behind an overflow is lost. -/
theorem overflow_loses_chunk :
    let w := Desk.listener [Desk.overflow, Desk.opened]
    Starts (fun _ _ => False) w ∧
      (∃ os, Answered w Desk.call [Desk.overflow, Desk.opened] os) ∧
      ¬ DecodesChunk w Desk.call [Desk.overflow, Desk.opened] := by
  intro w
  have hanswer : Answered w Desk.call [Desk.overflow, Desk.opened] _ :=
    .data (by decide +kernel) (.now _ (by decide +kernel) (by decide +kernel)) (by decide +kernel)
      (by decide +kernel) (by decide +kernel)
  have hstarts : Starts (fun _ _ => False) w := Desk.starts _
  exact ⟨hstarts, ⟨_, hanswer⟩, hstarts.listening.1.not_decodes hanswer rfl⟩

/-- The same records the other way round are decoded. -/
theorem chunks_decoded_desk :
    let w := Desk.listener [Desk.opened, Desk.overflow]
    DecodesChunk w Desk.call [Desk.opened, Desk.overflow] := by
  intro w
  have hstarts : Starts (fun _ _ => False) w := Desk.starts _
  have hspare : w.lib.store.Spare 2 :=
    ⟨{1, 2}, by decide, fun wd hwd => ⟨by simp at hwd; rcases hwd with rfl | rfl <;> decide, hstarts.listening.2.2 wd⟩⟩
  have hanswer : Answered w Desk.call [Desk.opened, Desk.overflow] _ :=
    .data (by decide +kernel) (.now _ (by decide +kernel) (by decide +kernel)) (by decide +kernel)
      (by decide +kernel) (by decide +kernel)
  exact ((chunks_decoded hstarts .start).2 Desk.call _ _ rfl hanswer hspare).2 rfl

end InotifyTools
