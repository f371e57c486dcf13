import InotifyTools.Proofs.Decoding
import InotifyTools.Proofs.Records

set_option autoImplicit false

/-! # Decoding the fanotify stream

A record with a fid becomes an event whose descriptor is that of the fid; one without makes the call
that meets it fail. As long as no read starts with one of the latter, the event buffer is a queue of
records as with inotify. -/

namespace InotifyTools

variable {σ : Type} {w w' : World σ}

/-! ## Writing the event -/

/-- Storing bytes in the event buffer. -/
theorem blitEvbuf_run {off : Nat} {bs : Bytes} (h : off + bs.length ≤ evbufSize) (w : World σ) :
    blitEvbuf off bs w =
      .ok ((), w.withStream { w.lib.stream with evbuf := w.lib.stream.evbuf.blit off bs }) := by
  unfold blitEvbuf Prog.guard
  rw [decide_eq_true h]
  rfl

theorem wrU32_run {off : Nat} (hoff : off + 4 ≤ evbufSize) (v : UInt32) (w : World σ) :
    wrU32 off v w = .ok ((), w.withStream { w.lib.stream with
      evbuf := w.lib.stream.evbuf.blit off (leBytes 4 v.toNat) }) :=
  blitEvbuf_run (by rw [length_leBytes]; exact hoff) w

/-- The buffer with the words of an event in its second half. -/
def withEvent (m : Mem) (wd mask len : UInt32) : Mem :=
  ((m.blit readCap (leBytes 4 wd.toNat)).blit (readCap + 4) (leBytes 4 mask.toNat)).blit
    (readCap + 12) (leBytes 4 len.toNat)

/-- The buffer with `n` bytes from `src` as the name of the event. -/
def withName (m : Mem) (src n : Nat) : Mem :=
  m.write (readCap + eventSize) n fun k => if src + k < readCap then m (src + k) else 0

theorem withEvent_of_lt (m : Mem) (wd mask len : UInt32) {k : Nat} (hk : k < readCap) :
    withEvent m wd mask len k = m k := by
  unfold withEvent
  rw [Mem.blit_of_lt (by omega), Mem.blit_of_lt (by omega), Mem.blit_of_lt hk]

theorem withName_of_lt (m : Mem) (src n : Nat) {k : Nat} (hk : k < readCap) :
    withName m src n k = m k := Mem.write_of_lt (by omega)

/-- The words of the event. -/
theorem withEvent_words (m : Mem) (wd mask len : UInt32) :
    (withEvent m wd mask len).slice readCap 4 = leBytes 4 wd.toNat ∧
      (withEvent m wd mask len).slice (readCap + 4) 4 = leBytes 4 mask.toNat ∧
      (withEvent m wd mask len).slice (readCap + 12) 4 = leBytes 4 len.toNat := by
  have hblit : ∀ (m : Mem) off (v : UInt32),
      (m.blit off (leBytes 4 v.toNat)).slice off 4 = leBytes 4 v.toNat := by
    intro m off v
    have h := Mem.slice_blit m off (leBytes 4 v.toNat)
    rwa [length_leBytes] at h
  have hkeep : ∀ (m : Mem) off off' (v : UInt32), off + 4 ≤ off' →
      (m.blit off' (leBytes 4 v.toNat)).slice off 4 = m.slice off 4 := by
    intro m off off' v h
    exact Mem.slice_write_of_disjoint (.inl h)
  unfold withEvent
  refine ⟨?_, ?_, hblit _ _ _⟩
  · rw [hkeep _ _ _ _ (by omega), hkeep _ _ _ _ (by omega), hblit]
  · rw [hkeep _ _ _ _ (by omega), hblit]

/-- The buffer after an event is converted: the event's words, and its name if it has one. -/
def FidRecord.converted (i : FidRecord) (m : Mem) (off : Nat) (wd mask : UInt32) : Mem :=
  let m := withEvent m wd mask (UInt32.ofNat i.nameLen)
  if i.nameLen = 0 then m else withName m (off + i.bareLength) i.nameLen

theorem FidRecord.converted_of_lt (i : FidRecord) (m : Mem) (off : Nat) (wd mask : UInt32) {k : Nat}
    (hk : k < readCap) : i.converted m off wd mask k = m k := by
  unfold converted
  split
  · exact withEvent_of_lt m wd mask _ hk
  · rw [withName_of_lt _ _ _ hk, withEvent_of_lt m wd mask _ hk]

/-- A name that counts is all that stands behind the handle. -/
theorem FidRecord.nameLen_ne_zero {i : FidRecord} (h : i.nameLen ≠ 0) :
    i.infoType = fanEventInfoTypeDfidName ∧ i.tail ≠ [] ∧ i.nameless = false ∧
      i.nameLen = i.tail.length := by
  unfold nameLen at h ⊢
  split at h
  · exact absurd rfl h
  · next hname =>
      split at h
      · next htype =>
          rw [if_neg hname, if_pos htype]
          exact ⟨htype, fun he => h (by rw [he]; rfl), Bool.eq_false_iff.2 hname, rfl⟩
      · exact absurd rfl h

theorem FidRecord.nameLen_le (i : FidRecord) : i.bareLength + i.nameLen ≤ i.length := by
  rw [length_eq]
  by_cases h : i.nameLen = 0
  · omega
  · rw [(nameLen_ne_zero h).2.2.2]

/-- Without a name field there is no name. -/
theorem FidRecord.eventName_of_nameLen {i : FidRecord} (h : i.nameLen = 0) : i.eventName = [] := by
  unfold eventName
  split
  · rfl
  · next hname =>
      unfold nameLen at h
      rw [if_neg hname] at h
      split at h
      · have htail := List.eq_nil_of_length_eq_zero h
        exact (List.append_eq_nil_iff.1 htail).1
      · next htype => exact i.name_eq_nil htype

/-- Writing a converted event. -/
theorem writeEvent_run {f : Nat} {i : FidRecord} (hoff : f + 24 + i.length ≤ readCap)
    (wd : Option Int32) (w : World σ) : writeEvent f wd (i.located (f + 24)) w =
      .ok ((), w.withStream { w.lib.stream with
        evbuf := i.converted w.lib.stream.evbuf (f + 24) (wd.getD 0).toUInt32
          (w.lib.stream.rdU32 (f + 8)) }) := by
  have hcap := readCap_eq
  have hbuf := evbufSize_eq
  have hret : maxEvents * eventSize = readCap := by rw [readCap, Nat.mul_comm]
  have hlen := i.nameLen_le
  have hshort := i.length_lt
  have hguard : f + 16 ≤ evbufSize := by omega
  unfold writeEvent Prog.guard
  rw [decide_eq_true hguard, if_pos rfl, Prog.pure_bind, getStream_bind, hret,
    Prog.bind_run_ok (wrU32_run (by omega) _ _), Prog.bind_run_ok (wrU32_run (by omega) _ _),
    Prog.bind_run_ok (wrU32_run (by omega) _ _)]
  unfold FidRecord.converted
  by_cases hname : i.nameLen = 0
  · have hzero : ¬ (i.located (f + 24)).nameLen > 0 := by
      show ¬ Int32.ofNat i.nameLen > 0
      rw [hname]
      decide
    rw [if_pos hname]
    cases (i.located (f + 24)).nameOff with
    | none => rfl
    | some src => exact congrFun (if_neg hzero) _
  · obtain ⟨htype, htail, -, -⟩ := FidRecord.nameLen_ne_zero hname
    have hpos : (i.located (f + 24)).nameLen > 0 := (ofNat_pos (by omega)).2 (Nat.pos_of_ne_zero hname)
    have hsrc : (i.located (f + 24)).nameOff = some (f + 24 + i.bareLength) := if_pos ⟨htype, htail⟩
    have hn : min (i.located (f + 24)).nameLen.toInt.toNat (readCap - eventSize) = i.nameLen := by
      show min (Int32.ofNat i.nameLen).toInt.toNat (readCap - eventSize) = _
      rw [Int32.toInt_ofNat_of_lt (by omega), Int.toNat_natCast]
      have hsize : eventSize = 16 := rfl
      omega
    rw [hsrc, if_neg hname]
    dsimp only
    rw [hn]
    exact congrFun (if_pos hpos) _

/-- The event a converted record stands for. -/
structure ShowsRecord (i : FidRecord) (wd : Option Int32) (mask : UInt32) (e : Event) : Prop where
  wd : e.wd = wd.getD 0
  mask : e.mask = mask
  len : e.len = UInt32.ofNat i.nameLen
  name : e.name = i.eventName

/-- The current event after a conversion. -/
theorem converted_shows {s : EventStream} {i : FidRecord} {m : Mem} {off : Nat}
    (hoff : off + i.length ≤ readCap) (hret : s.retOff = readCap) {wd : Option Int32} {mask : UInt32}
    (hbuf : s.evbuf = i.converted m off (wd.getD 0).toUInt32 mask)
    (htail : ∀ k (hk : k < i.tail.length), m (off + i.bareLength + k) = i.tail[k]) :
    ShowsRecord i wd mask s.currentEvent := by
  have hcap := readCap_eq
  have hsize := evbufSize_eq
  have hevent : eventSize = 16 := rfl
  have hlen := i.nameLen_le
  have hshort := i.length_lt
  have hbare : i.bareLength = 20 + i.handle.length := rfl
  obtain ⟨hwd, hmask, hlenword⟩ := withEvent_words m (wd.getD 0).toUInt32 mask (UInt32.ofNat i.nameLen)
  have hword : (UInt32.ofNat i.nameLen).toNat = i.nameLen :=
    UInt32.toNat_ofNat_of_lt' (by simp only [UInt32.size]; omega)
  -- the name is written behind the words
  have hkeep : ∀ k, k ≤ 12 → s.evbuf.slice (readCap + k) 4 =
      (withEvent m (wd.getD 0).toUInt32 mask (UInt32.ofNat i.nameLen)).slice (readCap + k) 4 := by
    intro k hk
    rw [hbuf]
    unfold FidRecord.converted
    split
    · rfl
    · exact Mem.slice_write_of_disjoint (.inl (by omega))
  have hrd : s.rdU32 readCap = (wd.getD 0).toUInt32 :=
    EventStream.rdU32_eq (by omega) ((hkeep 0 (by omega)).trans hwd)
  have hrd4 : s.rdU32 (readCap + 4) = mask :=
    EventStream.rdU32_eq (by omega) ((hkeep 4 (by omega)).trans hmask)
  have hrd12 : s.rdU32 (readCap + 12) = UInt32.ofNat i.nameLen :=
    EventStream.rdU32_eq (by omega) ((hkeep 12 (by omega)).trans hlenword)
  unfold EventStream.currentEvent
  dsimp only
  rw [hret, hrd, hrd4, hrd12]
  refine ⟨Int32.toInt32_toUInt32 _, rfl, rfl, ?_⟩
  show (if UInt32.ofNat i.nameLen > 0 then _ else []) = i.eventName
  by_cases hname : i.nameLen = 0
  · rw [hname, if_neg (by decide), FidRecord.eventName_of_nameLen hname]
  · obtain ⟨htype, hne, hnameless, hnameLen⟩ := FidRecord.nameLen_ne_zero hname
    have hpos : UInt32.ofNat i.nameLen > 0 := by
      rw [gt_iff_lt, UInt32.lt_iff_toNat_lt, hword]
      exact Nat.pos_of_ne_zero hname
    have hstart : min (readCap + eventSize) evbufSize = readCap + 16 := by omega
    have hstop : min (readCap + 16 + i.nameLen) evbufSize - (readCap + 16) = i.tail.length := by
      rw [hnameLen] at hlen ⊢
      omega
    have hslice : s.evbuf.slice (readCap + 16) i.tail.length = i.tail := by
      refine Mem.slice_eq_iff.2 fun k hk => ?_
      have hlt : off + i.bareLength + k < readCap := by omega
      rw [hbuf]
      unfold FidRecord.converted
      rw [if_neg hname]
      show withName _ _ _ (readCap + 16 + k) = _
      rw [show withName _ _ _ (readCap + 16 + k) = _ from Mem.write_of_mem (by omega), if_pos hlt,
        withEvent_of_lt _ _ _ _ hlt]
      exact htail k hk
    rw [if_pos hpos, hword, hstart, hstop, hslice]
    unfold FidRecord.eventName FidRecord.tail
    rw [hnameless]
    have hnul : ∀ b ∈ i.name, (b ≠ 0 : Bool) = true := by
      intro b hb
      simpa using fun he : b = 0 => i.noNul (he ▸ hb)
    rw [List.takeWhile_append_of_pos hnul]
    cases i.padding <;> simp [List.replicate_succ]

/-! ## Converting a record -/

variable [Sys σ]

omit [Sys σ] in
/-- A record that is ready ends before the second half of the buffer. -/
theorem ready_room {s : EventStream} {r : FanRecord} {i : FidRecord} {rest : Bytes} {f : Nat}
    (hi : r.info = some i) (h : Ready s f (r.encode ++ rest)) : f + 24 + i.length ≤ readCap := by
  have hfits := h.fits
  have hlen := r.length_encode
  have hmeta : metaLen = 24 := rfl
  rw [show r.infoBytes = i.encode by simp [FanRecord.infoBytes, hi], i.length_encode] at hlen
  rw [List.length_append] at hfits
  omega

omit [Sys σ] in
/-- The cursor moves behind a record by its length. -/
theorem Ready.moved {s : EventStream} {r : FanRecord} {rest : Bytes} {f : Nat}
    (h : Ready s f (r.encode ++ rest)) :
    (s.firstByte + (s.rdU32 f).toInt32).toInt = (f + r.encode.length : Nat) := by
  have hcap := readCap_eq
  have hfits := h.fits
  rw [List.length_append] at hfits
  have hfirst : s.firstByte = Int32.ofNat f := by
    rw [← Int32.toInt_inj, h.first, Int32.toInt_ofNat_of_lt (by omega)]
  have hword : s.rdU32 f = UInt32.ofNat r.encode.length := by
    rw [r.length_encode, ← (metadata_at h.fits h.here).1, UInt32.ofNat_toNat]
  rw [hfirst, hword, UInt32.toInt32_ofNat', ← Int32.ofNat_add, Int32.toInt_ofNat_of_lt (by omega)]

/-- What follows in a conversion once the descriptor of the fid is known. -/
def finishConversion (f : Nat) (i : FidRecord) (s : EventStream) (name : Bytes) (known : Bool)
    (r : Option Int32 × Option CString) : M σ (Option Int32) := do
  (if !known ∧ (← getLib).verbosity ≠ 0 then
    printNewFid s (f + 24) name ((r.2.map CString.bytes).getD [])
  else pure ())
  writeEvent f r.1 (i.located (f + 24))
  return some ((← getStream).rdU32 (f + 20)).toInt32

/-- Adjusting the length of a fid whose name is left out. -/
def adjustLength (info : FidInfo) : M σ Unit :=
  match info.newLen with
  | some newLen => blitEvbuf (info.fidOff + 2) (leBytes 2 newLen.toNat)
  | none => pure ()

/-- The name behind a fid. -/
def nameInBuffer (s : EventStream) (info : FidInfo) : Bytes :=
  match info.nameOff with
  | some o => (s.evbuf.slice o (evbufSize - o)).takeWhile (· ≠ 0)
  | none => []

/-- A conversion looks the fid of the record up. -/
theorem convertFanotifyEvent_run {r : FanRecord} {i : FidRecord} {rest : Bytes} {f : Nat}
    (hi : r.info = some i) (h : Ready w.lib.stream f (r.encode ++ rest))
    (hret : w.lib.stream.retOff = f) :
    ∃ s₁ os s name known, Relation.ReflTransGen QuietCall w.os os ∧
      s₁ = { w.lib.stream with
        evbuf := i.relabel w.lib.stream.evbuf (f + 24)
        firstByte := w.lib.stream.firstByte + (w.lib.stream.rdU32 f).toInt32
        retOff := readCap } ∧
      ∀ fuel, convertFanotifyEvent fuel w = (wdOfFid fuel i.fid >>= finishConversion f i s name known)
        { lib := { w.lib with stream := s₁ }, os } := by
  have hcap := readCap_eq
  have hbufsize := evbufSize_eq
  have hmaxlen : maxEvents * eventSize = readCap := by rw [readCap, Nat.mul_comm]
  obtain ⟨-, -, -, hinfo⟩ := metadata_at h.fits h.here
  have hbytes : r.infoBytes = i.encode := by simp [FanRecord.infoBytes, hi]
  rw [hbytes] at hinfo
  have hfid := FidRecord.fid_at (m := w.lib.stream.evbuf) hinfo
  have hroom : f + 24 + i.length ≤ readCap := ready_room hi h
  have hfidlen := i.length_fid_le
  have hbare := i.length_eq
  have hhdr : fidHdr = 20 := rfl
  have hbl : i.bareLength = fidHdr + i.handle.length := rfl
  let s₀ : EventStream := { w.lib.stream with
    firstByte := w.lib.stream.firstByte + (w.lib.stream.rdU32 f).toInt32 }
  let s : EventStream := { s₀ with evbuf := i.relabel w.lib.stream.evbuf (f + 24) }
  let s₁ : EventStream := { s with retOff := readCap }
  have hlocate : locateFid s₀ f = some (i.located (f + 24)) := locateFid_eq (s := s₀) hi h.fits h.here
  have hnewlen : (i.located (f + 24)).newLen
      = if i.nameless then some (UInt16.ofNat i.bareLength) else none := rfl
  -- the length is adjusted
  have hrelabel : adjustLength (i.located (f + 24)) (w.withStream s₀) = .ok ((), w.withStream s) := by
    unfold adjustLength
    rw [hnewlen]
    by_cases hname : i.nameless = true
    · have hlen : f + 24 + 2 + (leBytes 2 (UInt16.ofNat i.bareLength).toNat).length ≤ evbufSize := by
        rw [length_leBytes]
        omega
      have hs : s = { s₀ with
          evbuf := s₀.evbuf.blit (f + 24 + 2) (leBytes 2 (UInt16.ofNat i.bareLength).toNat) } := by
        rw [UInt16.toNat_ofNat_of_lt' i.bareLength_lt]
        exact congrArg (fun m => { s₀ with evbuf := m }) (if_pos hname)
      rw [if_pos hname, hs]
      exact blitEvbuf_run hlen _
    · have hs : s = s₀ := congrArg (fun m => { s₀ with evbuf := m }) (if_neg hname)
      rw [if_neg hname, hs]
      rfl
  have hget : ∀ k, k < 2 → s.get (f + 24 + 2 + k) = s.evbuf (f + 24 + 2 + k) := fun k hk =>
    if_pos (by omega)
  have hhl : leNat [s.get (f + 24 + 2), s.get (f + 24 + 3)] = i.fid.length := by
    rw [← hfid.2]
    exact congrArg leNat (congrArg₂ (fun a b => [a, b]) (hget 0 (by omega)) (hget 1 (by omega)))
  have hstop : min (f + 24 + i.fid.length) (maxEvents * eventSize) - (f + 24) = i.fid.length := by
    rw [hmaxlen]
    omega
  have hguard : f + 24 ≤ min (f + 24 + i.fid.length) (maxEvents * eventSize) := by
    rw [hmaxlen]
    omega
  let name := nameInBuffer s (i.located (f + 24))
  obtain ⟨os, hos, hprint⟩ : ∃ os, Relation.ReflTransGen QuietCall w.os os ∧
      (if w.lib.verbosity > 1 then
        printFanotifyEvent s (w.lib.stream.rdU32 f) (i.located (f + 24)) name
      else pure () : M σ Unit) (w.withStream s) = .ok ((), { w.withStream s with os }) := by
    split
    · exact ⟨_, .single (.fwrite _ _ _), rfl⟩
    · exact ⟨_, .refl, rfl⟩
  let w₁ : World σ := { lib := { w.lib with stream := s₁ }, os }
  refine ⟨s₁, os, s, name, (w.lib.store.byFid[FidKey.new i.fid]?).isSome, hos, rfl, fun fuel => ?_⟩
  unfold convertFanotifyEvent
  rw [getStream_bind, hret, getStream_bind, modifyStream_bind]
  show (getStream >>= _) (w.withStream s₀) = _
  rw [getStream_bind]
  generalize hinfo₀ : locateFid _ _ = info
  have hlocated : info = some (i.located (f + 24)) := hinfo₀.symm.trans hlocate
  rw [hlocated]
  dsimp only
  refine (Prog.bind_run_ok hrelabel).trans ?_
  rw [getStream_bind, getLib_bind]
  refine (Prog.bind_run_ok hprint).trans ?_
  rw [modifyStream_bind]
  show (Prog.guard (decide (f + 24 ≤ min (f + 24 + leNat [s.get (f + 24 + 2), s.get (f + 24 + 3)])
    (maxEvents * eventSize))) _ >>= _) w₁ = _
  rw [hhl, decide_eq_true hguard]
  let fid := s.evbuf.slice (f + 24) (min (f + 24 + leNat [s.get (f + 24 + 2), s.get (f + 24 + 3)])
    (maxEvents * eventSize) - (f + 24))
  have hfidbytes : fid = i.fid := by
    show s.evbuf.slice _ _ = _
    rw [hhl, hstop]
    exact hfid.1
  show (wdOfFid fuel fid >>=
    finishConversion f i s name (w.lib.store.byFid[FidKey.new fid]?).isSome) w₁ = _
  rw [hfidbytes]

/-- The event is written, and the process that caused it returned. -/
theorem finishConversion_run {f : Nat} {i : FidRecord} (hoff : f + 24 + i.length ≤ readCap)
    (s : EventStream) (name : Bytes) (known : Bool) (wd : Option Int32) (p : Option CString)
    (w : World σ) : ∃ os, Relation.ReflTransGen QuietCall w.os os ∧
      finishConversion f i s name known (wd, p) w = .ok (some (w.lib.stream.rdU32 (f + 20)).toInt32,
        { lib := { w.lib with stream := { w.lib.stream with
            evbuf := i.converted w.lib.stream.evbuf (f + 24) (wd.getD 0).toUInt32
              (w.lib.stream.rdU32 (f + 8)) } }
          os }) := by
  obtain ⟨os, hos, hprint⟩ : ∃ os, Relation.ReflTransGen QuietCall w.os os ∧
      (if (!known) = true ∧ w.lib.verbosity ≠ 0 then
        printNewFid s (f + 24) name ((p.map CString.bytes).getD [])
      else pure () : M σ Unit) w = .ok ((), { w with os }) := by
    split
    · exact ⟨_, .single (.fwrite _ _ _), rfl⟩
    · exact ⟨_, .refl, rfl⟩
  refine ⟨os, hos, ?_⟩
  unfold finishConversion
  rw [getLib_bind, Prog.bind_run_ok hprint, Prog.bind_run_ok (writeEvent_run hoff wd _), getStream_bind]
  have hpid : ∀ s' : EventStream, s'.evbuf = i.converted w.lib.stream.evbuf (f + 24)
      (wd.getD 0).toUInt32 (w.lib.stream.rdU32 (f + 8)) →
      s'.rdU32 (f + 20) = w.lib.stream.rdU32 (f + 20) := by
    intro s' hs'
    have hhdr : fidHdr = 20 := rfl
    have hbare := i.length_eq
    have hbl : i.bareLength = fidHdr + i.handle.length := rfl
    refine EventStream.rdU32_congr fun k hk => ?_
    rw [hs', FidRecord.converted_of_lt _ _ _ _ _ (by omega)]
  rw [hpid _ rfl]
  rfl

/-- The cursor is moved behind a record with a fid, and the fid looked up; the rest follows once its
    descriptor is known. -/
theorem decodeEvent_fid (hm : w.lib.fanotifyMode = true) {r : FanRecord} {i : FidRecord}
    {rest : Bytes} {f : Nat} (hi : r.info = some i)
    (h : Ready w.lib.stream f (r.encode ++ rest)) :
    ∃ s₁ os₁, Relation.ReflTransGen QuietCall w.os os₁ ∧
      (∀ fuel x w', decodeEvent fuel w = .ok (x, w') → ∃ wd p w₂,
        wdOfFid fuel i.fid { lib := { w.lib with stream := s₁ }, os := os₁ } = .ok ((wd, p), w₂)) ∧
      ∀ wd p w₂, w₂.lib.stream = s₁ → ∃ s' os', Relation.ReflTransGen QuietCall w₂.os os' ∧
        Ready s' (f + r.encode.length) rest ∧ ShowsRecord i wd r.mask s'.currentEvent ∧
        ∀ fuel, wdOfFid fuel i.fid { lib := { w.lib with stream := s₁ }, os := os₁ } =
            .ok ((wd, p), w₂) →
          decodeEvent fuel w =
            .ok (some r.pid, { lib := { w₂.lib with stream := s' }, os := os' }) := by
  have hcap := readCap_eq
  have hhdr : fidHdr = 20 := rfl
  have hbare := i.length_eq
  have hbl : i.bareLength = fidHdr + i.handle.length := rfl
  have hmeta : metaLen = 24 := rfl
  have hroom := ready_room hi h
  have hfits := h.fits
  have hlen := r.length_encode
  have hbytes : r.infoBytes = i.encode := by simp [FanRecord.infoBytes, hi]
  obtain ⟨hlength, hmask, hpid, hinfo⟩ := metadata_at h.fits h.here
  rw [List.length_append] at hfits
  let w₀ : World σ := w.withStream { w.lib.stream with retOff := f }
  have hready : Ready w₀.lib.stream f (r.encode ++ rest) := ⟨h.first, h.total, h.fits, h.here⟩
  obtain ⟨s₁, os₁, s, name, known, hos₁, hs₁, hconvert⟩ := convertFanotifyEvent_run hi hready rfl
  have hdecode : ∀ fuel, decodeEvent fuel w = (wdOfFid fuel i.fid >>=
      finishConversion f i s name known) { lib := { w.lib with stream := s₁ }, os := os₁ } := by
    intro fuel
    unfold decodeEvent
    rw [modifyStream_bind, usizeOfI32_eq h.first, getLib_bind]
    refine (congrFun (if_pos hm) _).trans ?_
    exact hconvert fuel
  refine ⟨s₁, os₁, hos₁, fun fuel x w' hrun => ?_, fun wd p w₂ hstream => ?_⟩
  · rw [hdecode] at hrun
    obtain ⟨⟨wd, p⟩, w₂, hwd, -⟩ := Prog.bind_ok hrun
    exact ⟨wd, p, w₂, hwd⟩
  · obtain ⟨os', hos', hfinish⟩ := finishConversion_run hroom s name known wd p w₂
    rw [hstream] at hfinish
    -- outside the length of the info record the first half of the buffer is as it was
    have hsame : ∀ k, k < f + 26 ∨ f + 28 ≤ k → s₁.evbuf k = w.lib.stream.evbuf k := by
      intro k hk
      rw [hs₁]
      exact i.relabel_of_ne _ (by omega)
    have hmask₁ : s₁.rdU32 (f + 8) = r.mask :=
      (EventStream.rdU32_congr fun k hk => hsame _ (by omega)).trans hmask
    have hpid₁ : s₁.rdU32 (f + 20) = r.pid.toUInt32 :=
      (EventStream.rdU32_congr fun k hk => hsame _ (by omega)).trans hpid
    rw [hmask₁, hpid₁, Int32.toInt32_toUInt32] at hfinish
    let s' : EventStream := { s₁ with
      evbuf := i.converted s₁.evbuf (f + 24) (wd.getD 0).toUInt32 r.mask }
    refine ⟨s', os', hos', ?_, ?_, fun fuel hwd => ?_⟩
    · refine ⟨?_, ?_, by omega, ?_⟩
      · show s₁.firstByte.toInt = _
        rw [hs₁]
        exact h.moved
      · have htotal := h.total
        rw [List.length_append] at htotal
        show s₁.bytes + s₁.thisBytes = _
        rw [hs₁]
        show w.lib.stream.bytes + w.lib.stream.thisBytes = _
        omega
      · refine (Mem.slice_congr fun k hk => ?_).trans (Mem.slice_append_eq h.here).2
        show i.converted _ _ _ _ _ = _
        rw [FidRecord.converted_of_lt _ _ _ _ _ (by omega)]
        rw [hbytes, i.length_encode] at hlen
        exact hsame _ (by omega)
    · have hret : s'.retOff = readCap := by rw [show s'.retOff = s₁.retOff from rfl, hs₁]
      refine converted_shows (s := s') hroom hret rfl fun k hk => ?_
      rw [hbytes] at hinfo
      have htail := (info_at hroom hinfo).2 k hk
      have hbuf := evbufSize_eq
      rw [show w.lib.stream.get (f + 24 + i.bareLength + k) = w.lib.stream.evbuf (f + 24 + i.bareLength + k)
        from if_pos (by omega)] at htail
      rw [hsame _ (by omega), htail]
    · rw [hdecode, Prog.bind_run_ok hwd]
      exact hfinish

/-- A record without a fid moves the cursor and fails to decode. -/
theorem decodeEvent_bare (hm : w.lib.fanotifyMode = true) {r : FanRecord} {rest : Bytes} {f : Nat}
    (hi : r.info = none) (h : Ready w.lib.stream f (r.encode ++ rest)) :
    ∃ s' os', Relation.ReflTransGen QuietCall w.os os' ∧
      (∀ fuel, decodeEvent fuel w = .ok (none, { lib := { w.lib with stream := s' }, os := os' })) ∧
      s'.firstByte.toInt = (f + r.encode.length : Nat) ∧ s'.bytes = w.lib.stream.bytes ∧
      s'.thisBytes = w.lib.stream.thisBytes ∧ s'.evbuf = w.lib.stream.evbuf := by
  let s' : EventStream := { w.lib.stream with
    retOff := f, firstByte := w.lib.stream.firstByte + (w.lib.stream.rdU32 f).toInt32 }
  refine ⟨s', Sys.fwrite .stderr (cat [.text "No fid in fanotify event.\n"]) w.os,
    .single (.fwrite _ _ _), fun fuel => ?_, h.moved, rfl, rfl, rfl⟩
  unfold decodeEvent
  rw [modifyStream_bind, usizeOfI32_eq h.first, getLib_bind]
  refine (congrFun (if_pos hm) _).trans ?_
  unfold convertFanotifyEvent
  rw [getStream_bind, getStream_bind, modifyStream_bind]
  show (getStream >>= _) (w.withStream s') = _
  rw [getStream_bind]
  generalize hlocate : locateFid _ _ = info
  have hbare : info = none := hlocate.symm.trans (locateFid_bare (s := s') hi h.fits h.here)
  rw [hbare]
  rfl

end InotifyTools
