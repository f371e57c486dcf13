import InotifyTools.Base.Queue
import InotifyTools.Proofs.Cursors
import InotifyTools.Proofs.Kernel
import InotifyTools.Proofs.Verdict

set_option autoImplicit false

/-! # Decoding the inotify stream

The event buffer is a queue of records: `next_events` takes them one by one, and reads more when there
are none. -/

namespace InotifyTools

variable {σ : Type}

/-! ## Records -/

/-- A record of the stream (`struct inotify_event`), with the bytes of its name field. -/
structure Record where
  wd : Int32
  mask : UInt32
  cookie : UInt32
  name : Bytes

namespace Record

/-- The bytes of a record. -/
def encode (r : Record) : Bytes :=
  leBytes 4 r.wd.toUInt32.toNat ++ (leBytes 4 r.mask.toNat ++ (leBytes 4 r.cookie.toNat ++
    (leBytes 4 r.name.length ++ r.name)))

/-- The event a record stands for: the name ends at the first NUL. -/
def event (r : Record) : Event where
  wd := r.wd
  mask := r.mask
  cookie := r.cookie
  len := UInt32.ofNat r.name.length
  name := r.name.takeWhile (· ≠ 0)

theorem length_encode (r : Record) : r.encode.length = eventSize + r.name.length := by
  simp only [encode, List.length_append, length_leBytes]
  show 4 + (4 + (4 + (4 + r.name.length))) = 16 + r.name.length
  omega

end Record

/-- The bytes of several records. -/
def encodeAll (rs : List Record) : Bytes := rs.flatMap Record.encode

/-! ## Reading a record back -/

/-- The words and the name of a record that stands at `f`. -/
theorem record_at {s : EventStream} {f : Nat} {r : Record} {rest : Bytes}
    (hfits : f + (r.encode ++ rest).length ≤ readCap)
    (here : s.evbuf.slice f (r.encode ++ rest).length = r.encode ++ rest) :
    s.rdU32 f = r.wd.toUInt32 ∧ s.rdU32 (f + 4) = r.mask ∧ s.rdU32 (f + 8) = r.cookie ∧
      s.rdU32 (f + 12) = UInt32.ofNat r.name.length ∧
      s.evbuf.slice (f + 16) r.name.length = r.name := by
  have hsize : eventSize = 16 := rfl
  have hcap := readCap_eq
  have hbuf := evbufSize_eq
  have hlen := r.length_encode
  rw [List.length_append] at hfits
  have hr := (Mem.slice_append_eq here).1
  rw [Record.encode] at hr
  obtain ⟨hwd, hr⟩ := Mem.slice_append_eq hr
  obtain ⟨hmask, hr⟩ := Mem.slice_append_eq hr
  obtain ⟨hcookie, hr⟩ := Mem.slice_append_eq hr
  obtain ⟨hlenword, hname⟩ := Mem.slice_append_eq hr
  simp only [length_leBytes] at hwd hmask hcookie hlenword hname
  have hword : (UInt32.ofNat r.name.length).toNat = r.name.length :=
    UInt32.toNat_ofNat_of_lt' (by simp only [UInt32.size]; omega)
  refine ⟨?_, ?_, ?_, ?_, hname⟩
  · exact EventStream.rdU32_eq (by omega) hwd
  · exact EventStream.rdU32_eq (by omega) hmask
  · exact EventStream.rdU32_eq (by omega) hcookie
  · exact EventStream.rdU32_eq (by omega) (by rw [hword]; exact hlenword)

/-- The current event is the record that stands at `ret_off`. -/
theorem currentEvent_eq {s : EventStream} {r : Record} {rest : Bytes}
    (hfits : s.retOff + (r.encode ++ rest).length ≤ readCap)
    (here : s.evbuf.slice s.retOff (r.encode ++ rest).length = r.encode ++ rest) :
    s.currentEvent = r.event := by
  obtain ⟨hwd, hmask, hcookie, hlen, hname⟩ := record_at hfits here
  have hsize : eventSize = 16 := rfl
  have hcap := readCap_eq
  have hbuf := evbufSize_eq
  have hlength := r.length_encode
  rw [List.length_append] at hfits
  have hword : (UInt32.ofNat r.name.length).toNat = r.name.length :=
    UInt32.toNat_ofNat_of_lt' (by simp only [UInt32.size]; omega)
  have hstart : min (s.retOff + eventSize) evbufSize = s.retOff + 16 := by omega
  have hstop : min (s.retOff + 16 + r.name.length) evbufSize - (s.retOff + 16) = r.name.length := by
    omega
  unfold EventStream.currentEvent Record.event
  dsimp only
  rw [hwd, hmask, hcookie, hlen, hword, hstart, hstop, hname, Int32.toInt32_toUInt32]
  congr 1
  split
  · rfl
  · next hzero =>
      have hempty : r.name = [] := by
        refine List.eq_nil_of_length_eq_zero ?_
        rw [gt_iff_lt, UInt32.lt_iff_toNat_lt, hword] at hzero
        exact Nat.eq_zero_of_not_pos hzero
      rw [hempty]
      rfl

/-! ## One record -/

variable [Sys σ] {w : World σ}

/-- The cursor moves behind the record it stands at. -/
theorem decodeEvent_run (hm : w.lib.fanotifyMode = false) {f : Nat} {r : Record} {rest : Bytes}
    (h : Ready w.lib.stream f (r.encode ++ rest)) :
    ∃ s', (∀ fuel, decodeEvent fuel w = .ok (some 0, w.withStream s')) ∧
      Ready s' (f + r.encode.length) rest ∧ s'.currentEvent = r.event := by
  have hsize : eventSize = 16 := rfl
  have hcap := readCap_eq
  have hlength := r.length_encode
  have hfits := h.fits
  rw [List.length_append] at hfits
  obtain ⟨-, -, -, hlen, -⟩ := record_at h.fits h.here
  have hfirst : w.lib.stream.firstByte = Int32.ofNat f := by
    rw [← Int32.toInt_inj, h.first, Int32.toInt_ofNat_of_lt (by omega)]
  let s' : EventStream := { w.lib.stream with
    retOff := f, firstByte := Int32.ofNat (f + (16 + r.name.length)) }
  refine ⟨s', fun fuel => ?_, ?_, currentEvent_eq h.fits h.here⟩
  · unfold decodeEvent
    rw [modifyStream_bind, usizeOfI32_eq h.first, getLib_bind]
    show (if w.lib.fanotifyMode = true then _ else _ : M σ (Option Int32)) _ = _
    rw [hm]
    show Except.ok (some 0, w.withStream { w.lib.stream with
      retOff := f
      firstByte := w.lib.stream.firstByte +
        (Int32.ofNat eventSize + (w.lib.stream.rdU32 (f + 12)).toInt32) }) = _
    rw [hlen, hfirst, UInt32.toInt32_ofNat', ← Int32.ofNat_add, ← Int32.ofNat_add]
    rfl
  · refine ⟨?_, ?_, by omega, ?_⟩
    · show (Int32.ofNat (f + (16 + r.name.length))).toInt = _
      rw [Int32.toInt_ofNat_of_lt (by omega)]
      omega
    · have htotal := h.total
      rw [List.length_append] at htotal
      show w.lib.stream.bytes + w.lib.stream.thisBytes = _
      omega
    · exact (Mem.slice_append_eq h.here).2

/-- The handle holds the records `q`, read and not yet decoded. -/
def Holds (s : EventStream) (q : List Record) : Prop :=
  Buffered s (encodeAll q) ∧ (q = [] → s.firstByte = 0)

omit [Sys σ] in
/-- The current event depends on the buffer and on `ret_off` alone. -/
theorem currentEvent_congr {s s' : EventStream} (hbuf : s'.evbuf = s.evbuf)
    (hret : s'.retOff = s.retOff) : s'.currentEvent = s.currentEvent := by
  unfold EventStream.currentEvent EventStream.rdU32 EventStream.get
  rw [hbuf, hret]

/-- What follows in a turn of the loop once there is something to decode. -/
def decodeAndDeliver (fuel : Nat) : M σ Round := do
  match ← decodeEvent fuel with
  | none => return .fail
  | some eventPid => do
      advance
      deliver eventPid

/-- The record at the cursor is decoded and accounted for. -/
theorem decodeAndDeliver_run (hm : w.lib.fanotifyMode = false) {f : Nat} {r : Record}
    {q : List Record} (h : Ready w.lib.stream f (encodeAll (r :: q))) :
    ∃ s', Holds s' q ∧ s'.currentEvent = r.event ∧
      ∀ fuel, decodeAndDeliver fuel w = deliver 0 (w.withStream s') := by
  obtain ⟨s₁, hdecode, hready, hevent⟩ := decodeEvent_run hm h
  have hlength := r.length_encode
  have hsize : eventSize = 16 := rfl
  obtain ⟨s', hadvance, hbuffered, hdrained, hbuf, hret⟩ :=
    advance_run (w := w.withStream s₁) hready (by omega)
  refine ⟨s', ⟨hbuffered, ?_⟩, (currentEvent_congr hbuf hret).trans hevent,
    fun fuel => ?_⟩
  · rintro rfl
    exact hdrained rfl
  · unfold decodeAndDeliver
    rw [Prog.bind_run_ok (hdecode fuel)]
    show (advance >>= fun _ => deliver 0) (w.withStream s₁) = _
    rw [Prog.bind_run_ok hadvance]
    rfl

/-! ## Delivering -/

/-- Whether the filters make `next_events` drop an event. -/
def Inotifytools.drops (l : Inotifytools) (ev : Event) : Bool :=
  l.rejects ev && !filterExempt l ev.mask

omit [Sys σ] in
/-- Counting an event changes no name. -/
theorem recordStats_run (h : Inotify w) (wd : Int32) (mask : UInt32) :
    ∃ s t, recordStats wd mask w =
        .ok ((), { w with lib := { w.lib with store := s, totals := t } }) ∧
      s.WellIndexed ∧ s.Plain ∧ ∀ wd, s.nameOf wd = w.lib.store.nameOf wd := by
  have hs := h.wellIndexed
  unfold recordStats
  rw [Prog.bind_run_ok (rfl : watchFromWd wd w = .ok (w.lib.store.byWd[wd]?, w))]
  cases hid : w.lib.store.byWd[wd]? with
  | none => exact ⟨_, _, rfl, hs, h.plain, fun _ => rfl⟩
  | some id =>
      obtain ⟨v, hv, -, -⟩ := hs.found_wd hid
      refine ⟨_, _, rfl, ?_⟩
      rw [hv]
      dsimp only
      exact ⟨hs.setStats hv _, h.plain.update { v with stats := v.stats.record mask } hv rfl rfl
        fun _ hi => hi, Store.nameOf_setStats hv _⟩

omit [Sys σ] in
/-- Whether an event is dropped depends on the filters and on the name of its watch. -/
theorem drops_congr {l l' : Inotifytools} (hre : l'.regex = l.regex)
    (hinv : l'.invertRegexp = l.invertRegexp) (hrec : l'.recursiveWatch = l.recursiveWatch)
    (hname : ∀ wd, l'.store.nameOf wd = l.store.nameOf wd) (ev : Event) :
    l'.drops ev = l.drops ev := by
  unfold Inotifytools.drops Inotifytools.rejects filterExempt Store.eventPath
  rw [hre, hinv, hrec, hname]

/-- `w` is as `w₀` was, as far as `next_events` asks, but for what it has read. -/
structure Continues (w₀ w : World σ) : Prop where
  inotify : Inotify w
  fd : w.lib.fd = w₀.lib.fd
  drops : ∀ ev, w.lib.drops ev = w₀.lib.drops ev

/-- An event is delivered, and counted, unless it is dropped. -/
theorem deliver_run {w₀ : World σ} (h : Continues w₀ w) :
    ∃ w', deliver 0 w =
        .ok (if w₀.lib.drops w.lib.stream.currentEvent then .skip else .event, w') ∧
      Continues w₀ w' ∧ w'.lib.stream = w.lib.stream ∧ w'.os = w.os := by
  have hpid : ¬ (w.lib.selfPid ≠ 0 ∧ w.lib.selfPid = 0) := fun hp => hp.1 hp.2
  have hfilter : filterEvent w = .ok (w₀.lib.drops w.lib.stream.currentEvent, w) := by
    rw [filterEvent_run h.inotify, ← h.drops]
    rfl
  unfold deliver
  rw [getLib_bind, if_neg hpid, Prog.bind_run_ok hfilter]
  cases w₀.lib.drops w.lib.stream.currentEvent with
  | true => exact ⟨w, rfl, h, rfl, rfl⟩
  | false =>
      rw [if_neg (by decide), if_neg (by decide), getLib_bind]
      by_cases hstats : w.lib.collectStats = true
      · obtain ⟨s, t, hrun, hs, hp, hname⟩ := recordStats_run h.inotify
          w.lib.stream.currentEvent.wd w.lib.stream.currentEvent.mask
        let w' : World σ := { w with lib := { w.lib with store := s, totals := t } }
        have hdrops : ∀ ev, w'.lib.drops ev = w.lib.drops ev := drops_congr rfl rfl rfl hname
        rw [if_pos hstats, Prog.bind_run_ok hrun]
        exact ⟨w', rfl, ⟨⟨h.inotify.initialized, h.inotify.mode, hs, hp⟩, h.fd, fun ev =>
          (hdrops ev).trans (h.drops ev)⟩, rfl, rfl⟩
      · rw [if_neg hstats]
        exact ⟨w, rfl, h, rfl, rfl⟩

/-! ## One turn of the loop -/

/-- A call of `next_events`, asking for a number of events in bounds. -/
structure Call where
  timeout : Int
  numEvents : Int32
  pos : 1 ≤ numEvents
  le : numEvents ≤ Int32.ofNat maxEvents

/-- One event can be asked for. -/
theorem Call.one_pos : (1 : Int32) ≤ 1 := Int32.le_refl 1

theorem Call.one_le : (1 : Int32) ≤ Int32.ofNat maxEvents := by decide

/-- A call for one event, without a timeout. -/
def Desk.call : Call := { timeout := -1, numEvents := 1, pos := Call.one_pos, le := Call.one_le }

/-- What the poll of a call is answered: records, or nothing. -/
def AnsweredWith (fd : Int32) (c : Call) (os : σ) (rs : Option (List Record)) (os' : σ) : Prop :=
  Polled fd c.timeout c.numEvents readCap os (rs.map encodeAll) os'

/-- The handle holds the records `q`, or reads them when the next of the calls `cs` polls; then the
    operating system is in the state `os`. -/
def Serves (w : World σ) (cs : List Call) (q : List Record) (os : σ) : Prop :=
  Holds w.lib.stream q ∧ w.os = os ∨
    Holds w.lib.stream [] ∧ ∃ c cs', cs = c :: cs' ∧ AnsweredWith w.lib.fd c w.os (some q) os

/-- A read is never empty, so an empty queue is held. -/
theorem Serves.held {cs : List Call} {os : σ} (h : Serves w cs [] os) :
    Holds w.lib.stream [] ∧ w.os = os := by
  refine h.resolve_right ?_
  rintro ⟨-, c, cs', -, hanswer⟩
  cases hanswer with
  | data _ _ _ hne => exact hne rfl

omit [Sys σ] in
/-- The first record buffered is buffered as a whole. -/
theorem buffered_whole {s : EventStream} {r : Record} {q : List Record}
    (h : Buffered s (encodeAll (r :: q))) (f : Nat) (hf : s.firstByte.toInt = f) :
    eventSize + (s.rdU32 (f + 12)).toNat ≤ (encodeAll (r :: q)).length := by
  have hlength : (encodeAll (r :: q)).length = r.encode.length + (encodeAll q).length :=
    List.length_append
  have hencode := r.length_encode
  rcases h with ⟨-, hempty⟩ | ⟨f', -, hready⟩
  · rw [hempty, hencode] at hlength
    simp [eventSize] at hlength
    omega
  · have hff : f = f' := by
      have hfirst : s.firstByte.toInt = f' := hready.first
      omega
    subst hff
    obtain ⟨-, -, -, hlen, -⟩ := record_at (r := r) hready.fits hready.here
    have hword : (UInt32.ofNat r.name.length).toNat ≤ r.name.length := by
      rw [UInt32.toNat_ofNat']
      exact Nat.mod_le _ _
    rw [show s.rdU32 (f + 12) = _ from hlen]
    omega

/-- A turn of the loop decodes what is buffered. -/
theorem eventRound_buffered {bs : Bytes} (h : Buffered w.lib.stream bs)
    (hlen : eventSize ≤ bs.length)
    (hwhole : w.lib.fanotifyMode = true ∨ ∀ f, w.lib.stream.firstByte.toInt = (f : Nat) →
      eventSize + (w.lib.stream.rdU32 (f + 12)).toNat ≤ bs.length) :
    ∃ s' f, Ready s' f bs ∧ 0 < f ∧ s'.thisBytes = 0 ∧ ∀ fuel timeout n,
      eventRound fuel timeout n w = decodeAndDeliver fuel
        { w with lib := { w.lib with error := 0, stream := s' } } := by
  let w₁ : World σ := { w with lib := { w.lib with error := 0 } }
  obtain ⟨s', f, hrun, hready, hf, hthis⟩ := bufferedEvent_run_ready (w := w₁) h hlen hwhole
  refine ⟨s', f, hready, hf, hthis, fun fuel timeout n => ?_⟩
  show (bufferedEvent >>= _) w₁ = _
  rw [Prog.bind_run_ok hrun]
  rfl

/-- A turn of the loop decodes what it reads when nothing is buffered. -/
theorem eventRound_read (h : Buffered w.lib.stream []) {timeout : Int} {n : Int32} {bs : Bytes}
    {os : σ} (hread : Polled w.lib.fd timeout n (readCap - w.lib.stream.firstByte.toInt.toNat) w.os
      (some bs) os) :
    ∃ fuel₀ s' f, Ready s' f bs ∧ s'.bytes = (f : Nat) ∧ ∀ fuel, fuel₀ ≤ fuel →
      eventRound fuel timeout n w = decodeAndDeliver fuel
        { lib := { w.lib with error := 0, stream := s' }, os } := by
  let w₁ : World σ := { w with lib := { w.lib with error := 0 } }
  obtain ⟨s₁, f, hrun, hsame, hfirst, hbytes, hf⟩ := bufferedEvent_run_empty (w := w₁) h
  have hroom : w.lib.stream.firstByte.toInt.toNat = f := by
    rw [← hsame, hfirst, Int.toNat_natCast]
  rw [hroom] at hread
  obtain ⟨fuel₀, s', hrun', hready, hbytes'⟩ := readEvents_run_data (w := w₁.withStream s₁) hfirst
    hbytes hf hread
  refine ⟨fuel₀, s', f, hready, hbytes', fun fuel hfuel => ?_⟩
  show (bufferedEvent >>= _) w₁ = _
  rw [Prog.bind_run_ok hrun]
  show (readEvents fuel timeout n >>= _) _ = _
  rw [Prog.bind_run_ok (hrun' fuel hfuel)]
  rfl

/-- The first record is made ready. -/
theorem ready_run {c : Call} {cs : List Call} {r : Record} {q : List Record} {os : σ}
    (h : Serves w (c :: cs) (r :: q) os) :
    ∃ fuel₀ s' f, Ready s' f (encodeAll (r :: q)) ∧ ∀ fuel, fuel₀ ≤ fuel →
      eventRound fuel c.timeout c.numEvents w = decodeAndDeliver fuel
        { lib := { w.lib with error := 0, stream := s' }, os } := by
  have hlength := r.length_encode
  rcases h with ⟨⟨hbuffered, -⟩, rfl⟩ | ⟨⟨hbuffered, hzero⟩, c', cs', hcs, hanswer⟩
  · have hlen : eventSize ≤ (encodeAll (r :: q)).length := by
      show eventSize ≤ (r.encode ++ encodeAll q).length
      rw [List.length_append]
      omega
    obtain ⟨s', f, hready, -, -, hround⟩ := eventRound_buffered hbuffered hlen
      (.inr (buffered_whole hbuffered))
    exact ⟨0, s', f, hready, fun fuel _ => hround fuel _ _⟩
  · cases hcs
    have hpolled : Polled w.lib.fd c.timeout c.numEvents
        (readCap - w.lib.stream.firstByte.toInt.toNat) w.os (some (encodeAll (r :: q))) os := by
      rw [hzero rfl]
      exact hanswer
    obtain ⟨fuel₀, s', f, hready, -, hround⟩ := eventRound_read hbuffered hpolled
    exact ⟨fuel₀, s', f, hready, hround⟩

/-- A turn of the loop takes the first record, and delivers or drops it. -/
theorem eventRound_run_record {w₀ : World σ} (h : Continues w₀ w) {c : Call} {cs : List Call}
    {r : Record} {q : List Record} {os : σ} (hserves : Serves w (c :: cs) (r :: q) os) :
    ∃ fuel₀ w', (∀ fuel, fuel₀ ≤ fuel → eventRound fuel c.timeout c.numEvents w =
        .ok (if w₀.lib.drops r.event then .skip else .event, w')) ∧
      Continues w₀ w' ∧ Holds w'.lib.stream q ∧ w'.os = os ∧
      w'.lib.stream.currentEvent = r.event := by
  obtain ⟨fuel₀, s₁, f, hready, hround⟩ := ready_run hserves
  let w₁ : World σ := { lib := { w.lib with error := 0, stream := s₁ }, os }
  obtain ⟨s₂, hholds, hevent, hdecode⟩ := decodeAndDeliver_run (w := w₁) h.inotify.mode hready
  have hw₂ : Continues w₀ (w₁.withStream s₂) :=
    ⟨⟨h.inotify.initialized, h.inotify.mode, h.inotify.wellIndexed, h.inotify.plain⟩, h.fd,
      h.drops⟩
  obtain ⟨w', hdeliver, hw', hstream, hos⟩ := deliver_run hw₂
  refine ⟨fuel₀, w', fun fuel hfuel => ?_, hw', ?_, hos, ?_⟩
  · rw [hround fuel hfuel, hdecode, hdeliver]
    show Except.ok (if w₀.lib.drops s₂.currentEvent = true then Round.skip else Round.event, w') = _
    rw [hevent]
  · rw [hstream]
    exact hholds
  · rw [hstream]
    exact hevent

/-- A turn of the loop ends empty-handed when nothing is held and nothing can be read. -/
theorem eventRound_run_nothing {w₀ : World σ} (h : Continues w₀ w) {c : Call} {os : σ}
    (hholds : Holds w.lib.stream []) (hanswer : AnsweredWith w.lib.fd c w.os none os) :
    ∃ w', (∀ fuel, eventRound fuel c.timeout c.numEvents w = .ok (.fail, w')) ∧
      Continues w₀ w' ∧ Holds w'.lib.stream [] ∧ w'.os = os := by
  let w₁ : World σ := { w with lib := { w.lib with error := 0 } }
  obtain ⟨s', f, hrun, hsame, -, -, -⟩ := bufferedEvent_run_empty (w := w₁) hholds.1
  have hzero : s'.firstByte = 0 := hsame.trans (hholds.2 rfl)
  cases hanswer with
  | nothing hpoll =>
      refine ⟨{ w₁.withStream s' with os := _ }, fun fuel => ?_, ?_, ?_, rfl⟩
      · have hread := readEvents_run_timeout (w := w₁.withStream s') hpoll fuel c.numEvents
        show (bufferedEvent >>= _) w₁ = _
        rw [Prog.bind_run_ok hrun]
        show (readEvents fuel c.timeout c.numEvents >>= _) _ = _
        rw [Prog.bind_run_ok hread]
        rfl
      · exact ⟨⟨h.inotify.initialized, h.inotify.mode, h.inotify.wellIndexed, h.inotify.plain⟩, h.fd,
          h.drops⟩
      · exact ⟨.inl ⟨hzero, rfl⟩, fun _ => hzero⟩

/-! ## Calls of `next_events` -/

/-- A call in bounds goes straight to the loop. -/
theorem nextEvents_eq (h : w.lib.initialized = true) (c : Call) (fuel : Nat) :
    nextEvents fuel c.timeout c.numEvents w =
      (do
        if ← nextEventsLoop c.timeout c.numEvents fuel then
          return some (← getStream).currentEvent
        else
          return none : M σ (Option Event)) w := by
  have hpos : ¬ c.numEvents < 1 := Int32.not_lt.2 c.pos
  unfold nextEvents nextEventsRaw
  rw [Prog.bind_run, Prog.bind_run_ok (assertInit_run h)]
  unfold niceassert
  rw [decide_eq_true c.le, if_pos rfl, Prog.pure_bind, if_neg hpos]
  rfl

/-- A turn that drops an event: the call goes on. -/
theorem nextEvents_skip {w₁ : World σ} (h : w.lib.initialized = true)
    (h₁ : w₁.lib.initialized = true) {c : Call} {fuel : Nat}
    (hround : eventRound fuel c.timeout c.numEvents w = .ok (.skip, w₁)) :
    nextEvents (fuel + 1) c.timeout c.numEvents w = nextEvents fuel c.timeout c.numEvents w₁ := by
  have hloop : nextEventsLoop c.timeout c.numEvents (fuel + 1) w
      = nextEventsLoop c.timeout c.numEvents fuel w₁ := Prog.bind_run_ok hround
  rw [nextEvents_eq h, nextEvents_eq h₁, Prog.bind_run, Prog.bind_run, hloop]

/-- A turn that delivers an event: the call returns it. -/
theorem nextEvents_event {w₁ : World σ} (h : w.lib.initialized = true) {c : Call} {fuel : Nat}
    (hround : eventRound fuel c.timeout c.numEvents w = .ok (.event, w₁)) :
    nextEvents (fuel + 1) c.timeout c.numEvents w
      = .ok (some w₁.lib.stream.currentEvent, w₁) := by
  have hloop : nextEventsLoop c.timeout c.numEvents (fuel + 1) w = .ok (true, w₁) :=
    Prog.bind_run_ok hround
  rw [nextEvents_eq h, Prog.bind_run_ok hloop]
  rfl

/-- A turn that ends empty-handed: so does the call. -/
theorem nextEvents_fail {w₁ : World σ} (h : w.lib.initialized = true) {c : Call} {fuel : Nat}
    (hround : eventRound fuel c.timeout c.numEvents w = .ok (.fail, w₁)) :
    nextEvents (fuel + 1) c.timeout c.numEvents w = .ok (none, w₁) := by
  have hloop : nextEventsLoop c.timeout c.numEvents (fuel + 1) w = .ok (false, w₁) :=
    Prog.bind_run_ok hround
  rw [nextEvents_eq h, Prog.bind_run_ok hloop]
  rfl

/-- With whatever fuel from some amount on, the call returns `e`. -/
def Returns (w : World σ) (c : Call) (e : Option Event) (w' : World σ) : Prop :=
  ∃ fuel₀, ∀ fuel, fuel₀ ≤ fuel → nextEvents fuel c.timeout c.numEvents w = .ok (e, w')

theorem Returns.of_succ {w' : World σ} {c : Call} {e : Option Event} (fuel₀ : Nat)
    (h : ∀ fuel, fuel₀ ≤ fuel →
      nextEvents (fuel + 1) c.timeout c.numEvents w = .ok (e, w')) : Returns w c e w' := by
  refine ⟨fuel₀ + 1, fun fuel hfuel => ?_⟩
  obtain ⟨fuel, rfl⟩ := Nat.exists_eq_add_of_le' (Nat.le_of_add_left_le hfuel)
  exact h fuel (by omega)

/-- The calls return, one after the other. -/
inductive Calls : World σ → List Call → List (Option Event) → World σ → Prop
  | nil (w : World σ) : Calls w [] [] w
  | cons {w w₁ w' : World σ} {c : Call} {cs : List Call} {e : Option Event}
      {es : List (Option Event)} (h : Returns w c e w₁) (hs : Calls w₁ cs es w') :
      Calls w (c :: cs) (e :: es) w'

theorem Calls.skip {w₁ w' : World σ} (h : w.lib.initialized = true)
    (h₁ : w₁.lib.initialized = true) {c : Call} {cs : List Call}
    {es : List (Option Event)} (fuel₀ : Nat) (hround : ∀ fuel, fuel₀ ≤ fuel →
      eventRound fuel c.timeout c.numEvents w = .ok (.skip, w₁)) (hc : Calls w₁ (c :: cs) es w') :
    Calls w (c :: cs) es w' := by
  cases hc with
  | cons hreturns hs =>
      obtain ⟨fuel₁, hreturns⟩ := hreturns
      refine .cons (.of_succ (max fuel₀ fuel₁) fun fuel hfuel => ?_) hs
      rw [nextEvents_skip h h₁ (hround fuel (by omega)), hreturns fuel (by omega)]

/-- **`next_events` serves the queue of records.** -/
theorem calls_of_served {w₀ w : World σ} (h : Continues w₀ w) {q q' : List Record} {os os' : σ}
    {cs : List Call} {ts : List (Option (List Record))} {es : List (Option Record)}
    (hserves : Serves w cs q os)
    (hk : Queue.Served (fun r : Record => !w₀.lib.drops r.event) (AnsweredWith w₀.lib.fd) q os cs ts
      es q' os') :
    ∃ w', Calls w cs (es.map (Option.map Record.event)) w' ∧ Continues w₀ w' ∧ w'.os = os' := by
  induction hk generalizing w with
  | idle q os =>
      rcases hserves with ⟨-, hos⟩ | ⟨-, c, cs, hcs, -⟩
      · exact ⟨w, .nil w, h, hos⟩
      · cases hcs
  | skip hx _ ih =>
      obtain ⟨fuel₀, w₁, hround, hw₁, hholds, hos, -⟩ := eventRound_run_record h hserves
      obtain ⟨w', hcalls, hw', hos'⟩ := ih hw₁ (.inl ⟨hholds, hos⟩)
      rw [if_pos (by simpa using hx)] at hround
      exact ⟨w', hcalls.skip h.inotify.initialized hw₁.inotify.initialized fuel₀ hround, hw', hos'⟩
  | serve hx _ ih =>
      obtain ⟨fuel₀, w₁, hround, hw₁, hholds, hos, hevent⟩ := eventRound_run_record h hserves
      obtain ⟨w', hcalls, hw', hos'⟩ := ih hw₁ (.inl ⟨hholds, hos⟩)
      rw [if_neg (by simpa using hx)] at hround
      refine ⟨w', .cons (.of_succ fuel₀ fun fuel hfuel => ?_) hcalls, hw', hos'⟩
      rw [nextEvents_event h.inotify.initialized (hround fuel hfuel), hevent]
      rfl
  | nothing ha _ ih =>
      obtain ⟨hholds, rfl⟩ := hserves.held
      rw [← h.fd] at ha
      obtain ⟨w₁, hround, hw₁, hholds₁, hos₁⟩ := eventRound_run_nothing h hholds ha
      obtain ⟨w', hcalls, hw', hos'⟩ := ih hw₁ (.inl ⟨hholds₁, hos₁⟩)
      exact ⟨w', .cons (.of_succ 0 fun fuel _ => nextEvents_fail h.inotify.initialized (hround fuel)) hcalls,
        hw', hos'⟩
  | fill ha _ ih =>
      obtain ⟨hholds, rfl⟩ := hserves.held
      rw [← h.fd] at ha
      exact ih h (.inr ⟨hholds, _, _, rfl, ha⟩)

/-- **Nothing is lost, repeated or reordered.** With inotify, on a handle that holds no undecoded
    bytes (as one that has not read yet): however the reads split the records and whenever polls time
    out, the calls of `next_events` return exactly the records the filters let through, in order, up
    to those still held. -/
theorem events_in_order {env : σ → σ → Prop} (hz : ¬ AnsweredZero σ) (h : Reachable env w)
    (hi : w.lib.initialized = true) (hm : w.lib.fanotifyMode = false)
    (hfirst : w.lib.stream.firstByte = 0) {cs : List Call} {ts : List (Option (List Record))}
    {es : List (Option Record)} {q : List Record} {os : σ}
    (hk : Queue.Served (fun r : Record => !w.lib.drops r.event) (AnsweredWith w.lib.fd) [] w.os cs ts
      es q os) :
    ∃ w', Calls w cs (es.map (Option.map Record.event)) w' ∧
      (ts.filterMap id).flatten.filter (fun r => !w.lib.drops r.event)
        = es.filterMap id ++ q.filter (fun r => !w.lib.drops r.event) ∧
      (es.getLast? = some none → q = []) ∧ es.length = cs.length := by
  have hw := h.inotify hz hi hm
  have hcontinues : Continues w w := ⟨hw, rfl, fun _ => rfl⟩
  have hholds : Holds w.lib.stream [] := ⟨.inl ⟨hfirst, rfl⟩, fun _ => hfirst⟩
  obtain ⟨w', hcalls, -, -⟩ := calls_of_served hcontinues (.inl ⟨hholds, rfl⟩) hk
  exact ⟨w', hcalls, hk.fifo, hk.drained, hk.length_eq⟩

/-- Initialising reads nothing. -/
theorem init_run_firstByte {w w' : World σ} {watchFilesystem : Bool} {verbose : Int32}
    (hi : w.lib.initialized = false) (hfirst : w.lib.stream.firstByte = 0)
    (h : InotifyTools.init false watchFilesystem verbose w = .ok (true, w')) :
    w'.lib.stream.firstByte = 0 := by
  obtain ⟨pid, mark, os₁, fd, os', -, -, -, hrun⟩ := init_run hi false watchFilesystem verbose
  rw [h] at hrun
  split at hrun
  · cases hrun
  · cases hrun
    exact hfirst

theorem init_firstByte {os : σ} {watchFilesystem : Bool} {verbose : Int32} {w' : World σ}
    (h : InotifyTools.init false watchFilesystem verbose { lib := Inotifytools.new, os }
      = .ok (true, w')) : w'.lib.stream.firstByte = 0 :=
  init_run_firstByte rfl rfl h

/-- Three records in two reads, the second of them dropped by the filter. -/
theorem events_in_order_desk :
    let r₁ : Record := { wd := 1, mask := 2, cookie := 0, name := ascii "a" ++ [0, 0] }
    let r₂ : Record := { wd := 1, mask := 2, cookie := 0, name := ascii "tmp" ++ [0] }
    let r₃ : Record := { wd := 1, mask := 0x40, cookie := 7, name := [] }
    let w : World Desk := World.after 9
      { lib := Inotifytools.new
        os := { dirs := [ascii "d"], chunks := [encodeAll [r₁, r₂], encodeAll [r₃]] } }
      [.init false false 0, .watchFiles [ascii "d"] 2, .ignoreEventsByRegex (some (ascii "tmp")) 0 0]
    let c : Call := { timeout := -1, numEvents := 1, pos := by decide, le := by decide }
    ∃ w', Calls w [c, c, c]
      [some { wd := 1, mask := 2, cookie := 0, len := 3, name := ascii "a" },
        some { wd := 1, mask := 0x40, cookie := 7, len := 0, name := [] }, none] w' := by
  intro r₁ r₂ r₃ w c
  let polled (d : Desk) : Desk := (Sys.fionread w.lib.fd (Sys.ppoll w.lib.fd none d).2).2
  let read (d : Desk) : Desk := (Sys.read w.lib.fd readCap (polled d)).2
  have hfirst : AnsweredWith w.lib.fd c w.os (some [r₁, r₂]) (read w.os) :=
    .data (by decide +kernel) (.now _ (by decide +kernel) (by decide +kernel)) (by decide +kernel)
      (by decide +kernel) (by decide +kernel)
  have hsecond : AnsweredWith w.lib.fd c (read w.os) (some [r₃]) (read (read w.os)) :=
    .data (by decide +kernel) (.now _ (by decide +kernel) (by decide +kernel)) (by decide +kernel)
      (by decide +kernel) (by decide +kernel)
  have hnothing : AnsweredWith w.lib.fd c (read (read w.os)) none _ :=
    .nothing _ (by decide +kernel)
  have hserved : Queue.Served (fun r : Record => !w.lib.drops r.event) (AnsweredWith w.lib.fd) []
      w.os [c, c, c] [some [r₁, r₂], some [r₃], none] [some r₁, some r₃, none] [] _ :=
    .fill hfirst (.serve (by decide +kernel) (.skip (by decide +kernel)
      (.fill hsecond (.serve (by decide +kernel) (.nothing hnothing (.idle _ _))))))
  obtain ⟨w', hcalls, -⟩ := events_in_order Desk.kernelWatches.not_answeredZero
    ⟨_, World.run_after Desk.Forgets 9 _ _⟩ (by decide +kernel) (by decide +kernel)
    (by decide +kernel) hserved
  exact ⟨w', hcalls⟩

end InotifyTools
