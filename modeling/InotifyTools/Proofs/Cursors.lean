import InotifyTools.Implementation.Reading
import InotifyTools.Proofs.Runs

set_option autoImplicit false

/-! # The cursors of the event buffer

`Buffered s bs`: the bytes `bs` are read and not yet decoded. A turn of the loop first makes the next
bytes `Ready` at the decoding cursor, from the buffer or by reading them behind what is there, and
after decoding a record it accounts for what was read. -/

namespace InotifyTools

variable {σ : Type} {w : World σ}

/-! ## Words in the buffer -/

namespace EventStream

variable {s : EventStream}

/-- A word that stands in the buffer is read back. -/
theorem rdU32_eq {off : Nat} {v : UInt32} (hoff : off + 4 ≤ evbufSize)
    (h : s.evbuf.slice off 4 = leBytes 4 v.toNat) : s.rdU32 off = v := by
  have hget : [s.get off, s.get (off + 1), s.get (off + 2), s.get (off + 3)] = s.evbuf.slice off 4 := by
    unfold EventStream.get Mem.get
    rw [if_pos (by omega), if_pos (by omega), if_pos (by omega), if_pos (by omega)]
    rfl
  unfold rdU32
  rw [hget, h, leNat_leBytes_of_lt v.toNat_lt, UInt32.ofNat_toNat]

/-- A word is read from its four bytes. -/
theorem rdU32_congr {s' : EventStream} {off : Nat}
    (h : ∀ k, k < 4 → s'.evbuf (off + k) = s.evbuf (off + k)) : s'.rdU32 off = s.rdU32 off := by
  have hget : ∀ k, k < 4 → s'.get (off + k) = s.get (off + k) := by
    intro k hk
    unfold EventStream.get Mem.get
    rw [h k hk]
  unfold rdU32
  rw [hget 1 (by omega), hget 2 (by omega), hget 3 (by omega),
    show s'.get off = s.get off from hget 0 (by omega)]

end EventStream

/-- The number of bytes a read may fill. -/
def readCap : Nat := eventSize * maxEvents

theorem readCap_eq : readCap = 65536 := rfl

theorem evbufSize_eq : evbufSize = 131072 := rfl

theorem usizeOfI32_eq {x : Int32} {n : Nat} (h : x.toInt = n) : usizeOfI32 x = n := by
  have hlt : x.toInt < 2 ^ 31 := x.toInt_lt
  unfold usizeOfI32
  omega

theorem usizeOfIsize_eq {x : Int} {n : Nat} (h : x = n) (hn : n < 2 ^ 31) : usizeOfIsize x = n := by
  unfold usizeOfIsize
  omega

/-! ## What is buffered -/

/-- The bytes `bs` are at the decoding cursor, some of them perhaps not accounted for. -/
structure Ready (s : EventStream) (f : Nat) (bs : Bytes) : Prop where
  first : s.firstByte.toInt = f
  total : s.bytes + s.thisBytes = (f + bs.length : Nat)
  fits : f + bs.length ≤ readCap
  here : s.evbuf.slice f bs.length = bs

/-- The bytes `bs` are read, accounted for and not yet decoded. -/
def Buffered (s : EventStream) (bs : Bytes) : Prop :=
  s.firstByte = 0 ∧ bs = [] ∨ ∃ f, 0 < f ∧ Ready { s with thisBytes := 0 } f bs

/-- `w` with another event stream. -/
def World.withStream (w : World σ) (s : EventStream) : World σ :=
  { w with lib := { w.lib with stream := s } }

theorem getStream_bind {α : Type} (f : EventStream → M σ α) (w : World σ) :
    (getStream >>= f) w = f w.lib.stream w := rfl

theorem modifyStream_bind {α : Type} (f : EventStream → EventStream) (g : Unit → M σ α)
    (w : World σ) : (modifyStream f >>= g) w = g () (w.withStream (f w.lib.stream)) := rfl

/-- A whole record at the cursor is taken from the buffer. -/
theorem bufferedEvent_run_ready {bs : Bytes} (h : Buffered w.lib.stream bs)
    (hlen : eventSize ≤ bs.length)
    (hwhole : w.lib.fanotifyMode = true ∨ ∀ f, w.lib.stream.firstByte.toInt = (f : Nat) →
      eventSize + (w.lib.stream.rdU32 (f + 12)).toNat ≤ bs.length) :
    ∃ s' f, bufferedEvent w = .ok (true, w.withStream s') ∧ Ready s' f bs ∧ 0 < f ∧
      s'.thisBytes = 0 := by
  have hsize : eventSize = 16 := rfl
  rcases h with ⟨-, rfl⟩ | ⟨f, hf, hready⟩
  · simp [hsize] at hlen
  have hfirst : w.lib.stream.firstByte.toInt = f := hready.first
  have hbytes : w.lib.stream.bytes = (f + bs.length : Nat) := by
    have htotal := hready.total
    simpa using htotal
  have hfits := hready.fits
  rw [readCap_eq] at hfits
  have hcond : w.lib.stream.firstByte ≠ 0 ∧
      w.lib.stream.firstByte ≤ Int32.ofInt (w.lib.stream.bytes - eventSize) := by
    constructor
    · intro he
      rw [he] at hfirst
      simp at hfirst
      omega
    · rw [Int32.le_iff_toInt_le, Int32.toInt_ofInt_of_le (by omega) (by omega), hfirst]
      omega
  have hincomplete : ¬ ((!w.lib.fanotifyMode) = true ∧
      f + eventSize + (w.lib.stream.rdU32 (f + 12)).toNat
        > usizeOfIsize w.lib.stream.bytes) := by
    rintro ⟨hmode, hgt⟩
    rcases hwhole with hfan | hwhole
    · simp [hfan] at hmode
    · rw [usizeOfIsize_eq hbytes (by omega)] at hgt
      have hle := hwhole f hfirst
      omega
  refine ⟨{ w.lib.stream with retOff := f, thisBytes := 0 }, f, ?_, ?_, hf, rfl⟩
  · unfold bufferedEvent
    rw [getStream_bind, if_pos hcond]
    dsimp only
    rw [usizeOfI32_eq hfirst, modifyStream_bind]
    exact (congrFun (if_neg hincomplete) _).trans rfl
  · exact ⟨hfirst, hready.total, hready.fits, hready.here⟩

/-- Nothing is buffered: what is read next goes to the decoding cursor. -/
theorem bufferedEvent_run_empty (h : Buffered w.lib.stream []) :
    ∃ s' f, bufferedEvent w = .ok (false, w.withStream s') ∧
      s'.firstByte = w.lib.stream.firstByte ∧ s'.firstByte.toInt = (f : Nat) ∧
      s'.bytes = (f : Nat) ∧ f ≤ readCap := by
  have hsize : eventSize = 16 := rfl
  unfold bufferedEvent
  rw [getStream_bind]
  rcases h with ⟨hzero, -⟩ | ⟨f, hf, hready⟩
  · refine ⟨{ w.lib.stream with bytes := 0 }, 0, ?_, rfl, ?_, rfl, Nat.zero_le _⟩
    · rw [if_neg (by simp [hzero]), if_pos hzero]
      rfl
    · simp [hzero]
  · have hfirst : w.lib.stream.firstByte.toInt = f := hready.first
    have hbytes : w.lib.stream.bytes = f := by
      have htotal := hready.total
      simpa using htotal
    have hfits : f ≤ readCap := hready.fits
    have hsmall : f ≤ 65536 := readCap_eq ▸ hfits
    have hzero : w.lib.stream.firstByte ≠ 0 := by
      intro he
      rw [he] at hfirst
      simp at hfirst
      omega
    refine ⟨w.lib.stream, f, ?_, rfl, hfirst, hbytes, hfits⟩
    rw [if_neg, if_neg hzero]
    · rfl
    · rintro ⟨-, hle⟩
      rw [Int32.le_iff_toInt_le, Int32.toInt_ofInt_of_le (by omega) (by omega), hfirst] at hle
      omega

variable [Sys σ]

/-! ## Reading -/

/-- What `ppoll` is given for a timeout. -/
def polledFor (timeout : Int) : Option Int := if timeout < 0 then none else some timeout

/-- `FIONREAD` reports enough bytes for `n` events, after some reports of fewer. -/
inductive Enough (fd n : Int32) : σ → σ → Prop
  | now (os : σ) (hrc : (Sys.fionread fd os).1.1 = 0)
      (hn : eventSize * n.toInt.toNat ≤ (Sys.fionread fd os).1.2.toNat) :
      Enough fd n os (Sys.fionread fd os).2
  | later {os os' : σ} (hrc : (Sys.fionread fd os).1.1 = 0)
      (hn : (Sys.fionread fd os).1.2.toNat < eventSize * n.toInt.toNat)
      (h : Enough fd n (Sys.fionread fd os).2 os') : Enough fd n os os'

/-- With enough fuel the loop around `FIONREAD` ends. -/
theorem waitForBytes_run {n : Int32} {os' : σ} (h : Enough w.lib.fd n w.os os') :
    ∃ fuel₀, ∀ fuel, fuel₀ ≤ fuel → waitForBytes n fuel w = .ok (0, { w with os := os' }) := by
  generalize hfd : w.lib.fd = fd at h
  generalize hos : w.os = os at h
  induction h generalizing w with
  | now os hrc hn =>
      subst hos hfd
      refine ⟨1, fun fuel hfuel => ?_⟩
      obtain ⟨fuel, rfl⟩ := Nat.exists_eq_add_of_le' hfuel
      rw [waitForBytes, getLib_bind, call_bind]
      show (if (Sys.fionread w.lib.fd w.os).1.1 ≠ 0 ∨ _ then _ else _ : M σ Int32) _ = _
      rw [if_pos (.inr hn), hrc]
      rfl
  | later hrc hn _ ih =>
      subst hos hfd
      obtain ⟨fuel₀, hrun⟩ := ih (w := { w with os := (Sys.fionread w.lib.fd w.os).2 }) rfl rfl
      refine ⟨fuel₀ + 1, fun fuel hfuel => ?_⟩
      obtain ⟨fuel, rfl⟩ := Nat.exists_eq_add_of_le' (Nat.le_of_add_left_le hfuel)
      rw [waitForBytes, getLib_bind, call_bind]
      show (if (Sys.fionread w.lib.fd w.os).1.1 ≠ 0 ∨ _ then _ else _ : M σ Int32) _ = _
      rw [if_neg (not_or.2 ⟨not_not.2 hrc, Nat.not_le.2 hn⟩)]
      exact hrun fuel (by omega)

/-- A poll that times out leaves the handle as it is. -/
theorem readEvents_run_timeout {timeout : Int}
    (h : (Sys.ppoll w.lib.fd (polledFor timeout) w.os).1 = 0) (fuel : Nat) (n : Int32) :
    readEvents fuel timeout n w =
      .ok (false, { w with os := (Sys.ppoll w.lib.fd (polledFor timeout) w.os).2 }) := by
  unfold polledFor at h ⊢
  unfold readEvents
  rw [getLib_bind, call_bind, h, if_neg (by decide), if_pos rfl]
  rfl

/-- What a poll is answered: nothing until it times out, or some bytes that fit into `room`. -/
inductive Polled (fd : Int32) (timeout : Int) (n : Int32) (room : Nat) :
    σ → Option Bytes → σ → Prop
  | nothing (os : σ) (h : (Sys.ppoll fd (polledFor timeout) os).1 = 0) :
      Polled fd timeout n room os none (Sys.ppoll fd (polledFor timeout) os).2
  | data {os os' : σ} {bs : Bytes} (hpoll : 0 < (Sys.ppoll fd (polledFor timeout) os).1)
      (henough : Enough fd n (Sys.ppoll fd (polledFor timeout) os).2 os')
      (hread : (Sys.read fd room os').1 = some bs) (hne : bs ≠ []) (hfits : bs.length ≤ room) :
      Polled fd timeout n room os (some bs) (Sys.read fd room os').2

theorem Enough.calls {fd n : Int32} {os os' : σ} (h : Enough fd n os os') :
    Relation.ReflTransGen QuietCall os os' := by
  induction h with
  | now os _ _ => exact .single (.fionread _ _)
  | later _ _ _ ih => exact .head (.fionread _ _) ih

/-- Polling and reading are quiet. -/
theorem Polled.calls {fd : Int32} {timeout : Int} {n : Int32} {room : Nat} {os os' : σ}
    {answer : Option Bytes} (h : Polled fd timeout n room os answer os') :
    Relation.ReflTransGen QuietCall os os' := by
  cases h with
  | nothing => exact .single (.ppoll _ _ _)
  | data _ henough _ _ _ => exact .tail (.head (.ppoll _ _ _) henough.calls) (.read _ _ _)

/-- What is read goes to the decoding cursor when nothing else is buffered. -/
theorem readEvents_run_data {timeout : Int} {n : Int32} {bs : Bytes} {os' : σ} {f : Nat}
    (hfirst : w.lib.stream.firstByte.toInt = f) (hbytes : w.lib.stream.bytes = f)
    (hf : f ≤ readCap) (h : Polled w.lib.fd timeout n (readCap - f) w.os (some bs) os') :
    ∃ fuel₀ s', (∀ fuel, fuel₀ ≤ fuel → readEvents fuel timeout n w =
      .ok (true, { w.withStream s' with os := os' })) ∧ Ready s' f bs ∧ s'.bytes = (f : Nat) := by
  generalize hanswer : some bs = answer at h
  cases h with
  | nothing => cases hanswer
  | @data os₁ bs' hpoll henough hread hne hfits =>
      cases hanswer
      obtain ⟨fuel₀, hwait⟩ := waitForBytes_run
        (w := { w with os := (Sys.ppoll w.lib.fd (polledFor timeout) w.os).2 }) henough
      let s' : EventStream := { w.lib.stream with evbuf := w.lib.stream.evbuf.blit f bs
                                                  thisBytes := bs.length }
      have hoff : min w.lib.stream.bytes.toNat (eventSize * maxEvents) = f := by
        rw [hbytes, Int.toNat_natCast]
        exact Nat.min_eq_left hf
      refine ⟨fuel₀, s', fun fuel hfuel => ?_, ⟨hfirst, ?_, by omega, Mem.slice_blit _ _ _⟩, hbytes⟩
      · have hrc : ¬ (Sys.ppoll w.lib.fd (polledFor timeout) w.os).1 < 0 ∧
            (Sys.ppoll w.lib.fd (polledFor timeout) w.os).1 ≠ 0 := by
          constructor <;> intro he <;> grind
        unfold polledFor at hrc hwait
        unfold readEvents
        rw [getLib_bind, call_bind, if_neg hrc.1, if_neg hrc.2,
          Prog.bind_run_ok (hwait fuel hfuel), if_neg (by decide), getLib_bind]
        have hcap : eventSize * maxEvents - f = readCap - f := rfl
        have hnonempty : ¬ bs.isEmpty = true := by simpa using hne
        dsimp only
        rw [hoff, hcap, call_bind, hread]
        dsimp only
        rw [List.take_of_length_le hfits]
        exact (congrFun (if_neg hnonempty) _).trans rfl
      · show w.lib.stream.bytes + (bs.length : Int) = _
        rw [hbytes]
        rfl

/-! ## Accounting -/

/-- What is left behind the decoding cursor stays buffered, or the buffer is drained. -/
theorem advance_run {f : Nat} {bs : Bytes} (h : Ready w.lib.stream f bs) (hf : 0 < f) :
    ∃ s', advance w = .ok ((), w.withStream s') ∧ Buffered s' bs ∧
      (bs = [] → s'.firstByte = 0) ∧ s'.evbuf = w.lib.stream.evbuf ∧ s'.retOff = w.lib.stream.retOff := by
  let bytes := w.lib.stream.bytes + w.lib.stream.thisBytes
  have htotal : bytes = (f + bs.length : Nat) := h.total
  have hfirst := h.first
  have hassert : w.lib.stream.firstByte.toInt ≤ bytes := by omega
  let s' : EventStream := { w.lib.stream with
    bytes, firstByte := if w.lib.stream.firstByte.toInt = bytes then 0 else w.lib.stream.firstByte }
  refine ⟨s', ?_, ?_, ?_, rfl, rfl⟩
  · unfold advance
    rw [modifyStream_bind, getStream_bind]
    show (niceassert (w.lib.stream.firstByte.toInt ≤ bytes) _ _ _ >>= _) _ = _
    unfold niceassert
    rw [decide_eq_true hassert, if_pos rfl]
    rfl
  · by_cases hdrained : w.lib.stream.firstByte.toInt = bytes
    · exact .inl ⟨if_pos hdrained, List.eq_nil_of_length_eq_zero (by omega)⟩
    · refine .inr ⟨f, hf, ?_, ?_, h.fits, h.here⟩
      · show (if _ then (0 : Int32) else _).toInt = _
        rw [if_neg hdrained, hfirst]
      · exact (Int.add_zero _).trans htotal
  · rintro rfl
    exact if_pos (by simpa [hfirst] using htotal.symm)

end InotifyTools
