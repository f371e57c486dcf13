import InotifyTools.Proofs.Decoding
import InotifyTools.Proofs.Fanotify

set_option autoImplicit false

/-! # Listening with fanotify

The buffer is a queue of fanotify records, as it is one of inotify records. What becomes of an event
depends here on the watch that its fid is given, and so on the answers of the operating system: each
turn of the loop is described on its own. A record without a fid fails to decode. If it was buffered
only its own call fails; if it is the first of a read the bytes read are never accounted for. -/

namespace InotifyTools

variable {σ : Type} [Sys σ] {w w' w'' : World σ}

/-! ## Turns and calls -/

/-- With whatever fuel from some amount on, a turn of the loop ends in `round`. -/
def Turn (w : World σ) (c : Call) (round : Round) (w' : World σ) : Prop :=
  ∃ fuel₀, ∀ fuel, fuel₀ ≤ fuel → eventRound fuel c.timeout c.numEvents w = .ok (round, w')

/-- What a turn that ends in `round` means for the call that takes it. -/
def Goes (w : World σ) (c : Call) (round : Round) (w' : World σ) : Prop :=
  match round with
  | .fail => Returns w c none w'
  | .event => Returns w c (some w'.lib.stream.currentEvent) w'
  | .skip => ∀ e w'', Returns w' c e w'' → Returns w c e w''

theorem Turn.goes (hi : w.lib.initialized = true) (hi' : w'.lib.initialized = true) {c : Call}
    {round : Round} (h : Turn w c round w') : Goes w c round w' := by
  obtain ⟨fuel₀, h⟩ := h
  cases round with
  | fail => exact .of_succ fuel₀ fun fuel hfuel => nextEvents_fail hi (h fuel hfuel)
  | event => exact .of_succ fuel₀ fun fuel hfuel => nextEvents_event hi (h fuel hfuel)
  | skip =>
      rintro e w'' ⟨fuel₁, hreturns⟩
      refine .of_succ (max fuel₀ fuel₁) fun fuel hfuel => ?_
      rw [nextEvents_skip hi hi' (h fuel (by omega)), hreturns fuel (by omega)]

theorem Returns.unique {c : Call} {e e' : Option Event} (h : Returns w c e w')
    (h' : Returns w c e' w'') : e = e' ∧ w' = w'' := by
  obtain ⟨fuel₀, h⟩ := h
  obtain ⟨fuel₁, h'⟩ := h'
  have heq := (h (max fuel₀ fuel₁) (by omega)).symm.trans (h' (max fuel₀ fuel₁) (by omega))
  cases heq
  exact ⟨rfl, rfl⟩

theorem Turn.unique {c : Call} {round round' : Round} (h : Turn w c round w')
    (h' : Turn w c round' w'') : round = round' ∧ w' = w'' := by
  obtain ⟨fuel₀, h⟩ := h
  obtain ⟨fuel₁, h'⟩ := h'
  have heq := (h (max fuel₀ fuel₁) (by omega)).symm.trans (h' (max fuel₀ fuel₁) (by omega))
  cases heq
  exact ⟨rfl, rfl⟩

/-! ## What the handle holds -/

/-- The handle listens with fanotify, and holds the records `q`, read and not yet decoded. -/
structure Listening (w : World σ) (q : List FanRecord) : Prop where
  initialized : w.lib.initialized = true
  mode : w.lib.fanotifyMode = true
  wellIndexed : w.lib.store.WellIndexed
  held : Buffered w.lib.stream (FanRecord.encodeAll q)

/-- What other operations do leaves the records where they are. -/
theorem Listening.effects {S : Set Kind} {q : List FanRecord} (h : Listening w q)
    (he : Effects S w w') (hs : Kind.stream ∉ S) (hl : Kind.lifecycle ∉ S) : Listening w' q where
  initialized := (he.initialized_eq hl).trans h.initialized
  mode := (he.fanotifyMode_eq hl).trans h.mode
  wellIndexed := he.wellIndexed h.wellIndexed
  held := by
    rw [he.stream_eq hs]
    exact h.held

/-- The poll of a call is answered with the records `rs`. -/
def Answered (w : World σ) (c : Call) (rs : List FanRecord) (os : σ) : Prop :=
  Polled w.lib.fd c.timeout c.numEvents (readCap - w.lib.stream.firstByte.toInt.toNat) w.os
    (some (FanRecord.encodeAll rs)) os

/-- The records a turn has to decode: those held, or those read when none are. -/
def Takes (w : World σ) (c : Call) (q rs : List FanRecord) (os : σ) : Prop :=
  q = rs ∧ w.os = os ∨ q = [] ∧ Answered w c rs os

/-- Polling and reading are quiet. -/
theorem Takes.calls {c : Call} {q rs : List FanRecord} {os : σ} (h : Takes w c q rs os) :
    Relation.ReflTransGen QuietCall w.os os := by
  rcases h with ⟨-, rfl⟩ | ⟨-, h⟩
  · exact .refl
  · exact Polled.calls h

/-- The first record is made ready. -/
theorem Listening.ready {q q' : List FanRecord} {r : FanRecord} {c : Call} {os : σ}
    (h : Listening w q) (htake : Takes w c q (r :: q') os) :
    ∃ fuel₀ s f, Ready s f (r.encode ++ FanRecord.encodeAll q') ∧
      (q = r :: q' → 0 < f ∧ s.thisBytes = 0) ∧ (q = [] → s.bytes = (f : Nat)) ∧
      ∀ fuel, fuel₀ ≤ fuel → eventRound fuel c.timeout c.numEvents w =
        decodeAndDeliver fuel { lib := { w.lib with error := 0, stream := s }, os } := by
  have hlen := r.length_encode
  have hsize : eventSize = 16 := rfl
  have hmeta : metaLen = 24 := rfl
  rcases htake with ⟨rfl, rfl⟩ | ⟨rfl, hanswer⟩
  · have hlong : eventSize ≤ (FanRecord.encodeAll (r :: q')).length := by
      show eventSize ≤ (r.encode ++ FanRecord.encodeAll q').length
      rw [List.length_append]
      omega
    obtain ⟨s, f, hready, hf, hthis, hround⟩ := eventRound_buffered h.held hlong (.inl h.mode)
    exact ⟨0, s, f, hready, fun _ => ⟨hf, hthis⟩, nofun, fun fuel _ => hround fuel _ _⟩
  · obtain ⟨fuel₀, s, f, hready, hbytes, hround⟩ := eventRound_read h.held hanswer
    exact ⟨fuel₀, s, f, hready, nofun, fun _ => hbytes, hround⟩

/-! ## Records with a fid -/

/-- Counting an event touches no index, and no key of a watch. -/
theorem Effects.counted_only (h : Effects {.stats} w w') :
    w'.lib.store.byWd = w.lib.store.byWd ∧
      ∀ k, w'.lib.store.wdOfKey k = w.lib.store.wdOfKey k := by
  refine ⟨h.same (fun w => w.lib.store.byWd) fun k w₁ w₂ hk he => ?_,
    fun key => h.same (fun w => w.lib.store.wdOfKey key) fun k w₁ w₂ hk he => ?_⟩
  · cases he with
    | scratch | call | counted | collecting => rfl
    | _ => exact hk.elim nofun nofun
  · cases he with
    | scratch | call | collecting => rfl
    | counted _ hv =>
        show (w₁.lib.store.byFid[key]?.bind _) = w₁.lib.store.byFid[key]?.bind _
        refine congrArg _ (funext fun id => ?_)
        show ((w₁.lib.store.watches.insert _ _)[id]?).map Watch.wd = _
        rw [KeyedMap.lookup_insert]
        split
        · next he => rw [← he, hv]; rfl
        · rfl
    | _ => exact hk.elim nofun nofun

/-- What a turn has done with a record with the fid of `i`. -/
structure Took (w : World σ) (i : FidRecord) (mask : UInt32) (round : Round) (w' : World σ) :
    Prop where
  round : round ≠ .fail
  effects : Effects {.stream, .watch, .stats} w w'
  shows : ShowsRecord i (w'.lib.store.wdOfKey i.key) mask w'.lib.stream.currentEvent
  spare : ∀ n, w.lib.store.Spare (n + 1) → w'.lib.store.Spare n

/-- A record with a fid is decoded, and delivered or dropped, once its fid is looked up. -/
theorem decodeAndDeliver_fid (hm : w.lib.fanotifyMode = true) (hw : w.lib.store.WellIndexed)
    {r : FanRecord} {i : FidRecord} {rest : Bytes} {f : Nat} (hi : r.info = some i)
    (h : Ready w.lib.stream f (r.encode ++ rest)) :
    ∃ w₁ : World σ, w₁.lib.store = w.lib.store ∧ w₁.lib.fanotifyMode = true ∧
      (∀ fuel x w', decodeAndDeliver fuel w = .ok (x, w') → ∃ wd p w₂,
        wdOfFid fuel i.fid w₁ = .ok ((wd, p), w₂)) ∧
      ∀ wd p w₂, Identified w₁ i.fid wd w₂ → ∃ round w', Took w i r.mask round w' ∧
        Buffered w'.lib.stream rest ∧ ∀ fuel, wdOfFid fuel i.fid w₁ = .ok ((wd, p), w₂) →
          decodeAndDeliver fuel w = .ok (round, w') := by
  have hlen := r.length_encode
  have hmeta : metaLen = 24 := rfl
  obtain ⟨s₁, os₁, hos₁, hlooked, hdecode⟩ := decodeEvent_fid hm hi h
  have hs : Kind.stream ∈ ({.stream, .watch, .stats} : Set Kind) := .inl rfl
  let w₁ : World σ := { lib := { w.lib with stream := s₁ }, os := os₁ }
  have he₁ : Effects {.stream, .watch, .stats} w w₁ :=
    (Effects.single hs (.stream w s₁)).trans (.calls hos₁)
  refine ⟨w₁, rfl, hm, fun fuel x w' hrun => ?_, fun wd p w₂ hid => ?_⟩
  · obtain ⟨pid, w₂, hrun, -⟩ := Prog.bind_ok hrun
    exact hlooked fuel pid w₂ hrun
  obtain ⟨s', os', hos', hready, hshows, hrun⟩ :=
    hdecode wd p w₂ (hid.effects.stream_eq nofun)
  let w₃ : World σ := { lib := { w₂.lib with stream := s' }, os := os' }
  obtain ⟨s'', hadvance, hbuffered, -, hbuf, hret⟩ :=
    advance_run (w := w₃) hready (by omega)
  let w₄ := w₃.withStream s''
  have he₄ : Effects {.stream, .watch, .stats} w₂ w₄ :=
    (Effects.calls hos').trans ((Effects.single hs (.stream { w₂ with os := os' } s')).trans
      (Effects.single hs (.stream w₃ s'')))
  have hid' : Effects {.stream, .watch, .stats} w₁ w₂ :=
    hid.effects.mono (Set.singleton_subset_iff.2 (.inr (.inl rfl)))
  have hw₄ : w₄.lib.store.WellIndexed := (he₁.trans (hid'.trans he₄)).wellIndexed hw
  obtain ⟨round, w', hdeliver, hround, he'⟩ := deliver_returns hw₄ r.pid
  have hcounted := he'.counted_only
  have hstream : w'.lib.stream = s'' := he'.stream_eq nofun
  refine ⟨round, w', ⟨hround, ?_, ?_, fun n hn => ?_⟩, ?_, fun fuel hwd => ?_⟩
  · exact he₁.trans (hid'.trans (he₄.trans
      (he'.mono (Set.singleton_subset_iff.2 (.inr (.inr rfl))))))
  · rw [hcounted.2, hstream, currentEvent_congr hbuf hret]
    rw [← hid.wdOfKey] at hshows
    exact hshows
  · obtain ⟨free, hcard, hfree⟩ := hid.spare n hn
    refine ⟨free, hcard, fun wd hwd => ⟨(hfree wd hwd).1, ?_⟩⟩
    rw [hcounted.1]
    exact (hfree wd hwd).2
  · rw [hstream]
    exact hbuffered
  · unfold decodeAndDeliver
    rw [Prog.bind_run_ok (hrun fuel hwd)]
    show (advance >>= fun _ => deliver r.pid) w₃ = _
    rw [Prog.bind_run_ok hadvance]
    exact hdeliver

/-- A turn on a record with a fid takes it, and there is such a turn while descriptors last. -/
theorem Listening.turn_fid {q q' : List FanRecord} {r : FanRecord} {i : FidRecord} {c : Call} {os : σ}
    (h : Listening w q) (htake : Takes w c q (r :: q') os) (hi : r.info = some i) :
    (∀ round w', Turn w c round w' → Listening w' q' ∧ Took w i r.mask round w') ∧
    (w.lib.store.Spare 1 → ∃ round w', Turn w c round w') := by
  have hs : Kind.stream ∈ ({.stream, .watch, .stats} : Set Kind) := .inl rfl
  obtain ⟨fuel₀, s, f, hready, -, -, hround⟩ := h.ready htake
  let w₀ : World σ := { lib := { w.lib with error := 0, stream := s }, os }
  have he₀ : Effects {.stream, .watch, .stats} w w₀ :=
    (Effects.quiet (.scratch w 0 w.lib.evstr w.lib.fidname w.lib.printOut)).trans
      ((Effects.single hs (.stream _ s)).trans (.calls htake.calls))
  obtain ⟨w₁, hstore, hm₁, hlooked, hdecode⟩ :=
    decodeAndDeliver_fid (w := w₀) h.mode h.wellIndexed hi hready
  have hw₁ : w₁.lib.store.WellIndexed := hstore ▸ h.wellIndexed
  refine ⟨fun round w' hturn => ?_, fun hspare => ?_⟩
  · obtain ⟨fuel₁, hturn⟩ := hturn
    have hrun := (hround _ (le_max_left fuel₀ fuel₁)).symm.trans (hturn _ (le_max_right fuel₀ fuel₁))
    obtain ⟨wd, p, w₂, hwd⟩ := hlooked _ _ _ hrun
    obtain ⟨round', w'', htook, hbuffered, hfuel⟩ :=
      hdecode wd p w₂ (wdOfFid_identified hw₁ hm₁ hwd)
    cases hrun.symm.trans (hfuel _ hwd)
    refine ⟨⟨?_, ?_, htook.effects.wellIndexed h.wellIndexed, hbuffered⟩,
      ⟨htook.round, he₀.trans htook.effects, htook.shows, htook.spare⟩⟩
    · refine (htook.effects.initialized_eq ?_).trans h.initialized
      rintro (h | h | h) <;> cases h
    · refine (htook.effects.fanotifyMode_eq ?_).trans h.mode
      rintro (h | h | h) <;> cases h
  · obtain ⟨fuel₁, wd, p, w₂, hwd⟩ := wdOfFid_returns hw₁ (hstore ▸ hspare) i.fid
    obtain ⟨round, w', -, -, hfuel⟩ :=
      hdecode wd p w₂ (wdOfFid_identified hw₁ hm₁ (hwd fuel₁ le_rfl))
    refine ⟨round, w', max fuel₀ fuel₁, fun fuel hle => ?_⟩
    rw [hround fuel (by omega)]
    exact hfuel fuel (hwd fuel (by omega))

/-! ## Records without a fid -/

/-- The cursor is behind what is accounted for. -/
def Stuck (s : EventStream) : Prop :=
  ∃ f : Nat, s.firstByte.toInt = (f + 24 : Nat) ∧ s.bytes = (f : Nat) ∧ f ≤ readCap

/-- A turn on a record without a fid ends empty-handed. Nothing else is lost if the record was
    buffered; if it was just read, none of what was read is accounted for. -/
theorem Listening.turn_bare {q q' : List FanRecord} {r : FanRecord} {c : Call} {os : σ}
    (h : Listening w q) (htake : Takes w c q (r :: q') os) (hi : r.info = none) :
    ∃ w', Turn w c .fail w' ∧ w'.lib.initialized = true ∧ w'.lib.store = w.lib.store ∧
      (q = r :: q' → Listening w' q') ∧ (q = [] → Stuck w'.lib.stream) := by
  obtain ⟨fuel₀, s, f, hready, hheld, hread, hround⟩ := h.ready htake
  have hlen : r.encode.length = 24 := by
    rw [r.length_encode, show r.infoBytes = [] by simp [FanRecord.infoBytes, hi]]
    rfl
  have hfits := hready.fits
  rw [List.length_append] at hfits
  obtain ⟨s', os', -, hdecode, hfirst, hbytes, hthis, hbuf⟩ := decodeEvent_bare
    (w := { lib := { w.lib with error := 0, stream := s }, os }) h.mode hi hready
  refine ⟨{ lib := { w.lib with error := 0, stream := s' }, os := os' }, ⟨fuel₀, fun fuel hfuel => ?_⟩,
    h.initialized, rfl, fun hq => ?_, fun hq => ?_⟩
  · rw [hround fuel hfuel]
    unfold decodeAndDeliver
    rw [Prog.bind_run_ok (hdecode fuel)]
    rfl
  · obtain ⟨hf, hzero⟩ := hheld hq
    refine ⟨h.initialized, h.mode, h.wellIndexed, .inr ⟨f + 24, by omega, ?_, ?_, by omega, ?_⟩⟩
    · rw [← hlen]
      exact hfirst
    · have htotal := hready.total
      rw [List.length_append] at htotal
      show s'.bytes + 0 = _
      rw [hbytes]
      show s.bytes + 0 = _
      rw [hzero] at htotal
      omega
    · have hrest := (Mem.slice_append_eq hready.here).2
      rw [hlen] at hrest
      show s'.evbuf.slice _ _ = _
      rw [hbuf]
      exact hrest
  · refine ⟨f, ?_, ?_, by omega⟩
    · rw [← hlen]
      exact hfirst
    · exact hbytes.trans (hread hq)

omit [Sys σ] in
/-- From there nothing is found in the buffer, whatever was read. -/
theorem Stuck.bufferedEvent_run (h : Stuck w.lib.stream) : bufferedEvent w = .ok (false, w) := by
  obtain ⟨f, hfirst, hbytes, hf⟩ := h
  have hcap := readCap_eq
  have hsize : eventSize = 16 := rfl
  have hzero : w.lib.stream.firstByte ≠ 0 := by
    intro he
    rw [he] at hfirst
    simp at hfirst
    omega
  unfold bufferedEvent
  rw [getStream_bind, if_neg, if_neg hzero]
  · rfl
  · rintro ⟨-, hle⟩
    rw [Int32.le_iff_toInt_le, hbytes, hsize, Int32.toInt_ofInt_of_le (by omega) (by omega),
      hfirst] at hle
    omega

omit [Sys σ] in
theorem Stuck.not_buffered {s : EventStream} (h : Stuck s) : ¬ Buffered s [] := by
  obtain ⟨f, hfirst, hbytes, -⟩ := h
  rintro (⟨hzero, -⟩ | ⟨f', -, hready⟩)
  · rw [hzero] at hfirst
    simp at hfirst
    omega
  · have hfirst' : s.firstByte.toInt = f' := hready.first
    have htotal : s.bytes + 0 = (f' + 0 : Nat) := hready.total
    omega

/-! ## Runs -/

/-- An error of a system call is recorded. -/
theorem recordError_sound {S : Set Kind} {Q : Bool → World σ → Prop} (b : Bool)
    (hQ : ∀ error, Q b { w with lib := { w.lib with error } }) :
    SoundAt S w (do setError (← errno); return b : M σ Bool) Q :=
  .step w rfl (.refl w) (.step _ rfl
    (.quiet (.scratch w (Sys.errno w.os) w.lib.evstr w.lib.fidname w.lib.printOut)) (.pure (hQ _)))

/-- When nothing is read the stream is as it was. -/
theorem readEvents_false (hw : w.lib.store.WellIndexed) (fuel : Nat) (timeout : Int) (n : Int32) :
    SoundAt {.stream} w (readEvents fuel timeout n) fun b w' =>
      b = false → w'.lib.stream = w.lib.stream := by
  unfold readEvents
  refine .getLib (.step _ rfl (.quiet (.call w (.ppoll _ _ _))) ?_)
  refine .ite (fun _ => recordError_sound _ fun _ _ => rfl) fun _ => ?_
  refine .ite (fun _ => .pure fun _ => rfl) fun _ => ?_
  refine .bind hw ((waitForBytes_sound n fuel).quiet hw) fun rc w₁ hw₁ he hsame => ?_
  have hstream : w₁.lib.stream = w.lib.stream := hsame.stream
  refine .ite (fun _ => recordError_sound _ fun _ _ => hstream) fun _ => .getLib ?_
  refine .step _ rfl (.quiet (.call w₁ (.read _ _ _))) ?_
  dsimp only
  split
  · exact recordError_sound _ fun _ _ => hstream
  · refine .ite (fun _ => ?_) fun _ => ?_
    · exact .step _ rfl (.quiet (.call _ (.fwrite _ _ _))) (.pure fun _ => hstream)
    · exact .step _ rfl (.single rfl (.stream _ _)) (.pure nofun)

/-- A turn that finds nothing and reads nothing. -/
theorem Listening.nothing {w₁ : World σ} {c : Call} {fuel : Nat} (h : Listening w [])
    (hbuf : bufferedEvent { w with lib := { w.lib with error := 0 } } = .ok (false, w₁))
    (hread : readEvents fuel c.timeout c.numEvents w₁ = .ok (false, w')) :
    Listening w' [] ∧ Effects {.stream} w w' := by
  let w₀ : World σ := { w with lib := { w.lib with error := 0 } }
  obtain ⟨s, f, hrun, -, hfirst, hbytes, hf⟩ := bufferedEvent_run_empty (w := w₀) h.held
  cases hrun.symm.trans hbuf
  obtain ⟨he, hstream⟩ := (readEvents_false (w := w₀.withStream s) h.wellIndexed _ _ _).ok hread
  have he : Effects {.stream} w w' :=
    (Effects.quiet (.scratch w 0 w.lib.evstr w.lib.fidname w.lib.printOut)).trans
      ((Effects.single (Set.mem_singleton Kind.stream) (.stream w₀ s)).trans he)
  refine ⟨⟨?_, ?_, he.wellIndexed h.wellIndexed, ?_⟩, he⟩
  · exact (he.initialized_eq nofun).trans h.initialized
  · exact (he.fanotifyMode_eq nofun).trans h.mode
  · rw [hstream rfl]
    rcases Nat.eq_zero_or_pos f with rfl | hpos
    · exact .inl ⟨Int32.toInt_inj.1 hfirst, rfl⟩
    · refine .inr ⟨f, hpos, hfirst, ?_, hf, rfl⟩
      show s.bytes + 0 = _
      rw [hbytes]
      rfl

/-- Operations that read no events, and neither open nor close the instance. -/
def Op.Aside (o : Op) : Prop := Kind.stream ∉ o.kinds ∧ Kind.lifecycle ∉ o.kinds

/-- What a turn on `r` returns, with the info record behind it. -/
def returned (r : FanRecord) (round : Round) (w : World σ) : List (FidRecord × Event) :=
  if round = .event then r.info.toList.map fun i => (i, w.lib.stream.currentEvent) else []

/-- A handle on which nothing was left over has been initialised for fanotify. -/
inductive Starts (env : σ → σ → Prop) : World σ → Prop
  | init {w₀ w : World σ} {watchFilesystem : Bool} {verbose : Int32} (h₀ : Reachable env w₀)
      (hi : w₀.lib.initialized = false) (hfirst : w₀.lib.stream.firstByte = 0)
      (h : InotifyTools.init true watchFilesystem verbose w₀ = .ok (true, w)) : Starts env w

/-- `Hears env ops ok w₀ q₀ w q log`: in the world `w₀` the handle held `q₀`; it has since done
    operations among `ops` and turns of `next_events` and has come to `w`, where it holds `q`; the
    chunks it read satisfy `ok`, and it has returned the events `log`. -/
inductive Hears (env : σ → σ → Prop) (ops : Op → Prop) (ok : List FanRecord → Prop) (w₀ : World σ)
    (q₀ : List FanRecord) : World σ → List FanRecord → List (FidRecord × Event) → Prop
  | start : Hears env ops ok w₀ q₀ w₀ q₀ []
  | op {w w' : World σ} {q : List FanRecord} {log : List (FidRecord × Event)} {fuel : Nat} {o : Op}
      (h : Hears env ops ok w₀ q₀ w q log) (ho : ops o) (hrun : o.run fuel w = .ok ((), w')) :
      Hears env ops ok w₀ q₀ w' q log
  | env {w : World σ} {q : List FanRecord} {log : List (FidRecord × Event)} {os : σ}
      (h : Hears env ops ok w₀ q₀ w q log) (he : env w.os os) :
      Hears env ops ok w₀ q₀ { w with os } q log
  | turn {w w' : World σ} {q q' : List FanRecord} {r : FanRecord} {log : List (FidRecord × Event)}
      {c : Call} {os : σ} {round : Round} (h : Hears env ops ok w₀ q₀ w q log)
      (htake : Takes w c q (r :: q') os) (hok : q = [] → ok (r :: q')) (hturn : Turn w c round w') :
      Hears env ops ok w₀ q₀ w' q' (log ++ returned r round w')
  | nothing {w w₁ w' : World σ} {log : List (FidRecord × Event)} {c : Call} {fuel : Nat}
      (h : Hears env ops ok w₀ q₀ w [] log)
      (hbuf : bufferedEvent { w with lib := { w.lib with error := 0 } } = .ok (false, w₁))
      (hread : readEvents fuel c.timeout c.numEvents w₁ = .ok (false, w')) :
      Hears env ops ok w₀ q₀ w' [] log

/-- The first record has a fid. -/
def StartsWithFid : List FanRecord → Prop
  | [] => False
  | r :: _ => r.info.isSome

/-- Initialising a handle that nothing was left over on. -/
theorem Starts.listening {env : σ → σ → Prop} (h : Starts env w) :
    Listening w [] ∧ (∀ k : FidKey, w.lib.store.byFid[k]? = none) ∧
      ∀ wd : Int32, w.lib.store.byWd[wd]? = none := by
  cases h with
  | @init w₀ _ watchFilesystem verbose h₀ hi hfirst h =>
      obtain ⟨pid, mark, os₁, fd, os, -, -, -, hrun⟩ := init_run hi true watchFilesystem verbose
      rw [h] at hrun
      split at hrun
      · cases hrun
      · cases hrun
        exact ⟨⟨rfl, rfl, h₀.wellIndexed.clearIndexes, .inl ⟨hfirst, rfl⟩⟩,
          fun k => by simp [Store.clearIndexes], fun wd => by simp [Store.clearIndexes]⟩

/-- In a run whose chunks start with a fid the handle keeps its place in the stream. -/
theorem Hears.listening {env : σ → σ → Prop} {ops : Op → Prop} {ok : List FanRecord → Prop}
    {w₀ : World σ} {q₀ q : List FanRecord} {log : List (FidRecord × Event)}
    (h : Hears env ops ok w₀ q₀ w q log) (hops : ∀ o, ops o → o.Aside)
    (hok : ∀ rs, ok rs → StartsWithFid rs) (h₀ : Listening w₀ q₀) : Listening w q := by
  induction h with
  | start => exact h₀
  | @op w w' _ _ fuel o _ ho hrun ih =>
      have he := ((o.run_sound_kinds fuel w ih.wellIndexed).ok hrun).1
      exact ih.effects he (hops o ho).1 (hops o ho).2
  | env _ _ ih => exact ⟨ih.initialized, ih.mode, ih.wellIndexed, ih.held⟩
  | @turn w w' q q' r log c os round _ htake hchunk hturn ih =>
      cases hi : r.info with
      | some i => exact ((ih.turn_fid htake hi).1 round w' hturn).1
      | none =>
          obtain ⟨w'', hturn', -, -, hheld, -⟩ := ih.turn_bare htake hi
          obtain ⟨-, rfl⟩ := hturn.unique hturn'
          rcases htake with ⟨rfl, -⟩ | ⟨rfl, -⟩
          · exact hheld rfl
          · have hstarts := hok _ (hchunk rfl)
            simp [StartsWithFid, hi] at hstarts
  | nothing _ hbuf hread ih => exact (ih.nothing hbuf hread).1

end InotifyTools
