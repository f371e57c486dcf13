import InotifyTools.Proofs.SoundOps

set_option autoImplicit false

/-! # Every operation is sound: formats, filters, statistics and reading -/

namespace InotifyTools

variable {σ α β : Type} {S : Set Kind} [Sys σ] {w : World σ} {Q : α → World σ → Prop}

/-! ## Formats -/

theorem setEvstr_sound (i : Nat) (b : UInt8) : Sound S (setEvstr i b : M σ Unit) :=
  .bind (.guard (by decide)) fun _ => .scratch fun _ => rfl

theorem blitEvstr_sound (off : Nat) (bs : Bytes) : Sound S (blitEvstr off bs : M σ Unit) :=
  .bind (.guard (by decide)) fun _ => .scratch fun _ => rfl

theorem appendEventName_sound (sep : UInt8) (name : Bytes) :
    Sound S (appendEventName sep name : M σ Unit) := by
  unfold appendEventName
  refine .bind .getLib fun _ => .bind (setEvstr_sound _ _) fun _ => ?_
  refine .bind (setEvstr_sound _ _) fun _ => .bind .getLib fun _ => ?_
  exact .bind (blitEvstr_sound _ _) fun _ => setEvstr_sound _ _

theorem appendEventNames_sound (events : Int32) (sep : UInt8) (names : List (Int32 × Bytes)) :
    Sound S (appendEventNames events sep names : M σ Unit) := by
  induction names with
  | nil => exact .pure _
  | cons n names ih => exact .bind (.ite (appendEventName_sound _ _) (.pure _)) fun _ => ih

theorem hexEvents_sound (events : Int32) (sep : UInt8) :
    Sound S (hexEvents events sep : M σ Unit) := by
  unfold hexEvents
  exact .bind (setEvstr_sound _ _) fun _ => .bind (blitEvstr_sound _ _) fun _ => setEvstr_sound _ _

theorem eventToStrSep_sound (events : Int32) (sep : UInt8) :
    Sound S (eventToStrSep events sep : M σ Bytes) := by
  unfold eventToStrSep
  refine .bind (setEvstr_sound _ _) fun _ => .bind (setEvstr_sound _ _) fun _ => ?_
  refine .bind (appendEventNames_sound _ _ _) fun _ => .bind .getLib fun _ => ?_
  exact .bind (.ite (hexEvents_sound _ _) (.pure _)) fun _ => .bind .getLib fun _ => .pure _

theorem eventToStr_sound (events : Int32) : Sound S (eventToStr events : M σ Bytes) :=
  eventToStrSep_sound _ _

theorem OutCursor.put_sound (o : OutCursor) (c : UInt8) : Sound S (o.put c : M σ OutCursor) :=
  .bind (.guard (by decide)) fun _ => .pure _

theorem OutCursor.putHex_sound (o : OutCursor) (c : UInt32) (room : Nat) :
    Sound S (o.putHex c room : M σ OutCursor) := by
  unfold OutCursor.putHex
  exact .bind (.guard (by decide)) fun _ => .pure _

theorem timeString_sound : Sound S (timeString : M σ (Option Bytes)) := by
  unfold timeString
  refine .bind .getLib fun l => ?_
  split
  · exact .call fun os => .strftimeNow _ os
  · exact .pure _

theorem conversion_sound (path : EventPath) (ev : Event) (ch : UInt8) (room : Nat)
    (o : OutCursor) : Sound S (conversion path ev ch room o : M σ (Option OutCursor)) := by
  unfold conversion
  refine .ite (.bind (o.put_sound _) fun _ => .pure _) ?_
  refine .ite (.bind (o.put_sound _) fun _ => .pure _) ?_
  refine .ite (.bind (o.put_sound _) fun _ => .pure _) ?_
  refine .ite (.ite (.pure _) (.pure _)) ?_
  refine .ite (.pure _) ?_
  refine .ite (.bind (o.putHex_sound _ _) fun _ => .pure _) ?_
  refine .ite (.bind (eventToStr_sound _) fun _ => .pure _) ?_
  exact .bind timeString_sound fun
    | some t => .pure _
    | none => .pure _

theorem snprintfScan_sound (path : EventPath) (ev : Event) (size : Int) (fmt : Bytes)
    (o : OutCursor) : Sound S (snprintfScan path ev size fmt o : M σ (ScanEnd × OutCursor)) := by
  -- every call in the scan is on a shorter rest of the format
  induction hn : fmt.length using Nat.strong_induction_on generalizing fmt o with
  | _ n ih =>
      subst hn
      match fmt with
      | [] => exact .pure _
      | [c] =>
          unfold snprintfScan
          refine .ite (.pure _) (.ite ?_ ?_)
          · exact .bind (setError_sound _) fun _ => .pure _
          · exact .bind (o.put_sound c) fun _ => .pure _
      | c :: ch1 :: rest =>
          unfold snprintfScan
          refine .ite (.pure _) (.ite ?_ (.ite ?_ ?_))
          · exact .bind (o.put_sound c) fun o => ih _ (by simp) _ o rfl
          · exact .bind (conversion_sound _ _ _ _ o) fun
              | some o => ih _ (by simp only [List.length_cons]; omega) _ o rfl
              | none => .bind (setError_sound _) fun _ => .pure _
          · match rest with
            | [] => exact .pure _
            | ch2 :: rest =>
                refine .ite ?_ (ih _ (by simp) _ _ rfl)
                exact .bind (eventToStrSep_sound _ _) fun _ => ih _ (by simp only [List.length_cons]; omega) _ _ rfl

theorem snprintf_sound (out : NString) (size : Int32) (ev : Event) (fmt : Option Bytes) :
    Sound S (snprintf out size ev fmt : M σ (Int32 × NString)) := by
  unfold snprintf
  refine .bind (filenameFromEvent_sound ev) fun path => ?_
  refine .ite (.bind (setError_sound _) fun _ => .pure _) ?_
  refine .ite (.bind (setError_sound _) fun _ => .pure _) ?_
  exact .bind (snprintfScan_sound path ev _ _ _) fun
    | (.done, o) => .pure _
    | (.stop ret, o) => .pure _

theorem fprintfTo_sound (file : Stream) (ev : Event) (fmt : Option Bytes) :
    Sound S (fprintfTo file ev fmt : M σ Int32) := by
  unfold fprintfTo
  refine .bind .getLib fun _ => .bind (.scratch fun _ => rfl) fun _ => ?_
  refine .bind (snprintf_sound _ _ ev fmt) fun r => ?_
  refine .bind (.ite (.exec fun os => .fwrite _ _ os) (.pure _)) fun _ => ?_
  exact .bind (.scratch fun _ => rfl) fun _ => .pure _

theorem setPrintfTimefmt_sound (hS : Kind.config ∈ S) (fmt : Bytes) :
    Sound S (setPrintfTimefmt fmt : M σ Unit) := .config hS fun _ => rfl

theorem clearTimefmt_sound (hS : Kind.config ∈ S) : Sound S (clearTimefmt : M σ Unit) :=
  .config hS fun _ => rfl

/-! ## Filters -/

theorem doIgnoreEventsByRegex_sound (hS : Kind.config ∈ S) (pattern : Option Bytes) (flags : Int32)
    (invert : Bool) (recursive : Int32) :
    Sound S (doIgnoreEventsByRegex pattern flags invert recursive : M σ Bool) := by
  cases pattern with
  | none => exact .bind (.config hS fun _ => rfl) fun _ => .pure _
  | some pattern =>
      refine .bind (.config hS fun _ => rfl) fun _ => .bind (.call fun os => .regcomp _ _ os) fun
        | some re => .bind (.config hS fun _ => rfl) fun _ => .pure _
        | none => .bind (setError_sound _) fun _ => .pure _

/-! ## Statistics -/

theorem recordStats_sound (hS : Kind.stats ∈ S) (hw : w.lib.store.WellIndexed)
    (hcoll : w.lib.collectStats = true) (wd : Int32) (mask : UInt32) :
    SoundAt S w (recordStats wd mask : M σ Unit) fun _ _ => True := by
  refine .watchFromWd hw (.pure trivial) fun i v _ hv => ?_
  refine .effect (.inr hS) rfl ?_ trivial
  dsimp only
  rw [hv]
  exact .counted w hv hcoll _ _

theorem Effects.resetStats (hS : Kind.stats ∈ S) (ids : List Nat)
    (hcoll : w.lib.collectStats = true) :
    Effects S w { w with lib := { w.lib with store := w.lib.store.resetStats ids } } := by
  induction ids generalizing w with
  | nil => exact .refl w
  | cons id ids ih =>
      cases hv : w.lib.store.watches[id]? with
      | none =>
          have hstep : w.lib.store.resetStats (id :: ids) = w.lib.store.resetStats ids := by
            simp [Store.resetStats, hv]
          rw [hstep]
          exact ih hcoll
      | some v =>
          have hstep : w.lib.store.resetStats (id :: ids)
              = (w.lib.store.setStats id v {}).resetStats ids := by
            simp [Store.resetStats, hv]
          rw [hstep]
          exact (Effects.single hS (.counted w hv hcoll {} w.lib.totals)).trans
            (ih (w := { w with lib := { w.lib with store := w.lib.store.setStats id v {} } }) hcoll)

theorem initializeStats_sound (hS : Kind.stats ∈ S) :
    Sound S (initializeStats : M σ Unit) := by
  refine .bind assertInit_sound fun _ => ?_
  intro w hw
  let w₁ : World σ :=
    { w with lib := { w.lib with
        store := if w.lib.collectStats then w.lib.store.resetStats w.lib.store.byWd.values
          else w.lib.store } }
  have hreset : Effects S w w₁ := by
    dsimp only [w₁]
    by_cases hcoll : w.lib.collectStats = true
    · rw [if_pos hcoll]
      exact .resetStats hS _ hcoll
    · rw [if_neg hcoll]
      exact .refl w
  exact .run (n := pure ()) _ rfl
    (hreset.trans (.single hS (.collecting w₁ true {} nofun))) (.pure trivial)

theorem getStatByWd_sound (wd event : Int32) : Sound S (getStatByWd wd event : M σ Int32) := by
  refine .bind .getLib fun _ => .ite (.pure _) ?_
  intro w hw
  refine .watchFromWd hw (.pure trivial) fun i v _ hv => .watch hv ?_
  cases v.stats.get event <;> exact .pure trivial

theorem getStatTotal_sound (event : Int32) : Sound S (getStatTotal event : M σ Int32) := by
  unfold getStatTotal
  refine .bind .getLib fun l => .ite (.pure _) ?_
  cases l.totals.get event <;> exact .pure _

theorem getStatByFilename_sound (n : Bytes) (event : Int32) :
    Sound S (getStatByFilename n event : M σ Int32) :=
  .bind (wdFromFilename_sound n) fun _ => getStatByWd_sound _ _

omit [Sys σ] in
/-- The watches `ids` are all there, and are listed. -/
theorem watchesOf_run {ids : List Nat} (h : ∀ id ∈ ids, ∃ v, w.lib.store.watches[id]? = some v) :
    ∃ vs, watchesOf ids w = .ok (vs, w) ∧
      ∀ p ∈ vs, p.1 ∈ ids ∧ w.lib.store.watches[p.1]? = some p.2 := by
  induction ids with
  | nil => exact ⟨[], rfl, nofun⟩
  | cons id ids ih =>
      obtain ⟨v, hv⟩ := h id List.mem_cons_self
      obtain ⟨vs, hvs, hmem⟩ := ih fun i hi => h i (List.mem_cons_of_mem _ hi)
      refine ⟨(id, v) :: vs, ?_, fun p hp => ?_⟩
      · unfold watchesOf
        rw [Prog.bind_run_ok (watch_run hv), Prog.bind_run_ok hvs]
        rfl
      · rcases List.mem_cons.1 hp with rfl | hp
        · exact ⟨List.mem_cons_self, hv⟩
        · exact ⟨List.mem_cons_of_mem _ (hmem p hp).1, (hmem p hp).2⟩

omit [Sys σ] in
/-- The watches listed by the index over descriptors are all there. -/
theorem watches_of_byWd (hw : w.lib.store.WellIndexed) :
    ∀ id ∈ w.lib.store.byWd.values, ∃ v, w.lib.store.watches[id]? = some v := by
  intro id hid
  obtain ⟨wd, hwd⟩ := (KeyedMap.mem_values _ _).1 hid
  obtain ⟨v, hv, -⟩ := hw.byWd _ _ hwd
  exact ⟨v, hv⟩

theorem watchesSortedByEvent_sound (sortEvent : Int32) :
    Sound S (watchesSortedByEvent sortEvent : M σ _) := by
  intro w hw
  unfold watchesSortedByEvent
  obtain ⟨vs, hvs, -⟩ := watchesOf_run (watches_of_byWd hw)
  exact .getLib (.step w hvs (.refl w) (.pure trivial))

/-! ## Reading -/

theorem getStream_sound : Sound S (getStream : M σ EventStream) := .bind .getLib fun _ => .pure _

section Stream

variable (hs : Kind.stream ∈ S)
include hs

theorem blitEvbuf_sound (off : Nat) (bs : Bytes) : Sound S (blitEvbuf off bs : M σ Unit) :=
  .bind (.guard (by decide)) fun _ => .modifyStream hs _

theorem wrU32_sound (off : Nat) (v : UInt32) : Sound S (wrU32 off v : M σ Unit) :=
  blitEvbuf_sound hs _ _

theorem bufferedEvent_sound : Sound S (bufferedEvent : M σ Bool) := by
  unfold bufferedEvent
  refine .bind getStream_sound fun s => .ite ?_ (.ite ?_ (.pure _))
  · refine .bind (.modifyStream hs _) fun _ => .bind .getLib fun _ => .ite ?_ ?_
    · exact .bind (.guard (by decide)) fun _ => .bind (.modifyStream hs _) fun _ => .pure _
    · exact .bind (.modifyStream hs _) fun _ => .pure _
  · exact .bind (.modifyStream hs _) fun _ => .pure _

omit hs in
theorem waitForBytes_sound (numEvents : Int32) (fuel : Nat) :
    Sound S (waitForBytes numEvents fuel : M σ Int32) := by
  induction fuel with
  | zero => exact .fault (by decide)
  | succ fuel ih =>
      unfold waitForBytes
      refine .bind .getLib fun _ => .bind (.call fun os => .fionread _ os) fun r => ?_
      exact .ite (.pure _) ih

theorem readEvents_sound (fuel : Nat) (timeout : Int) (numEvents : Int32) :
    Sound S (readEvents fuel timeout numEvents : M σ Bool) := by
  unfold readEvents
  refine .bind .getLib fun _ => .bind (.call fun os => .ppoll _ _ os) fun rc => ?_
  refine .ite (.bind errno_sound fun _ => .bind (setError_sound _) fun _ => .pure _) ?_
  refine .ite (.pure _) (.bind (waitForBytes_sound _ _) fun rc => ?_)
  refine .ite (.bind errno_sound fun _ => .bind (setError_sound _) fun _ => .pure _) ?_
  refine .bind .getLib fun l => .bind (.call fun os => .read _ _ os) fun
    | none => .bind errno_sound fun _ => .bind (setError_sound _) fun _ => .pure _
    | some data => .ite (.bind (ceprint_sound _) fun _ => .pure _) ?_
  exact .bind (.modifyStream hs _) fun _ => .pure _

theorem writeEvent_sound (metaOff : Nat) (wd : Option Int32) (info : FidInfo) :
    Sound S (writeEvent metaOff wd info : M σ Unit) := by
  unfold writeEvent
  refine .bind (.guard (by decide)) fun _ => .bind getStream_sound fun _ => ?_
  refine .bind (wrU32_sound hs _ _) fun _ => .bind (wrU32_sound hs _ _) fun _ => ?_
  refine .bind (wrU32_sound hs _ _) fun _ => ?_
  cases info.nameOff with
  | none => exact .pure _
  | some src => exact .ite (.modifyStream hs _) (.pure _)

end Stream

/-- The watch of a fid event, or a new one. -/
theorem wdOfFid_sound (hw : Kind.watch ∈ S) (hl : Kind.lifecycle ∉ S) (fuel : Nat) (fid : Bytes) :
    SoundFid S (wdOfFid fuel fid : M σ (Option Int32 × Option CString)) := by
  intro w hi hm
  unfold wdOfFid
  refine .watchFromFid hi ?_ fun i v hv => .watch hv (.pure trivial)
  refine .bind hi ((filenameFromFid_sound fid).at hi) fun p w₁ hi₁ he _ => ?_
  cases p with
  | none => exact .pure trivial
  | some p =>
      exact .bind hi₁ (createWatch_fid_sound hw hl fuel fid _ _ w₁ hi₁ (hm.effects hl he))
        fun _ _ _ _ _ => .pure trivial

section Events

variable (hs : Kind.stream ∈ S) (hw : Kind.watch ∈ S) (hl : Kind.lifecycle ∉ S)
include hs hw hl

theorem convertFanotifyEvent_sound (fuel : Nat) :
    SoundFid S (convertFanotifyEvent fuel : M σ (Option Int32)) := by
  unfold convertFanotifyEvent
  refine .bind hl getStream_sound.fid fun _ => .bind hl getStream_sound.fid fun _ => ?_
  refine .bind hl (Sound.modifyStream hs _).fid fun _ => .bind hl getStream_sound.fid fun s => ?_
  dsimp only
  split
  · exact Sound.fid (.bind (ceprint_sound _) fun _ => .pure _)
  · next info _ =>
      refine .bind hl (Sound.fid ?_) fun _ => .bind hl getStream_sound.fid fun s => ?_
      · cases info.newLen with
        | none => exact .pure _
        | some newLen => exact blitEvbuf_sound hs _ _
      refine .bind hl Sound.getLib.fid fun _ => ?_
      refine .bind hl (Sound.ite (cprint_sound _) (.pure _)).fid fun _ => ?_
      refine .bind hl (Sound.modifyStream hs _).fid fun _ => ?_
      refine .bind hl (Sound.guard (by decide)).fid fun _ => ?_
      refine .bind hl (Sound.fid (.bind .getLib fun _ => .pure _)) fun _ => ?_
      refine .bind hl (wdOfFid_sound hw hl fuel _) fun r => ?_
      refine .bind hl Sound.getLib.fid fun _ => ?_
      refine .bind hl (Sound.ite (cprint_sound _) (.pure _)).fid fun _ => ?_
      refine .bind hl (writeEvent_sound hs _ _ _).fid fun _ => ?_
      exact .bind hl getStream_sound.fid fun _ => Sound.fid (.pure _)

theorem decodeEvent_sound (fuel : Nat) : Sound S (decodeEvent fuel : M σ (Option Int32)) := by
  unfold decodeEvent
  refine .bind (.modifyStream hs _) fun _ => ?_
  intro w hi
  refine .getLib (.ite (fun hm => ?_) fun _ => ?_)
  · exact convertFanotifyEvent_sound hs hw hl fuel w hi (.inl hm)
  · exact Sound.at (.bind (.modifyStream hs _) fun _ => .pure _) hi

omit hw hl in
theorem advance_sound : Sound S (advance : M σ Unit) :=
  .bind (.modifyStream hs _) fun _ => .bind getStream_sound fun _ =>
    .bind (niceassert_sound _ _ _ _) fun _ => .modifyStream hs _

omit hs hw hl in
theorem filterEvent_sound : Sound S (filterEvent : M σ Bool) := by
  unfold filterEvent
  refine .bind .getLib fun l => ?_
  cases l.regex with
  | none => exact .pure _
  | some re => exact .ite (.pure _) (.bind (snprintf_sound _ _ _ _) fun _ => .pure _)

omit hs hw hl in
theorem deliver_sound (ht : Kind.stats ∈ S) (pid : Int32) :
    Sound S (deliver pid : M σ Round) := by
  unfold deliver
  refine .bind .getLib fun _ => .ite (.pure _) (.bind filterEvent_sound fun _ => .ite (.pure _) ?_)
  intro w hw
  refine .getLib (.bind (Q := fun _ _ => True) hw ?_ fun _ _ _ _ _ => .pure trivial)
  exact .ite (recordStats_sound ht hw · _ _) fun _ => .pure trivial

theorem eventRound_sound (ht : Kind.stats ∈ S) (fuel : Nat) (timeout : Int) (numEvents : Int32) :
    Sound S (eventRound fuel timeout numEvents : M σ Round) := by
  unfold eventRound
  refine .bind (setError_sound 0) fun _ => .bind (bufferedEvent_sound hs) fun _ => ?_
  refine .bind (.ite (.pure _) (readEvents_sound hs _ _ _)) fun _ => .ite (.pure _) ?_
  exact .bind (decodeEvent_sound hs hw hl fuel) fun
    | none => .pure _
    | some pid => .bind (advance_sound hs) fun _ => deliver_sound ht pid

theorem nextEventsLoop_sound (ht : Kind.stats ∈ S) (timeout : Int) (numEvents : Int32)
    (fuel : Nat) : Sound S (nextEventsLoop timeout numEvents fuel : M σ Bool) := by
  induction fuel with
  | zero => exact .fault (by decide)
  | succ fuel ih =>
      exact .bind (eventRound_sound hs hw hl ht fuel timeout numEvents) fun
        | .fail => .pure _
        | .event => .pure _
        | .skip => ih

theorem nextEvents_sound (ht : Kind.stats ∈ S) (fuel : Nat) (timeout : Int) (numEvents : Int32) :
    Sound S (nextEvents fuel timeout numEvents : M σ (Option Event)) := by
  refine .bind (.bind assertInit_sound fun _ => .bind (niceassert_sound _ _ _ _) fun _ => ?_)
    fun _ => .ite (.bind getStream_sound fun _ => .pure _) (.pure _)
  exact .ite (.pure _) (nextEventsLoop_sound hs hw hl ht _ _ _)

theorem nextEvent_sound (ht : Kind.stats ∈ S) (fuel : Nat) (timeout : Int) :
    Sound S (nextEvent fuel timeout : M σ (Option Event)) := nextEvents_sound hs hw hl ht _ _ _

end Events

end InotifyTools
