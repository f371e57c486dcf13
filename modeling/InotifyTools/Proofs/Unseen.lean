import InotifyTools.Proofs.MoreFuel
import InotifyTools.Proofs.Silence

set_option autoImplicit false

/-! # What is seen of a rejected event

An event that the filters reject is dropped by `next_event`, or it is the creation or move-in of a
directory, which recursive watching has to hear of. Of those the programs show nothing only under
further conditions, which are made explicit here. -/

namespace InotifyTools

variable {σ : Type} [Sys σ] {w v w' : World σ}

/-! ## Rejected events -/

/-- The filters reject the event taken in `v`: its path, of at most 4095 bytes, matches the pattern to
    exclude, or does not match the pattern to include. -/
def World.Rejects (v : World σ) : Prop :=
  ∃ re path v', v.lib.regex = some re ∧
    filenameFromEvent v.lib.stream.currentEvent v = .ok (path, v') ∧
    path.dirname.length + path.eventname.length < maxStrlen ∧
    re (cstring (path.dirname ++ path.eventname)) ≠ v.lib.invertRegexp

/-- A rejected event is delivered only if it is exempt. -/
theorem World.Rejects.exempt (h : v.Rejects) {pid : Int32}
    (hrun : deliver pid v = .ok (.event, w')) :
    filterExempt v.lib v.lib.stream.currentEvent.mask = true := by
  obtain ⟨re, path, v', hre, hpath, hlen, hrej⟩ := h
  by_contra hexempt
  obtain ⟨ret, out, hprint, hout⟩ := snprintf_path_run hpath
  have hdrop : filterEvent v = .ok (true, v') := by
    unfold filterEvent
    rw [getLib_bind, hre]
    dsimp only
    rw [if_neg hexempt, Prog.bind_run_ok hprint]
    show Except.ok (decide (re (cstring out.asBytes) ≠ v.lib.invertRegexp), v') = _
    rw [hout, matchName_eq (filenameFromEvent_dirname hpath) hlen, decide_eq_true hrej]
  rw [deliver_filtered hdrop] at hrun
  split at hrun <;> cases hrun

/-- An exempt event is counted, and delivered. -/
theorem deliver_exempt (h : filterExempt v.lib v.lib.stream.currentEvent.mask = true) {pid : Int32}
    (hrun : deliver pid v = .ok (.event, w')) : w' = v.delivered := by
  have hkeep : filterEvent v = .ok (false, v) := by
    unfold filterEvent
    rw [getLib_bind]
    cases v.lib.regex with
    | none => rfl
    | some re => exact congrFun (if_pos h) v
  rw [deliver_filtered hkeep] at hrun
  split at hrun <;> cases hrun
  rfl

/-! ## What next_event meets -/

/-- A turn of the loop up to the record that it converts; false without one. -/
def readyRecord (fuel : Nat) (timeout : Int) (numEvents : Int32) : M σ Bool := do
  setError 0
  let buffered ← bufferedEvent
  if buffered then pure true else readEvents fuel timeout numEvents

theorem takeRecord_eq (fuel : Nat) (timeout : Int) (numEvents : Int32) :
    (takeRecord fuel timeout numEvents : M σ (Option Int32)) =
      readyRecord fuel timeout numEvents >>= fun ready => if !ready then return none else do
        match ← decodeEvent fuel with
        | none => return none
        | some eventPid => do
            advance
            return some eventPid := by
  rw [takeRecord, readyRecord, Prog.bind_assoc]
  exact congrArg _ (funext fun _ => (Prog.bind_assoc _ _ _).symm)

/-- `Meets c fuel w n u pid v`: from `w`, the loop of `next_events` drops some events and comes to `u`,
    fuel for `n` more turns being left; there it takes, in `v`, an event that the process `pid` caused. -/
inductive Meets (c : Call) : Nat → World σ → Nat → World σ → Int32 → World σ → Prop
  | here {n : Nat} {u v : World σ} {pid : Int32}
      (htake : takeRecord n c.timeout c.numEvents u = .ok (some pid, v)) : Meets c (n + 1) u n u pid v
  | later {fuel n : Nat} {w w₁ u v : World σ} {pid : Int32}
      (hround : eventRound fuel c.timeout c.numEvents w = .ok (.skip, w₁))
      (h : Meets c fuel w₁ n u pid v) : Meets c (fuel + 1) w n u pid v

/-- `Receives c fuel w v w'`: what the loop meets in `v` is returned in `w'`. -/
def Receives (c : Call) (fuel : Nat) (w v w' : World σ) : Prop :=
  ∃ n u pid, Meets c fuel w n u pid v ∧ deliver pid v = .ok (.event, w')

theorem eventRound_of_take {c : Call} {n : Nat} {u : World σ} {pid : Int32}
    (htake : takeRecord n c.timeout c.numEvents u = .ok (some pid, v)) :
    eventRound n c.timeout c.numEvents u = deliver pid v :=
  (congrFun (eventRound_eq _ _ _) _).trans (Prog.bind_run_ok htake)

/-- What the loop meets and does not drop, the call returns. -/
theorem Receives.run {c : Call} {fuel : Nat} (h : Receives c fuel w v w') (hi : w.lib.initialized = true) :
    nextEvents fuel c.timeout c.numEvents w = .ok (some w'.lib.stream.currentEvent, w') := by
  obtain ⟨n, u, pid, hmeets, hdeliver⟩ := h
  have hloop : nextEventsLoop c.timeout c.numEvents fuel w = .ok (true, w') := by
    clear hi
    induction hmeets with
    | here htake =>
        unfold nextEventsLoop
        rw [Prog.bind_run_ok ((eventRound_of_take htake).trans hdeliver)]
        rfl
    | later hround _ ih =>
        unfold nextEventsLoop
        rw [Prog.bind_run_ok hround]
        exact ih hdeliver
  rw [nextEvents_eq hi, Prog.bind_run_ok hloop]
  rfl

/-- What the call returns, the loop has met. -/
theorem nextEvents_receives (hi : w.lib.initialized = true) {c : Call} {fuel : Nat} {ev : Event}
    (hrun : nextEvents fuel c.timeout c.numEvents w = .ok (some ev, w')) :
    ∃ v, Receives c fuel w v w' := by
  -- on the turns of the loop, each of which drops an event or returns it
  have hloop : ∀ {fuel : Nat} {w w' : World σ},
      nextEventsLoop c.timeout c.numEvents fuel w = .ok (true, w') → ∃ v, Receives c fuel w v w' := by
    intro fuel
    induction fuel with
    | zero => exact fun h => nomatch h
    | succ fuel ih =>
        intro w w' hrun
        obtain ⟨round, w₁, hround, hrest⟩ := Prog.bind_ok hrun
        cases round with
        | fail => cases hrest
        | skip =>
            obtain ⟨v, n, u, pid, hmeets, hdeliver⟩ := ih hrest
            exact ⟨v, n, u, pid, .later hround hmeets, hdeliver⟩
        | event =>
            cases hrest
            rw [eventRound_eq] at hround
            obtain ⟨pid, v, htake, hdeliver⟩ := Prog.bind_ok hround
            cases pid with
            | none => cases hdeliver
            | some pid => exact ⟨v, fuel, w, pid, .here htake, hdeliver⟩
  rw [nextEvents_eq hi] at hrun
  obtain ⟨ok, w₁, hl, hrest⟩ := Prog.bind_ok hrun
  cases ok with
  | false => cases hrest
  | true =>
      cases hrest
      exact hloop hl

/-- A record that is dropped does not end the call: what the call does, it does from behind it. -/
theorem Meets.drop {c : Call} {fuel n : Nat} {u : World σ} {pid : Int32}
    (h : Meets c fuel w n u pid v) (hdrop : deliver pid v = .ok (.skip, w')) {r : Bool × World σ}
    (hrun : nextEventsLoop c.timeout c.numEvents fuel w = .ok r) :
    nextEventsLoop c.timeout c.numEvents fuel w' = .ok r := by
  induction h with
  | @here n u v pid htake =>
      refine nextEventsLoop_extends (Nat.le_succ n) _ _ _ _ ?_
      unfold nextEventsLoop at hrun
      rwa [Prog.bind_run_ok ((eventRound_of_take htake).trans hdrop)] at hrun
  | @later fuel n w w₁ u v pid hround _ ih =>
      refine nextEventsLoop_extends (Nat.le_succ fuel) _ _ _ _ (ih hdrop ?_)
      unfold nextEventsLoop at hrun
      rwa [Prog.bind_run_ok hround] at hrun

theorem Meets.goes_on {c : Call} {fuel n : Nat} {u : World σ} {pid : Int32}
    (h : Meets c fuel w n u pid v) (hdrop : deliver pid v = .ok (.skip, w'))
    (hi : w.lib.initialized = true) (hi' : w'.lib.initialized = true) {r : Option Event × World σ}
    (hrun : nextEvents fuel c.timeout c.numEvents w = .ok r) :
    nextEvents fuel c.timeout c.numEvents w' = .ok r := by
  obtain ⟨e, x⟩ := r
  rw [nextEvents_eq hi] at hrun
  obtain ⟨ok, y, hloop, hrest⟩ := Prog.bind_ok hrun
  rw [nextEvents_eq hi', Prog.bind_run_ok (h.drop hdrop hloop)]
  exact hrest

/-- Taking a record counts nothing. -/
theorem takeRecord_uncounted (hw : w.lib.store.WellIndexed) {fuel : Nat} {timeout : Int}
    {numEvents : Int32} {pid : Option Int32}
    (hrun : takeRecord fuel timeout numEvents w = .ok (pid, v)) : Uncounted w v :=
  ((takeRecord_enters fuel timeout numEvents w hw).ok hrun).1

/-- Up to the event it meets, a call counts nothing. -/
theorem Meets.uncounted {c : Call} {fuel n : Nat} {u : World σ} {pid : Int32}
    (h : Meets c fuel w n u pid v) (hw : w.lib.store.WellIndexed) :
    Uncounted w u ∧ takeRecord n c.timeout c.numEvents u = .ok (some pid, v) := by
  induction h with
  | here htake => exact ⟨.refl _, htake⟩
  | later hround _ ih =>
      have he : Uncounted _ _ := (eventRound_counts hw (.refl _) _ _ _).ok hround
      obtain ⟨he', htake⟩ := ih (he.wellIndexed hw)
      exact ⟨he.trans he', htake⟩

/-- The record that a turn from `u` converts is told of on `stdout`. -/
def World.Tells (u : World σ) (c : Call) (fuel : Nat) : Prop :=
  ∃ x, readyRecord fuel c.timeout c.numEvents u = .ok (true, x) ∧ x.TellsFid

/-- With inotify no record is told of. -/
theorem World.not_tells (hm : w.lib.fanotifyMode = false) (hw : w.lib.store.WellIndexed) (c : Call)
    (fuel : Nat) : ¬ w.Tells c fuel := by
  rintro ⟨x, hready, hfan, -⟩
  have hsound : Sound {.stream} (readyRecord fuel c.timeout c.numEvents : M σ Bool) :=
    .bind (setError_sound 0) fun _ => .bind (bufferedEvent_sound rfl) fun _ =>
      .ite (.pure _) (readEvents_sound (Set.mem_singleton _) _ _ _)
  have hmode := ((hsound w hw).ok hready).1.fanotifyMode_eq nofun
  exact absurd (hfan.symm.trans (hmode.trans hm)) (by decide)

/-! ## What the programs do with it -/

/-- The call of `next_event` with a timeout. -/
def Call.one (timeout : Int) : Call where
  timeout := if timeout = 0 then -1 else timeout
  numEvents := 1
  pos := one_pos
  le := one_le

theorem nextEvent_one (fuel : Nat) (timeout : Int) :
    (nextEvent fuel timeout : M σ (Option Event)) =
      nextEvents fuel (Call.one timeout).timeout (Call.one timeout).numEvents := rfl

/-- No counter of a watch has changed from `w` to `w'`, and no total; watches may be new. -/
def SameCounters (w w' : World σ) : Prop :=
  w'.lib.totals = w.lib.totals ∧ ∀ (wd : Int32) (id : Nat) (u' : Watch),
    w'.lib.store.byWd[wd]? = some id → w'.lib.store.watches[id]? = some u' →
      (w.lib.store.byWd[wd]? = some id ∧
        ∃ u, w.lib.store.watches[id]? = some u ∧ u.stats = u'.stats) ∨ u'.stats = {}

theorem Uncounted.sameCounters (h : Uncounted w w') (hw : w.lib.store.WellIndexed) :
    SameCounters w w' := by
  have he : Effects Uncounting w w' := h.mono fun k hk => by
    rcases hk with rfl | rfl <;> exact ⟨nofun, nofun⟩
  refine ⟨congrArg Prod.snd he.totals_eq, fun wd id u' hid hu' => ?_⟩
  exact (he.indexed_stats hw hid hu').imp_right And.right

namespace Inotifywait

/-- What is left of `waitEvent` when nothing is printed and the program goes on: the event is followed
    as a move. -/
def followEvent (fuel : Nat) (o : Opts) (moves : MoveTracker) (event : Event) :
    M σ MoveTracker := do
  if o.filesystem then
    return moves
  let moves ← moves.handle fuel event (o.monitor ∧ o.recursive ≠ 0) (watchedEvents o) (o.quiet = 0)
    (outputError o.syslog)
  exec Sys.flushAll
  return moves

theorem waitEvent_unshown {o : Opts} (hm : o.monitor = true) {event : Event}
    (hs : shown o event = false) (fuel : Nat) (moves : MoveTracker) :
    (waitEvent fuel o moves event : M σ WaitRound) =
      followEvent fuel o moves event >>= fun moves => pure (.again moves) := by
  unfold waitEvent followEvent
  rw [hs, hm, if_neg Bool.false_ne_true, Prog.pure_bind]
  by_cases hf : o.filesystem = true
  · rw [if_pos hf, if_pos hf]
    rfl
  · rw [if_neg hf, if_neg hf, Prog.bind_assoc]
    rfl

end Inotifywait

namespace Tool

/-- A turn of inotifywait makes something of what `next_event` returns. -/
theorem turn_wait (o : Inotifywait.Opts) (fuel : Nat) (moves : MoveTracker) :
    ∃ f : Option Event → M σ (Option MoveTracker),
      (Tool.wait o).turn fuel moves = nextEvent fuel o.timeout >>= f ∧
        ∀ ev, f (some ev) = Inotifywait.waitEvent fuel o moves ev >>= fun round => pure round.moves :=
  ⟨_, Prog.bind_assoc _ _ _, fun _ => rfl⟩

/-- `tool.Meets fuel w n u pid v`: in a turn from `w`, `next_event` drops some events and comes to `u`,
    where it takes, in `v`, an event that the process `pid` caused. -/
def Meets (fuel : Nat) (w : World σ) (n : Nat) (u : World σ) (pid : Int32) (v : World σ) : Tool → Prop
  | .wait o => InotifyTools.Meets (.one o.timeout) fuel w n u pid v
  | .watch o => ∃ w₁, Inotifywatch.checkPrintNow o w = .ok ((), w₁) ∧
      InotifyTools.Meets (.one blockingTimeout) fuel w₁ n u pid v

/-- In a turn from `w`, `next_event` returns an event in `w'`. -/
def Returns (fuel : Nat) (w w' : World σ) : Tool → Prop
  | .wait o => ∃ ev, nextEvent fuel o.timeout w = .ok (some ev, w')
  | .watch o => ∃ w₁ ev, Inotifywatch.checkPrintNow o w = .ok ((), w₁) ∧
      nextEvent fuel blockingTimeout w₁ = .ok (some ev, w')

/-- Nothing is seen of the event dropped from `u` to `w'` in a turn from `w`: inotifywait prints nothing,
    and goes on as from `w'`; inotifywatch counts nothing. -/
def Ignores (fuel : Nat) (w u w' : World (Taped σ)) : Tool → Prop
  | .wait o => NothingPrinted u w' ∧ ∀ moves r, (Tool.wait o).turn fuel moves w = .ok r →
      (Tool.wait o).turn fuel moves w' = .ok r
  | .watch _ => SameCounters u w'

/-- Nothing is seen of the event met in `u` and returned in `w'` in a turn from `w`: inotifywait only
    follows it as a move, prints nothing, and goes on; inotifywatch does not count it. -/
def Unnoticed (fuel : Nat) (w u w' : World (Taped σ)) : Tool → Prop
  | .wait o => ∀ moves, (Tool.wait o).turn fuel moves w =
        (Inotifywait.followEvent fuel o moves w'.lib.stream.currentEvent >>= fun moves =>
          pure (some moves)) w' ∧
      ∀ next w'', (Tool.wait o).turn fuel moves w = .ok (next, w'') →
        next.isSome ∧ NothingPrinted u w''
  | .watch _ => SameCounters w w'

/-- Nothing is seen of the rejected events of a turn from `w`. Those that `next_event` drops are ignored;
    every event that it returns it has met, and if it is rejected, it goes unnoticed. -/
structure HidesRejected (tool : Tool) (w : World (Taped σ)) : Prop where
  dropped (fuel n : Nat) (u v w' : World (Taped σ)) (pid : Int32) (h : tool.Meets fuel w n u pid v)
    (hrej : v.Rejects) (hdrop : deliver pid v = .ok (.skip, w')) : tool.Ignores fuel w u w'
  returned (fuel : Nat) (w' : World (Taped σ)) (h : tool.Returns fuel w w') :
    ∃ n u pid v, tool.Meets fuel w n u pid v ∧ deliver pid v = .ok (.event, w') ∧
      (v.Rejects → tool.Unnoticed fuel w u w')

/-- The event met in `v` is let through whatever the filters say: with recursive watching, the creation
    or move-in of a directory that another process has caused. -/
def LetsThrough (v : World σ) (pid : Int32) : Prop :=
  filterExempt v.lib v.lib.stream.currentEvent.mask = true ∧
    ¬ (v.lib.selfPid ≠ 0 ∧ v.lib.selfPid = pid)

/-- The event met in `u` and taken in `v` is not seen. inotifywait does not tell of its fid, and if it is
    let through, monitors and was not asked to show it. If it is let through, inotifywatch does not watch
    under its descriptor. -/
def Overlooks (n : Nat) (u : World σ) (pid : Int32) (v : World σ) : Tool → Prop
  | .wait o => ¬ u.Tells (.one o.timeout) n ∧
      (LetsThrough v pid → o.monitor = true ∧ Inotifywait.shown o v.lib.stream.currentEvent = false)
  | .watch _ => LetsThrough v pid → v.lib.store.byWd[v.lib.stream.currentEvent.wd]? = none

/-- Every rejected event that is met in a turn from `w` is overlooked. -/
def Spares (tool : Tool) (w : World σ) : Prop :=
  ∀ (fuel n : Nat) (u v : World σ) (pid : Int32), tool.Meets fuel w n u pid v → v.Rejects →
    tool.Overlooks n u pid v

theorem Meets.uncounted {tool : Tool} {fuel n : Nat} {u : World σ} {pid : Int32}
    (h : tool.Meets fuel w n u pid v) (hw : w.lib.store.WellIndexed) :
    Uncounted w u ∧ Uncounted u v := by
  cases tool with
  | wait o =>
      obtain ⟨he, htake⟩ := InotifyTools.Meets.uncounted h hw
      exact ⟨he, takeRecord_uncounted (he.wellIndexed hw) htake⟩
  | watch o =>
      obtain ⟨w₁, hprint, hmeets⟩ := h
      have he : Uncounted w w₁ := ((Inotifywatch.checkPrintNow_sound o w hw).ok hprint).1
      obtain ⟨he', htake⟩ := hmeets.uncounted (he.wellIndexed hw)
      exact ⟨he.trans he', takeRecord_uncounted ((he.trans he').wellIndexed hw) htake⟩

/-- What `next_event` returns, it has met. -/
theorem Returns.meets {tool : Tool} {fuel : Nat} (h : tool.Returns fuel w w')
    (hi : w.lib.initialized = true) (hw : w.lib.store.WellIndexed) :
    ∃ n u pid v, tool.Meets fuel w n u pid v ∧ deliver pid v = .ok (.event, w') := by
  cases tool with
  | wait o =>
      obtain ⟨ev, hrun⟩ := h
      obtain ⟨v, n, u, pid, hmeets, hdeliver⟩ := nextEvents_receives (c := .one o.timeout) hi hrun
      exact ⟨n, u, pid, v, hmeets, hdeliver⟩
  | watch o =>
      obtain ⟨w₁, ev, hprint, hrun⟩ := h
      have he := ((Inotifywatch.checkPrintNow_sound (S := ∅) o w hw).ok hprint).1
      have hi₁ : w₁.lib.initialized = true := (he.initialized_eq nofun).trans hi
      obtain ⟨v, n, u, pid, hmeets, hdeliver⟩ :=
        nextEvents_receives (c := .one blockingTimeout) hi₁ hrun
      exact ⟨n, u, pid, v, ⟨w₁, hprint, hmeets⟩, hdeliver⟩

/-- A rejected event that is delivered was let through. -/
theorem letsThrough_of_delivered (hrej : v.Rejects) {pid : Int32}
    (hdeliver : deliver pid v = .ok (.event, w')) : LetsThrough v pid := by
  refine ⟨hrej.exempt hdeliver, fun hself => ?_⟩
  unfold deliver at hdeliver
  rw [getLib_bind, if_pos hself] at hdeliver
  cases hdeliver

section

variable {u v w w' : World (Taped σ)}

/-- Taking a record that is not told of prints nothing. -/
theorem takeRecord_silent (hw : u.lib.store.WellIndexed) {c : Call} {n : Nat} {pid : Option Int32}
    (htells : ¬ u.Tells c n) (hrun : takeRecord n c.timeout c.numEvents u = .ok (pid, v)) :
    NothingPrinted u v := by
  have hready : Mute (readyRecord n c.timeout c.numEvents : M (Taped σ) Bool) :=
    .bind (modifyLib_mute _) fun _ => .bind bufferedEvent_mute fun _ =>
      .ite (.pure _) (readEvents_mute _ _ _)
  have hsound : Sound {.stream} (readyRecord n c.timeout c.numEvents : M (Taped σ) Bool) :=
    .bind (setError_sound 0) fun _ => .bind (bufferedEvent_sound rfl) fun _ =>
      .ite (.pure _) (readEvents_sound (Set.mem_singleton _) _ _ _)
  rw [takeRecord_eq] at hrun
  obtain ⟨ready, x, hx, hrest⟩ := Prog.bind_ok hrun
  have hread := hready _ _ _ hx
  have hx' := ((hsound u hw).ok hx).1.wellIndexed hw
  cases ready with
  | false =>
      cases hrest
      exact hread
  | true =>
      obtain ⟨pid, y, hdecode, hrest⟩ := Prog.bind_ok hrest
      have hdecoded := decodeEvent_silent hx' (fun h => htells ⟨x, hx, h⟩) hdecode
      have htaken := hread.tape
      cases pid with
      | none =>
          cases hrest
          exact ⟨hdecoded.tape.trans hread.tape⟩
      | some pid =>
          obtain ⟨_, z, hadvance, hrest⟩ := Prog.bind_ok hrest
          cases hrest
          exact ⟨(advance_mute _ _ _ hadvance).tape.trans (hdecoded.tape.trans hread.tape)⟩

/-- Following an event prints nothing. -/
theorem followEvent_mute (fuel : Nat) (o : Inotifywait.Opts) (moves : MoveTracker) (ev : Event) :
    Mute (Inotifywait.followEvent fuel o moves ev : M (Taped σ) MoveTracker) := by
  have hout : ∀ ps, Mute (Inotifywait.outputError o.syslog ps : M (Taped σ) Unit) := fun ps =>
    .ite (exec_mute _) (ceprint_mute ps)
  exact .ite (.pure _) (.bind (MoveTracker.handle_mute hout _ _ _ _ _ _) fun _ =>
    .bind (exec_mute _) fun _ => .pure _)

/-- A turn in which the rejected events are overlooked. -/
theorem Spares.hides {tool : Tool} (h : tool.Spares w) (hi : w.lib.initialized = true)
    (hw : w.lib.store.WellIndexed) : tool.HidesRejected w := by
  constructor
  · intro fuel n u v w' pid hmeets hrej hdrop
    have hover := h fuel n u v pid hmeets hrej
    obtain ⟨hu, huv⟩ := hmeets.uncounted hw
    have hv := (hu.trans huv).wellIndexed hw
    have hskip : Uncounted v w' := (deliver_counts hv (.refl v) pid).ok hdrop
    cases tool with
    -- what is dropped is not printed, and the call goes on as from behind it
    | wait o =>
        obtain ⟨-, htake⟩ := InotifyTools.Meets.uncounted hmeets hw
        have hquiet := takeRecord_silent (hu.wellIndexed hw) hover.1 htake
        refine ⟨⟨(deliver_mute pid _ _ _ hdrop).tape.trans hquiet.tape⟩, fun moves r hrun => ?_⟩
        have hi' : w'.lib.initialized = true :=
          ((hu.trans (huv.trans hskip)).initialized_eq (by rintro (h | h) <;> cases h)).trans hi
        obtain ⟨f, hturn, -⟩ := turn_wait (σ := Taped σ) o fuel moves
        rw [hturn] at hrun ⊢
        obtain ⟨next, x⟩ := r
        obtain ⟨e, y, hnext, hrest⟩ := Prog.bind_ok hrun
        have hnext' : nextEvent fuel o.timeout w' = .ok (e, y) :=
          InotifyTools.Meets.goes_on hmeets hdrop hi hi' hnext
        rw [Prog.bind_run_ok hnext']
        exact hrest
    | watch o => exact Uncounted.sameCounters (huv.trans hskip) (hu.wellIndexed hw)
  · intro fuel w' hreturns
    obtain ⟨n, u, pid, v, hmeets, hdeliver⟩ := hreturns.meets hi hw
    refine ⟨n, u, pid, v, hmeets, hdeliver, fun hrej => ?_⟩
    have hover := h fuel n u v pid hmeets hrej
    -- only an exempt event is delivered in spite of the filters
    have hlets := letsThrough_of_delivered hrej hdeliver
    obtain ⟨hu, huv⟩ := hmeets.uncounted hw
    cases deliver_exempt hlets.1 hdeliver
    cases tool with
    | wait o =>
        obtain ⟨htells, hshown⟩ := hover
        obtain ⟨hm, hs⟩ := hshown hlets
        obtain ⟨-, htake⟩ := InotifyTools.Meets.uncounted hmeets hw
        have hquiet := takeRecord_silent (hu.wellIndexed hw) htells htake
        have hnext : nextEvent fuel o.timeout w = .ok (some v.lib.stream.currentEvent, v.delivered) := by
          rw [nextEvent_one, InotifyTools.Receives.run ⟨n, u, pid, hmeets, hdeliver⟩ hi,
            v.delivered_stream]
        intro moves
        have hturn : (Tool.wait o).turn fuel moves w =
            (Inotifywait.followEvent fuel o moves v.delivered.lib.stream.currentEvent >>= fun moves =>
              pure (some moves)) v.delivered := by
          obtain ⟨f, hturn, hsome⟩ := turn_wait (σ := Taped σ) o fuel moves
          rw [hturn, Prog.bind_run_ok hnext, hsome, v.delivered_stream,
            Inotifywait.waitEvent_unshown hm hs, Prog.bind_assoc]
          rfl
        refine ⟨hturn, fun next w'' hrun => ?_⟩
        rw [hturn] at hrun
        obtain ⟨moves, y, hfollow, hrest⟩ := Prog.bind_ok hrun
        cases hrest
        have hdelivered := (deliver_mute pid _ _ _ hdeliver).tape
        exact ⟨rfl, ⟨(followEvent_mute _ _ _ _ _ _ _ hfollow).tape.trans
          (hdelivered.trans hquiet.tape)⟩⟩
    | watch o =>
        -- no watch, so no counter
        have hsame : v.delivered = v := by
          unfold World.delivered Inotifytools.count
          rw [hover hlets]
          split <;> rfl
        rw [hsame]
        exact Uncounted.sameCounters (hu.trans huv) hw

end

/-- **Rejected events are not seen**: in every run whose turns overlook the rejected events that they
    meet, the turns hide them. -/
theorem Run.hidesRejected {tool : Tool} {args : List Bytes} {env : Taped σ → Taped σ → Prop}
    {os : Taped σ} {list : FileList} {moves : Option MoveTracker} {w : World (Taped σ)}
    (h : tool.Run args env (fun _ w _ => tool.Spares w) os list w moves) :
    tool.Run args env (fun _ w _ => tool.HidesRejected w) os list w moves := by
  induction h with
  | start hlist hrun => exact .start hlist hrun
  | env _ he ih => exact .env ih he
  | turn h hrun hok ih =>
      obtain ⟨hi, hw⟩ := h.wellIndexed
      exact .turn ih hrun (hok.hides hi hw)

end Tool

/-! ## On the desk -/

theorem World.rejects_of_result {p : EventPath}
    (hpath : (filenameFromEvent v.lib.stream.currentEvent).result v = some p)
    (hlen : p.dirname.length + p.eventname.length < maxStrlen)
    (hre : v.lib.regex.any (fun re =>
      re (cstring (p.dirname ++ p.eventname)) ≠ v.lib.invertRegexp) = true) : v.Rejects := by
  obtain ⟨re, hsome, hrej⟩ := (Option.any_eq_true _ _).1 hre
  exact ⟨re, p, _, hsome, Prog.run_of_result hpath, hlen, of_decide_eq_true hrej⟩

namespace Desk

/-- The directory "d", about which the kernel reports `rs`. -/
def reporting (rs : List Record) : Taped Desk :=
  { os := { dirs := [ascii "d"], chunks := [encodeAll rs] } }

/-- The directory "d/b" is reported as new. -/
def createdB : Record := { wd := 1, mask := 0x40000100, cookie := 0, name := ascii "b" ++ [0] }

/-- The file "d/a" is reported as modified. -/
def modifiedA : Record := { wd := 1, mask := 2, cookie := 0, name := ascii "a" ++ [0] }

/-- A program that watches "d" with inotify, recursively. -/
def filtering (o : Inotifywait.Opts) (rs : List Record) : World (Taped Desk) :=
  (Tool.wait o).launch 9 [ascii "d"] { watchFiles := [ascii "d"] } (reporting rs)

/-- `inotifywait -m -r --exclude b d`. -/
def excluding : Inotifywait.Opts := { monitor := true, recursive := 1, filters := { exc := ascii "b" } }

/-- `inotifywait -m -r --include x d`. -/
def including : Inotifywait.Opts := { monitor := true, recursive := 1, filters := { inc := ascii "x" } }

end Desk

theorem Tool.meets_first {o : Inotifywait.Opts} {n : Nat} {p : Int32} {w : World σ}
    (htake : (takeRecord n (Call.one o.timeout).timeout 1).result w = some (some p)) :
    (Tool.wait o).Meets (n + 1) w n w p ((takeRecord n (Call.one o.timeout).timeout 1).after w) :=
  .here (Prog.run_of_result htake)

theorem Tool.meets_second {o : Inotifywait.Opts} {n : Nat} {p : Int32} {w : World σ}
    (hround : (eventRound (n + 1) (Call.one o.timeout).timeout 1).result w = some .skip)
    (htake : (takeRecord n (Call.one o.timeout).timeout 1).result
      ((eventRound (n + 1) (Call.one o.timeout).timeout 1).after w) = some (some p)) :
    (Tool.wait o).Meets (n + 2) w n ((eventRound (n + 1) (Call.one o.timeout).timeout 1).after w) p
      ((takeRecord n (Call.one o.timeout).timeout 1).after
        ((eventRound (n + 1) (Call.one o.timeout).timeout 1).after w)) :=
  .later (Prog.run_of_result hround) (.here (Prog.run_of_result htake))

/-- If the next record is rejected and returned, and something is printed, it is not hidden. -/
theorem Tool.not_hidesRejected {o : Inotifywait.Opts} {n : Nat} {m : MoveTracker}
    {r : Option MoveTracker} {p : Int32} {w : World (Taped σ)} (hi : w.lib.initialized = true)
    (htake : (takeRecord n (Call.one o.timeout).timeout 1).result w = some (some p))
    (hrej : ((takeRecord n (Call.one o.timeout).timeout 1).after w).Rejects)
    (hdeliver : (deliver p).result ((takeRecord n (Call.one o.timeout).timeout 1).after w) =
      some .event)
    (hturn : ((Tool.wait o).turn (n + 1) m).result w = some r)
    (hprinted : (((Tool.wait o).turn (n + 1) m).after w).os.tape ≠ w.os.tape) :
    ¬ (Tool.wait o).HidesRejected w := by
  intro h
  have htake := Prog.run_of_result htake
  have hdeliver := Prog.run_of_result hdeliver
  have hreceives : Receives (.one o.timeout) (n + 1) w _ _ := ⟨n, w, p, .here htake, hdeliver⟩
  obtain ⟨n', u, p', v, hmeets, -, hunnoticed⟩ := h.returned (n + 1) _ ⟨_, hreceives.run hi⟩
  cases hmeets with
  | here htake' =>
      cases htake'.symm.trans htake
      exact hprinted ((hunnoticed hrej m).2 r _ (Prog.run_of_result hturn)).2.tape
  | later hround => cases hround.symm.trans ((eventRound_of_take htake).trans hdeliver)

/-- The creation of an excluded directory is printed. -/
theorem excluded_directory_printed :
    let tool := Tool.wait Desk.excluding
    let w := Desk.filtering Desk.excluding [Desk.createdB]
    tool.Run [ascii "d"] (fun _ _ => False) (fun _ _ _ => True) (Desk.reporting [Desk.createdB])
        { watchFiles := [ascii "d"] } w (some {}) ∧
      ((tool.turn 9 {}).after w).os.tape = w.os.tape ++ ascii "d/ CREATE,ISDIR b\n" ∧
      ¬ tool.HidesRejected w := by
  exact ⟨Tool.launch_run _ _ (by decide +kernel) (by decide +kernel), by decide +kernel,
    Tool.not_hidesRejected (n := 8) (m := {}) (r := some {}) (p := 0) (by decide +kernel)
      (by decide +kernel)
      (World.rejects_of_result (p := ⟨ascii "d/", 2, ascii "b"⟩) (by decide +kernel)
        (by decide +kernel) (by decide +kernel))
      (by decide +kernel) (by decide +kernel) (by decide +kernel)⟩

/-- With inotify and an include filter, `inotifywait -m` shows no directory events. -/
theorem Tool.spares_include {o : Inotifywait.Opts} (hm : o.monitor = true)
    (hinc : o.filters.hasInclude = true) {w : World σ} (hmode : w.lib.fanotifyMode = false)
    (hw : w.lib.store.WellIndexed) : (Tool.wait o).Spares w := by
  intro fuel n u v pid hmeets _
  have hu := (hmeets.uncounted hw).1
  have hl : Kind.lifecycle ∉ ({.stream, .watch} : Set Kind) := by rintro (h | h) <;> cases h
  refine ⟨u.not_tells ((hu.fanotifyMode_eq hl).trans hmode) (hu.wellIndexed hw) _ n, fun hlets => ⟨hm, ?_⟩⟩
  obtain ⟨-, hdir, -⟩ := of_decide_eq_true hlets.1
  unfold Inotifywait.shown
  rw [hinc]
  exact decide_eq_false fun hshown => hshown.2.2.elim nofun hdir

/-- A file is modified and a directory created that the filter does not include: nothing is seen of
    the first, which is dropped, and of the second, which is let through. -/
theorem hidesRejected_desk :
    let tool := Tool.wait Desk.including
    let w := Desk.filtering Desk.including [Desk.modifiedA, Desk.createdB]
    let u := (eventRound 8 (-1) 1).after w
    let v := (takeRecord 8 (-1) 1).after w
    let v' := (takeRecord 7 (-1) 1).after u
    tool.Meets 9 w 8 w 0 v ∧ v.Rejects ∧ deliver 0 v = .ok (.skip, u) ∧
      tool.Meets 9 w 7 u 0 v' ∧ v'.Rejects ∧ deliver 0 v' = .ok (.event, (deliver 0).after v') ∧
      tool.Run [ascii "d"] (fun _ _ => False) (fun _ w _ => tool.HidesRejected w)
        (Desk.reporting [Desk.modifiedA, Desk.createdB]) { watchFiles := [ascii "d"] }
        ((tool.turn 9 {}).after w) (some {}) := by
  have hrun : (Tool.wait Desk.including).Run [ascii "d"] (fun _ _ => False)
      (fun _ w _ => (Tool.wait Desk.including).Spares w)
      (Desk.reporting [Desk.modifiedA, Desk.createdB]) { watchFiles := [ascii "d"] }
      (Desk.filtering Desk.including [Desk.modifiedA, Desk.createdB]) (some {}) :=
    Tool.launch_run _ _ (by decide +kernel) (by decide +kernel)
  have hspares := Tool.spares_include (o := Desk.including) rfl rfl (by decide +kernel)
    hrun.wellIndexed.2
  have hturn : ((Tool.wait Desk.including).turn 9 {}).result
    (Desk.filtering Desk.including [Desk.modifiedA, Desk.createdB]) = some (some {}) := by
    decide +kernel
  exact ⟨Tool.meets_first (n := 8) (p := 0) (by decide +kernel),
    World.rejects_of_result (p := ⟨ascii "d/", 2, ascii "a"⟩) (by decide +kernel)
      (by decide +kernel) (by decide +kernel),
    Prog.run_of_result (by decide +kernel),
    Tool.meets_second (n := 7) (p := 0) (by decide +kernel) (by decide +kernel),
    World.rejects_of_result (p := ⟨ascii "d/", 2, ascii "b"⟩) (by decide +kernel)
      (by decide +kernel) (by decide +kernel),
    Prog.run_of_result (by decide +kernel),
    Tool.Run.hidesRejected (.turn hrun (Prog.run_of_result hturn) hspares)⟩

end InotifyTools
