import Ar8030Transport.Library.Trace
import Ar8030Transport.Lifecycled.Daemon

/-!
# The link debounce

The lifecycle thread believes a link after `LC_CONNECT_CONFIRM_TICKS` readings of CONNECT in a
row and gives it up after `LC_DROP_CONFIRM_TICKS` other readings in a row. `LinkView` is the
part of the context that follows the link and `LinkView.step` what a tick does to it, whatever
else happens in the tick (`tick_link`). Over a run the two counters count the end of the list
of readings (`Followed`).
-/

namespace Ar8030

open Trace

/-! ### The debounce alone -/

/-- The part of the context that follows the link. -/
structure LinkView where
  state : LcState
  connectedSlot : ℤ
  connectConfirmCount : ℕ
  dropMissCount : ℕ
  deriving DecidableEq, Repr

def Ctx.link (c : Ctx) : LinkView :=
  ⟨c.state, c.connectedSlot, c.connectConfirmCount, c.dropMissCount⟩

/-- What a tick does to the link, and the hooks it dispatches. -/
def LinkView.step (i : TickInput) (v : LinkView) : LinkView × List Hook :=
  match v.state, i.reading with
  | .init, _ => ({ v with state := .idle }, [])
  | .idle, some .connect =>
    if v.connectConfirmCount + 1 < lcConnectConfirmTicks then
      ({ v with connectConfirmCount := v.connectConfirmCount + 1 }, [])
    else
      (⟨.connected, if 0 ≤ i.resolvedSlot then i.resolvedSlot else 0, 0, v.dropMissCount⟩,
        [.connected])
  | .idle, _ => ({ v with connectConfirmCount := 0 }, [])
  | .connected, some .other =>
    if v.dropMissCount + 1 < lcDropConfirmTicks then
      ({ v with dropMissCount := v.dropMissCount + 1 }, [])
    else (⟨.idle, -1, v.connectConfirmCount, 0⟩, [.dropped])
  | .connected, _ => ({ v with dropMissCount := 0 }, [])

/-- The hooks of the link, of all that the thread does. -/
def LcEvent.linkHook? : LcEvent → Option Hook
  | .hook .connected _ => some .connected
  | .hook .dropped _ => some .dropped
  | _ => none

theorem linkHook?_eq_none {e : LcEvent} (h : e.topic ≠ .link) : e.linkHook? = none := by
  cases e with
  | hook k slot => cases k <;> first | rfl | exact absurd rfl h
  | _ => rfl

/-! ### A tick on the link -/

section Tick

variable (cfg : LcConfig) (i : TickInput) (c : Ctx)

/-- Events of one topic other than the link dispatch no hook of the link. -/
theorem filterMap_linkHook? {es : List LcEvent} {t : Topic} (h : ∀ e ∈ es, e.topic = t)
    (ht : t ≠ .link) : es.filterMap LcEvent.linkHook? = [] :=
  filterMap_eq_nil_of_topic (fun _ => linkHook?_eq_none) fun e he => h e he ▸ ht

theorem applyLinkTuning_linkHook :
    (applyLinkTuning cfg i c).2.filterMap LcEvent.linkHook? = [] := by
  obtain ⟨before, after, h, hbefore, hafter⟩ := applyLinkTuning_events cfg i c
  rw [h, List.filterMap_append, List.filterMap_append, filterMap_linkHook? hbefore (by decide),
    filterMap_linkHook? (applyPower_topic cfg c) (by decide),
    filterMap_linkHook? hafter (by decide)]
  rfl

theorem followConnect_linkHook :
    (followConnect cfg i c).2.filterMap LcEvent.linkHook? = [.connected] := by
  obtain ⟨slot, before, after, h, hbefore, hafter⟩ := followConnect_events cfg i c
  rw [h, List.filterMap_cons, List.filterMap_append, List.filterMap_append,
    filterMap_linkHook? hbefore (by decide),
    filterMap_linkHook? (applyPower_topic cfg c) (by decide),
    filterMap_linkHook? hafter (by decide)]
  rfl

/-- On a live link the debounce only forgets the misses. -/
theorem connectedTick_link (h : i.reading ≠ some .other) :
    (connectedTick cfg i c).1.link = { c.link with dropMissCount := 0 } := by
  obtain ⟨_, _, _, _, _, _, _, hframe⟩ := linkedSteps_frame cfg i { c with dropMissCount := 0 }
  rw [connectedTick, if_neg h, hframe]
  rfl

theorem connectedTick_linkHook (h : i.reading ≠ some .other) :
    (connectedTick cfg i c).2.filterMap LcEvent.linkHook? = [] := by
  rw [connectedTick, if_neg h]
  refine inTurn_silent _ ?_ _
  simp only [List.forall_mem_cons]
  refine ⟨fun c => ?_, fun c => ?_, fun c => ?_, fun c => ?_, fun c => ?_, by simp⟩
  · rw [followRelink]
    split_ifs
    · exact applyLinkTuning_linkHook cfg i _
    · rfl
  · exact filterMap_linkHook? (dueChannelCheck_topic cfg i c) (by decide)
  · exact filterMap_linkHook? (recheckBandwidth_topic cfg i c) (by decide)
  · exact filterMap_linkHook? (retryFrameChange_topic i c) (by decide)
  · exact filterMap_linkHook? (dueChannelTrack_topic cfg i c) (by decide)

/-- The switch on the state does to the link what `LinkView.step` says. -/
theorem switchState_link :
    ((switchState cfg i c).1.link, (switchState cfg i c).2.filterMap LcEvent.linkHook?) =
      c.link.step i := by
  cases hs : c.state with
  | init => simp [switchState, LinkView.step, Ctx.link, hs]
  | idle =>
    rw [switchState, hs, LinkView.step]
    dsimp only
    rw [idleTick]
    -- an unknown reading counts as a miss of the connect
    split
    · next hr =>
      simp only [Ctx.link, hs, hr]
      split
      · rfl
      · exact Prod.ext rfl (followConnect_linkHook cfg i c)
    · next hr =>
      have hhook : (if c.idleHookFired then [] else [LcEvent.hook .idle (-1)]).filterMap
          LcEvent.linkHook? = [] := by
        split_ifs <;> rfl
      cases hr' : i.reading with
      | none => simp [Ctx.link, hs, hhook]
      | some l =>
        cases l with
        | connect => exact absurd hr' hr
        | other => simp [Ctx.link, hs, hhook]
  | connected =>
    rw [switchState, hs, LinkView.step]
    dsimp only
    by_cases hr : i.reading = some .other
    · rw [connectedTick, if_pos hr]
      simp only [Ctx.link, hs, hr]
      split
      · rfl
      · rfl
    -- but not as a miss of the link
    · rw [connectedTick_link cfg i c hr, connectedTick_linkHook cfg i c hr]
      cases hr' : i.reading with
      | none => simp [Ctx.link, hs]
      | some l =>
        cases l with
        | connect => simp [Ctx.link, hs]
        | other => exact absurd hr' hr

theorem tickDrains_link : (inTurn (tickDrains cfg i) c).1.link = c.link := by
  obtain ⟨_, _, _, _, _, _, _, _, _, _, hframe⟩ := tickDrains_frame cfg i c
  rw [hframe]
  rfl

theorem tickDrains_linkHook :
    (inTurn (tickDrains cfg i) c).2.filterMap LcEvent.linkHook? = [] := by
  refine inTurn_silent _ ?_ c
  simp only [tickDrains, List.forall_mem_cons]
  refine ⟨fun c => ?_, fun c => ?_, fun c => ?_, fun c => ?_, fun c => ?_, by simp⟩
  · rw [fallbackPoll]
    split_ifs <;> rfl
  · exact filterMap_linkHook? (drainBandwidthRequest_topic cfg c) (by decide)
  · exact filterMap_linkHook? (drainRetxRequest_topic cfg c) (by decide)
  · exact filterMap_linkHook? (drainChannelRequest_topic cfg c _) (by decide)
  · exact filterMap_linkHook? (drainPowerRequest_topic cfg c) (by decide)

/-- The functions after the switch leave the link alone. -/
theorem afterSwitch_link :
    (inTurn [pollSocTemp cfg i, overheatUpdate cfg, standbyUpdate cfg] c).1.link = c.link := by
  refine inTurn_keeps Ctx.link ?_ c
  simp only [List.forall_mem_cons]
  refine ⟨fun c => ?_, fun c => ?_, fun c => ?_, by simp⟩
  · rw [pollSocTemp_frame]; rfl
  · rw [overheatUpdate_frame]; rfl
  · rw [standbyUpdate_frame]; rfl

theorem tickUpdates_link : (inTurn (tickUpdates cfg i) c).1.link = (c.link.step i).1 := by
  rw [← switchState_link cfg i, tickUpdates, inTurn_cons]
  exact afterSwitch_link cfg i _

/-- What a whole tick does to the link: its other functions neither touch it nor dispatch its
hooks. -/
theorem tick_link :
    ((tick cfg i c).1.link, (tick cfg i c).2.filterMap LcEvent.linkHook?) = c.link.step i := by
  refine Prod.ext ?_ ?_
  · rw [tick, inTurn_append, ← tickDrains_link cfg i c]
    dsimp only
    rw [tickUpdates_link]
  · rw [← tickDrains_link cfg i c, ← switchState_link cfg i, tick, inTurn_append, tickUpdates,
      inTurn_cons, List.filterMap_append, List.filterMap_append, tickDrains_linkHook, inTurn_silent]
    · simp
    · simp only [List.forall_mem_cons]
      refine ⟨fun c => ?_, fun c => ?_, fun c => ?_, by simp⟩
      · rw [pollSocTemp]
        split_ifs
        · rfl
        · split <;> rfl
      · exact filterMap_linkHook? (overheatUpdate_topic cfg c) (by decide)
      · exact filterMap_linkHook? (standbyUpdate_topic cfg c) (by decide)

end Tick

/-! ### Runs -/

/-- The state before each tick of a run, with what the tick reads. -/
def readings (cfg : LcConfig) : Ctx → List LcAction → List (LcState × Option LinkState)
  | _, [] => []
  | c, .tick i :: as => (c.state, i.reading) :: readings cfg (tick cfg i c).1 as
  | c, a :: as => readings cfg (lcStep cfg c a).1 as

/-- A reading of CONNECT, taken in IDLE. -/
def awaited (x : LcState × Option LinkState) : Bool := x == (.idle, some .connect)

/-- A known reading other than CONNECT, taken in CONNECTED. -/
def missed (x : LcState × Option LinkState) : Bool := x == (.connected, some .other)

/-- The tick completes enough readings of CONNECT in a row. -/
def Confirmed (log : List (LcState × Option LinkState)) : Prop :=
  LastAll awaited lcConnectConfirmTicks log

/-- The tick completes enough other readings in a row. -/
def Lost (log : List (LcState × Option LinkState)) : Prop :=
  LastAll missed lcDropConfirmTicks log

/-- What a debounced tick does to the link and which hooks it dispatches, given the readings up
to this tick. -/
structure Debounced (before after : LinkView) (dispatched : List Hook)
    (log : List (LcState × Option LinkState)) : Prop where
  connects : before.state = .idle ∧ after.state = .connected ↔ Confirmed log
  drops : before.state = .connected ∧ after.state = .idle ↔ Lost log
  /-- Both counters are 0 when the state changes. -/
  resets : after.state ≠ before.state →
    after.connectConfirmCount = 0 ∧ after.dropMissCount = 0
  /-- Anything shorter changes nothing. -/
  blip : ¬Confirmed log → ¬Lost log →
    after.state = before.state ∧ after.connectedSlot = before.connectedSlot ∧ dispatched = []

/-- The hooks of the link alternate, and the first is `connected`. -/
def Alternate (hooks : List Hook) : Prop :=
  ∀ k h, hooks[k]? = some h → h = if k % 2 = 0 then .connected else .dropped

theorem alternate_nil : Alternate [] := by
  intro k h hk
  simp at hk

theorem Alternate.concat {hooks : List Hook} (h : Alternate hooks) {x : Hook}
    (hx : x = if hooks.length % 2 = 0 then .connected else .dropped) :
    Alternate (hooks ++ [x]) := by
  intro k y hk
  rcases Nat.lt_trichotomy k hooks.length with hlt | rfl | hgt
  · rw [List.getElem?_append_left hlt] at hk
    exact h k y hk
  · simp only [List.getElem?_concat_length, Option.some.injEq] at hk
    rw [← hk]
    exact hx
  · rw [List.getElem?_eq_none (by simpa using Nat.succ_le_of_lt hgt)] at hk
    simp at hk

/-- What holds between the readings so far, the hooks so far and the link. -/
structure Followed (log : List (LcState × Option LinkState)) (hooks : List Hook)
    (v : LinkView) : Prop where
  alternate : Alternate hooks
  phase :
    v.state = .idle ∧ v.connectedSlot < 0 ∧ v.dropMissCount = 0 ∧ hooks.length % 2 = 0 ∧
        v.connectConfirmCount = trailing awaited log ∧
        v.connectConfirmCount < lcConnectConfirmTicks ∨
      v.state = .connected ∧ 0 ≤ v.connectedSlot ∧ v.connectConfirmCount = 0 ∧
        hooks.length % 2 = 1 ∧ v.dropMissCount = trailing missed log ∧
        v.dropMissCount < lcDropConfirmTicks

/-- A tick completes the readings of CONNECT. -/
theorem confirmed_concat {log : List (LcState × Option LinkState)}
    {e : LcState × Option LinkState} :
    Confirmed (log ++ [e]) ↔
      awaited e = true ∧ lcConnectConfirmTicks ≤ trailing awaited log + 1 := by
  rw [Confirmed, lastAll_iff_le_trailing, trailing_concat]
  split
  · next he => simp [he]
  · next he => simp [he, lcConnectConfirmTicks]

/-- A tick completes the other readings. -/
theorem lost_concat {log : List (LcState × Option LinkState)}
    {e : LcState × Option LinkState} :
    Lost (log ++ [e]) ↔ missed e = true ∧ lcDropConfirmTicks ≤ trailing missed log + 1 := by
  rw [Lost, lastAll_iff_le_trailing, trailing_concat]
  split
  · next he => simp [he]
  · next he => simp [he, lcDropConfirmTicks]

section Step

variable {log : List (LcState × Option LinkState)} {hooks : List Hook} {v : LinkView}

/-- A tick that completes nothing leaves the state as it is. -/
theorem debounced_of_blip {w : LinkView} (hstate : w.state = v.state)
    (hslot : w.connectedSlot = v.connectedSlot) (hconfirmed : ¬Confirmed log) (hlost : ¬Lost log) :
    Debounced v w [] log where
  connects := by
    refine iff_of_false ?_ hconfirmed
    rintro ⟨hv, hw⟩
    rw [hstate, hv] at hw
    cases hw
  drops := by
    refine iff_of_false ?_ hlost
    rintro ⟨hv, hw⟩
    rw [hstate, hv] at hw
    cases hw
  resets h := absurd hstate h
  blip _ _ := ⟨hstate, hslot, rfl⟩

/-- A tick that completes the readings of CONNECT. -/
theorem debounced_of_confirmed {w : LinkView} {dispatched : List Hook} (hv : v.state = .idle)
    (hw : w.state = .connected) (hzero : w.connectConfirmCount = 0 ∧ w.dropMissCount = 0)
    (hconfirmed : Confirmed log) (hlost : ¬Lost log) : Debounced v w dispatched log where
  connects := iff_of_true ⟨hv, hw⟩ hconfirmed
  drops := by
    refine iff_of_false ?_ hlost
    simp [hv]
  resets _ := hzero
  blip hnot := absurd hconfirmed hnot

/-- A tick that completes the other readings. -/
theorem debounced_of_lost {w : LinkView} {dispatched : List Hook} (hv : v.state = .connected)
    (hw : w.state = .idle) (hzero : w.connectConfirmCount = 0 ∧ w.dropMissCount = 0)
    (hconfirmed : ¬Confirmed log) (hlost : Lost log) : Debounced v w dispatched log where
  connects := by
    refine iff_of_false ?_ hconfirmed
    simp [hv]
  drops := iff_of_true ⟨hv, hw⟩ hlost
  resets _ := hzero
  blip _ hnot := absurd hlost hnot

theorem LinkView.step_idle (hs : v.state = .idle) (i : TickInput) :
    v.step i =
      if i.reading = some .connect then
        if v.connectConfirmCount + 1 < lcConnectConfirmTicks then
          ({ v with connectConfirmCount := v.connectConfirmCount + 1 }, [])
        else
          (⟨.connected, if 0 ≤ i.resolvedSlot then i.resolvedSlot else 0, 0, v.dropMissCount⟩,
            [.connected])
      else ({ v with connectConfirmCount := 0 }, []) := by
  cases hr : i.reading with
  | none => simp [LinkView.step, hs, hr]
  | some l => cases l <;> simp [LinkView.step, hs, hr]

theorem LinkView.step_connected (hs : v.state = .connected) (i : TickInput) :
    v.step i =
      if i.reading = some .other then
        if v.dropMissCount + 1 < lcDropConfirmTicks then
          ({ v with dropMissCount := v.dropMissCount + 1 }, [])
        else (⟨.idle, -1, v.connectConfirmCount, 0⟩, [.dropped])
      else ({ v with dropMissCount := 0 }, []) := by
  cases hr : i.reading with
  | none => simp [LinkView.step, hs, hr]
  | some l => cases l <;> simp [LinkView.step, hs, hr]

/-- In IDLE a reading of CONNECT counts, and any other starts over. -/
theorem Followed.step_idle (h : Followed log hooks v) (hs : v.state = .idle) (i : TickInput) :
    Followed (log ++ [(.idle, i.reading)]) (hooks ++ (v.step i).2) (v.step i).1 ∧
      Debounced v (v.step i).1 (v.step i).2 (log ++ [(.idle, i.reading)]) := by
  obtain ⟨-, hslot, hmiss, heven, hcount, hlt⟩ | ⟨hc, -⟩ := h.phase
  · have hlost : ¬Lost (log ++ [(.idle, i.reading)]) := by simp [lost_concat, missed]
    have hresolved : 0 ≤ if 0 ≤ i.resolvedSlot then i.resolvedSlot else 0 := by
      split_ifs with h0
      · exact h0
      · exact Int.le_refl 0
    rw [LinkView.step_idle hs]
    generalize (if 0 ≤ i.resolvedSlot then i.resolvedSlot else 0) = slot at hresolved ⊢
    split_ifs with hr hfew
    · -- one more reading of CONNECT, but not enough of them
      have hawaited : awaited (.idle, i.reading) = true := by rw [hr]; rfl
      have hconfirmed : ¬Confirmed (log ++ [(.idle, i.reading)]) := by
        rw [confirmed_concat, ← hcount]
        exact fun hconf => Nat.not_le.mpr hfew hconf.2
      refine ⟨⟨by simpa using h.alternate, Or.inl ?_⟩, debounced_of_blip rfl rfl hconfirmed hlost⟩
      exact ⟨hs, hslot, hmiss, by simpa using heven, by simp [trailing_concat, hawaited, hcount],
        hfew⟩
    -- the last one of the run: the link is believed
    · have hawaited : awaited (.idle, i.reading) = true := by rw [hr]; rfl
      have hconfirmed : Confirmed (log ++ [(.idle, i.reading)]) := by
        rw [confirmed_concat, ← hcount]
        exact ⟨hawaited, Nat.not_lt.mp hfew⟩
      refine ⟨⟨h.alternate.concat (by rw [if_pos heven]), Or.inr ?_⟩,
        debounced_of_confirmed hs rfl ⟨rfl, hmiss⟩ hconfirmed hlost⟩
      refine ⟨rfl, hresolved, rfl, ?_, ?_, ?_⟩
      · rw [List.length_append, List.length_singleton]
        omega
      · simp [trailing_concat, missed, hmiss]
      · simp [hmiss, lcDropConfirmTicks]
    · have hnot : awaited (.idle, i.reading) = false := by simpa [awaited] using hr
      have hconfirmed : ¬Confirmed (log ++ [(.idle, i.reading)]) := by
        simp [confirmed_concat, hnot]
      refine ⟨⟨by simpa using h.alternate, Or.inl ?_⟩, debounced_of_blip rfl rfl hconfirmed hlost⟩
      exact ⟨hs, hslot, hmiss, by simpa using heven, by simp [trailing_concat, hnot],
        Nat.zero_lt_succ _⟩
  · rw [hs] at hc
    cases hc

/-- In CONNECTED a known reading other than CONNECT counts, and any other starts over. -/
theorem Followed.step_connected (h : Followed log hooks v) (hs : v.state = .connected)
    (i : TickInput) :
    Followed (log ++ [(.connected, i.reading)]) (hooks ++ (v.step i).2) (v.step i).1 ∧
      Debounced v (v.step i).1 (v.step i).2 (log ++ [(.connected, i.reading)]) := by
  obtain ⟨hc, -⟩ | ⟨-, hslot, hconf, hodd, hcount, hlt⟩ := h.phase
  · rw [hs] at hc
    cases hc
  · have hconfirmed : ¬Confirmed (log ++ [(.connected, i.reading)]) := by
      simp [confirmed_concat, awaited]
    rw [LinkView.step_connected hs]
    split_ifs with hr hfew
    · -- one more reading missed, but not enough of them
      have hmissed : missed (.connected, i.reading) = true := by rw [hr]; rfl
      have hlost : ¬Lost (log ++ [(.connected, i.reading)]) := by
        rw [lost_concat, ← hcount]
        exact fun hlost => Nat.not_le.mpr hfew hlost.2
      refine ⟨⟨by simpa using h.alternate, Or.inr ?_⟩, debounced_of_blip rfl rfl hconfirmed hlost⟩
      exact ⟨hs, hslot, hconf, by simpa using hodd, by simp [trailing_concat, hmissed, hcount],
        hfew⟩
    -- the last one of the run: the link is given up
    · have hmissed : missed (.connected, i.reading) = true := by rw [hr]; rfl
      have hlost : Lost (log ++ [(.connected, i.reading)]) := by
        rw [lost_concat, ← hcount]
        exact ⟨hmissed, Nat.not_lt.mp hfew⟩
      refine ⟨⟨h.alternate.concat (by rw [if_neg (by omega)]), Or.inl ?_⟩,
        debounced_of_lost hs rfl ⟨hconf, rfl⟩ hconfirmed hlost⟩
      refine ⟨rfl, Int.negSucc_lt_zero 0, rfl, ?_, ?_, ?_⟩
      · rw [List.length_append, List.length_singleton]
        omega
      · simp [trailing_concat, awaited, hconf]
      · simp [hconf, lcConnectConfirmTicks]
    · -- an unknown reading is not a missed one
      have hnot : missed (.connected, i.reading) = false := by simpa [missed] using hr
      have hlost : ¬Lost (log ++ [(.connected, i.reading)]) := by simp [lost_concat, hnot]
      refine ⟨⟨by simpa using h.alternate, Or.inr ?_⟩, debounced_of_blip rfl rfl hconfirmed hlost⟩
      exact ⟨hs, hslot, hconf, by simpa using hodd, by simp [trailing_concat, hnot],
        Nat.zero_lt_succ _⟩

theorem Followed.step (h : Followed log hooks v) (i : TickInput) :
    Followed (log ++ [(v.state, i.reading)]) (hooks ++ (v.step i).2) (v.step i).1 ∧
      Debounced v (v.step i).1 (v.step i).2 (log ++ [(v.state, i.reading)]) := by
  rcases h.phase with ⟨hs, -⟩ | ⟨hs, -⟩
  · rw [hs]
    exact h.step_idle hs i
  · rw [hs]
    exact h.step_connected hs i

end Step

/-! ### The debounce over whole runs -/

section Run

variable (cfg : LcConfig) (saved : Saved) (table : List UInt32)

/-- The readings of a run from the start. -/
def runReadings (actions : List LcAction) : List (LcState × Option LinkState) :=
  readings cfg (lcStart cfg saved table).1 actions

/-- The hooks of the link a run has dispatched. -/
def runHooks (actions : List LcAction) : List Hook :=
  (lcRun cfg saved table actions).2.filterMap LcEvent.linkHook?

theorem readings_concat (c : Ctx) (actions : List LcAction) (a : LcAction) :
    readings cfg c (actions ++ [a]) =
      readings cfg c actions ++ readings cfg (Mealy.run (lcStep cfg) c actions).1 [a] := by
  induction actions generalizing c with
  | nil => rfl
  | cons b actions ih =>
    cases b <;> simpa [readings, Mealy.run_cons, lcStep] using ih _

theorem runReadings_tick (actions : List LcAction) (i : TickInput) :
    runReadings cfg saved table (actions ++ [.tick i]) =
      runReadings cfg saved table actions ++
        [((lcRun cfg saved table actions).1.link.state, i.reading)] :=
  readings_concat cfg _ actions (.tick i)

theorem runReadings_request {a : LcAction} (ha : ∀ i, a ≠ .tick i) (actions : List LcAction) :
    runReadings cfg saved table (actions ++ [a]) = runReadings cfg saved table actions := by
  rw [runReadings, readings_concat]
  cases a with
  | tick i => exact absurd rfl (ha i)
  | _ => exact List.append_nil _

theorem runHooks_concat (actions : List LcAction) (a : LcAction) :
    runHooks cfg saved table (actions ++ [a]) =
      runHooks cfg saved table actions ++
        (lcStep cfg (lcRun cfg saved table actions).1 a).2.filterMap LcEvent.linkHook? := by
  rw [runHooks, lcRun_concat, List.filterMap_append]
  rfl

/-- A request leaves the link alone. -/
theorem lcStep_link {a : LcAction} (ha : ∀ i, a ≠ .tick i) (c : Ctx) :
    (lcStep cfg c a).1.link = c.link := by
  rw [lcStep_frame cfg ha]
  rfl

theorem lcStart_followed :
    Followed [] ((lcStart cfg saved table).2.filterMap LcEvent.linkHook?)
      (lcStart cfg saved table).1.link := by
  have hhooks : (lcStart cfg saved table).2.filterMap LcEvent.linkHook? = [] := by
    rw [lcStart, List.filterMap_append]
    split_ifs
    · rfl
    · exact filterMap_linkHook? (applyPower_topic cfg _) (by decide)
    · rfl
    · exact filterMap_linkHook? (applyPower_topic cfg _) (by decide)
  rw [hhooks]
  exact ⟨alternate_nil, Or.inl ⟨rfl, Int.negSucc_lt_zero 0, rfl, rfl, rfl, Nat.zero_lt_succ _⟩⟩

/-- Every run keeps `Followed`. -/
theorem lcRun_followed (actions : List LcAction) :
    Followed (runReadings cfg saved table actions) (runHooks cfg saved table actions)
      (lcRun cfg saved table actions).1.link := by
  induction actions using List.reverseRecOn with
  | nil =>
    rw [runHooks, lcRun, Mealy.run_nil, List.append_nil]
    exact lcStart_followed cfg saved table
  | append_singleton actions a ih =>
    rw [runHooks_concat, lcRun_concat]
    by_cases ha : ∃ i, a = .tick i
    · obtain ⟨i, rfl⟩ := ha
      have hstep := tick_link cfg i (lcRun cfg saved table actions).1
      have hnext := (ih.step i).1
      rw [← hstep] at hnext
      rw [runReadings_tick]
      exact hnext
    · have hreq : ∀ i, a ≠ .tick i := fun i h => ha ⟨i, h⟩
      rw [runReadings_request cfg saved table hreq, lcStep_link cfg hreq,
        lcStep_silent cfg hreq, List.filterMap_nil, List.append_nil]
      exact ih

/-- **The link debounce.** In every run, with requests between the ticks and whatever the ticks
read: a tick connects exactly when it completes `LC_CONNECT_CONFIRM_TICKS` readings of CONNECT
in a row taken in IDLE, and drops exactly when it completes `LC_DROP_CONFIRM_TICKS` known other
readings in a row taken in CONNECTED; a change of state leaves both counters at 0, and a tick
that completes neither changes nothing and dispatches no hook of the link; a request does not
touch the link at all. The hooks alternate, and there is a slot exactly in CONNECTED. -/
theorem link_debounced (actions : List LcAction) :
    (∀ i, Debounced (lcRun cfg saved table actions).1.link
      (lcRun cfg saved table (actions ++ [.tick i])).1.link
      ((lcStep cfg (lcRun cfg saved table actions).1 (.tick i)).2.filterMap LcEvent.linkHook?)
      (runReadings cfg saved table (actions ++ [.tick i]))) ∧
    (∀ a, (∀ i, a ≠ .tick i) →
      (lcRun cfg saved table (actions ++ [a])).1.link = (lcRun cfg saved table actions).1.link) ∧
    Alternate (runHooks cfg saved table actions) ∧
    (0 ≤ (lcRun cfg saved table actions).1.connectedSlot ↔
      (lcRun cfg saved table actions).1.state = .connected) := by
  have hrun := lcRun_followed cfg saved table actions
  refine ⟨fun i => ?_, fun a ha => ?_, hrun.alternate, ?_⟩
  · have hstep := tick_link cfg i (lcRun cfg saved table actions).1
    have hnext := (hrun.step i).2
    rw [← hstep] at hnext
    rw [runReadings_tick, lcRun_concat]
    exact hnext
  · rw [lcRun_concat]
    exact lcStep_link cfg ha _
  · rcases hrun.phase with ⟨hs, hslot, -⟩ | ⟨hs, hslot, -⟩
    · refine iff_of_false (Int.not_le.mpr hslot) ?_
      intro hc
      cases hs.symm.trans hc
    · exact iff_of_true hslot hs

end Run

end Ar8030
