import Ar8030Transport.Lifecycled.ChannelCheck
import Ar8030Transport.Lifecycled.Debounce

/-!
# Channel requests on the DEV

`lifecycle_request_channel` refuses a request on a DEV without a link, and the drain of its
mailbox relies on this: it tunes the radio alone when there is no link. The test of the state
and the write to the mailbox are two steps of an HTTP thread under two locks, and the drain is
a step of the lifecycle thread at a later tick, so a drop can come between any two of them.

`devStep` interleaves HTTP threads with the lifecycle thread. A tick is two steps, the drains
and the rest: the drains do not write the state, and the rest does not read the mailbox, so a
step of an HTTP thread within one of them does what it would do before or after it. `NoRace`
names the two races to be excluded, and `Guarded` is what then holds without a link.
-/

namespace Ar8030

open Trace

/-- A call of `lifecycle_request_channel` that has passed its test. `isStale` records that the
link has dropped since. -/
structure ChannelCall where
  chan : Channel
  isStale : Bool
  deriving DecidableEq, Repr

/-- The lifecycle thread and the HTTP threads. -/
structure DevState where
  ctx : Ctx
  /-- Calls between their test and their write to the mailbox. -/
  calls : List ChannelCall
  /-- The thread is between the drains of a tick and the rest. -/
  inTick : Option TickInput
  deriving DecidableEq, Repr

inductive DevAction where
  /-- An HTTP thread tests the state. -/
  | test (chan : Channel)
  /-- An HTTP thread writes to the mailbox. -/
  | post (n : ℕ)
  /-- The lifecycle thread goes on. -/
  | thread (i : TickInput)
  deriving DecidableEq, Repr

/-- The rest of the tick drops the link. -/
def drops (i : TickInput) (c : Ctx) : Bool :=
  c.state = .connected ∧ i.reading = some .other ∧ lcDropConfirmTicks ≤ c.dropMissCount + 1

/-- The rest of the tick connects. -/
def connects (i : TickInput) (c : Ctx) : Bool :=
  c.state = .idle ∧ i.reading = some .connect ∧ lcConnectConfirmTicks ≤ c.connectConfirmCount + 1

/-- One step of one of the threads, with what it does. -/
def devStep (cfg : LcConfig) (s : DevState) : DevAction → DevState × List LcEvent
  | .test chan =>
    (if acceptsChannel cfg chan s.ctx then { s with calls := s.calls ++ [⟨chan, false⟩] }
      else s, [])
  | .post n =>
    (match s.calls[n]? with
      | some call => { s with ctx := postChannel call.chan s.ctx, calls := s.calls.eraseIdx n }
      | none => s, [])
  | .thread i =>
    match s.inTick with
    | none =>
      let r := inTurn (tickDrains cfg i) s.ctx
      ({ s with ctx := r.1, inTick := some i }, r.2)
    | some i =>
      let r := inTurn (tickUpdates cfg i) s.ctx
      ({ ctx := r.1
         calls := if drops i s.ctx then s.calls.map fun call => { call with isStale := true }
           else s.calls
         inTick := none }, r.2)

/-- A run from the start of the daemon. -/
def devRun (cfg : LcConfig) (saved : Saved) (table : List UInt32) (actions : List DevAction) :
    DevState × List LcEvent :=
  Mealy.run (devStep cfg) ⟨(lcStart cfg saved table).1, [], none⟩ actions

/-- `lc_channel_apply_mode` or `lc_channel_apply_linked`. -/
def LcEvent.isTune : LcEvent → Bool
  | .setChanMode _ => true
  | .setChanLinked _ _ => true
  | _ => false

/-- A drain without a link does not tune. -/
def NoBlindTuning (cfg : LcConfig) (s : DevState) (a : DevAction) : Prop :=
  ∀ i, a = .thread i → s.inTick = none → s.ctx.state ≠ .connected →
    ∀ e ∈ (inTurn (tickDrains cfg i) s.ctx).2, e.isTune = false

/-- Neither does a call write to the mailbox without the link it was tested with, unless there is
one again or the tick under way connects, nor does the link drop with a request in the mailbox. -/
def NoRace (s : DevState) : DevAction → Prop
  | .test _ => True
  | .post n => ∀ call ∈ s.calls[n]?, call.isStale = true →
    s.ctx.state = .connected ∨ ∃ i ∈ s.inTick, connects i s.ctx = true
  | .thread _ => ∀ i ∈ s.inTick, drops i s.ctx = true → s.ctx.pendingChannel = none

instance (s : DevState) : (a : DevAction) → Decidable (NoRace s a)
  | .test _ => inferInstanceAs (Decidable True)
  | .post n => inferInstanceAs
      (Decidable (∀ call ∈ s.calls[n]?, call.isStale = true →
        s.ctx.state = .connected ∨ ∃ i ∈ s.inTick, connects i s.ctx = true))
  | .thread _ => inferInstanceAs
      (Decidable (∀ i ∈ s.inTick, drops i s.ctx = true → s.ctx.pendingChannel = none))

/-- Without a link there is no request, unless the tick under way connects, and no call that was
tested since the last drop. -/
def Guarded (s : DevState) : Prop :=
  s.ctx.state ≠ .connected →
    (s.ctx.pendingChannel = none ∨ ∃ i ∈ s.inTick, connects i s.ctx = true) ∧
      ∀ call ∈ s.calls, call.isStale = true

section Tick

variable (cfg : LcConfig) (i : TickInput) (c : Ctx)

theorem switchState_pendingChannel : (switchState cfg i c).1.pendingChannel = c.pendingChannel := by
  rw [switchState]
  split
  · rfl
  · rw [idleTick]
    split_ifs <;> rfl
  · rw [connectedTick]
    split_ifs
    · rfl
    · rfl
    · obtain ⟨_, _, _, _, _, _, _, hframe⟩ :=
        linkedSteps_frame cfg i { c with dropMissCount := 0 }
      rw [hframe]

theorem tickUpdates_pendingChannel :
    (inTurn (tickUpdates cfg i) c).1.pendingChannel = c.pendingChannel := by
  rw [tickUpdates, inTurn_cons]
  exact (congrArg ChanView.pendingChannel (afterSwitch_channel cfg i _).1).trans
    (switchState_pendingChannel cfg i c)

/-- The link goes down by a drop only. -/
theorem drops_of_tickUpdates (hs : c.state = .connected)
    (hdown : (inTurn (tickUpdates cfg i) c).1.state ≠ .connected) : drops i c = true := by
  have hstep : (c.link.step i).1.state ≠ .connected := by
    rw [← tickUpdates_link cfg i c]
    exact hdown
  by_contra hdrop
  refine hstep ?_
  by_cases hr : i.reading = some .other
  · have hfew : c.dropMissCount + 1 < lcDropConfirmTicks := by
      simpa [drops, hs, hr] using hdrop
    simp [LinkView.step, Ctx.link, hs, hr, hfew]
  · cases hr' : i.reading with
    | none => simp [LinkView.step, Ctx.link, hs, hr']
    | some l =>
      cases l with
      | connect => simp [LinkView.step, Ctx.link, hs, hr']
      | other => exact absurd hr' hr

theorem connected_of_connects (h : connects i c = true) :
    (inTurn (tickUpdates cfg i) c).1.state = .connected := by
  obtain ⟨hs, hr, hlast⟩ : c.state = .idle ∧ i.reading = some .connect ∧
      lcConnectConfirmTicks ≤ c.connectConfirmCount + 1 := by simpa [connects] using h
  have hstep : (c.link.step i).1.state = .connected := by
    simp [LinkView.step, Ctx.link, hs, hr, Nat.not_lt.mpr hlast]
  rw [← tickUpdates_link cfg i c] at hstep
  exact hstep

/-- An empty mailbox tunes nothing. -/
theorem tickDrains_isTune (h : c.pendingChannel = none) :
    ∀ e ∈ (inTurn (tickDrains cfg i) c).2, e.isTune = false := by
  intro e he
  have hnone := List.filterMap_eq_nil_iff.mp (tickDrains_channel cfg i c h).2 e he
  cases e <;> first | rfl | simp [LcEvent.ofChannel?, LcEvent.topic] at hnone

end Tick

/-! ### Runs -/

section Run

variable {cfg : LcConfig} (hdev : cfg.role = .dev)

include hdev in
/-- A step without a race keeps the guard. -/
theorem Guarded.step {s : DevState} {a : DevAction} (h : Guarded s) (hrace : NoRace s a) :
    Guarded (devStep cfg s a).1 := by
  cases a with
  | test chan =>
    rw [devStep]
    split_ifs with haccepts
    · intro hdown
      have hup : s.ctx.state = .connected := by
        simpa [acceptsChannel, hdev] using (Bool.and_eq_true_iff.mp haccepts).2
      exact absurd hup hdown
    · exact h
  | post n =>
    rw [devStep]
    cases hcall : s.calls[n]? with
    | none => exact h
    | some call =>
      intro hdown
      have hdown : s.ctx.state ≠ .connected := hdown
      -- a call tested since the last drop has its link still
      have hstale : call.isStale = true := (h hdown).2 call (List.mem_of_getElem? hcall)
      exact ⟨.inr ((hrace call hcall hstale).resolve_left hdown),
        fun other hother => (h hdown).2 other (List.mem_of_mem_eraseIdx hother)⟩
  | thread i =>
    rw [devStep]
    cases htick : s.inTick with
    | none =>
      intro hdown
      have hdown : s.ctx.state ≠ .connected := by
        rw [← tickDrains_state cfg i s.ctx]
        exact hdown
      exact ⟨.inl (tickDrains_pendingChannel cfg i s.ctx), (h hdown).2⟩
    | some j =>
      intro hdown
      by_cases hs : s.ctx.state = .connected
      -- the link goes down in this tick, and every call loses its test
      · have hdrop := drops_of_tickUpdates cfg j s.ctx hs hdown
        refine ⟨?_, ?_⟩
        · exact .inl ((tickUpdates_pendingChannel cfg j s.ctx).trans (hrace j htick hdrop))
        · dsimp only
          rw [if_pos hdrop]
          simp
      · have hdrop : drops j s.ctx = false := by simp [drops, hs]
        have hnone : s.ctx.pendingChannel = none := by
          refine (h hs).1.resolve_right ?_
          rintro ⟨k, hk, hconnects⟩
          obtain rfl : j = k := Option.some.inj (htick.symm.trans hk)
          exact hdown (connected_of_connects cfg j s.ctx hconnects)
        refine ⟨.inl ((tickUpdates_pendingChannel cfg j s.ctx).trans hnone), ?_⟩
        dsimp only
        rw [if_neg (by simp [hdrop])]
        exact (h hs).2

variable (saved : Saved) (table : List UInt32)

/-- The actions of a run are without a race. -/
def RaceFree (cfg : LcConfig) (saved : Saved) (table : List UInt32) : List DevAction → Prop :=
  Always fun past a => NoRace (devRun cfg saved table past).1 a

instance (actions : List DevAction) : Decidable (RaceFree cfg saved table actions) :=
  inferInstanceAs (Decidable (Always _ actions))

include hdev in
theorem devRun_guarded {actions : List DevAction} (h : RaceFree cfg saved table actions) :
    Guarded (devRun cfg saved table actions).1 := by
  induction actions using List.reverseRecOn with
  | nil => exact fun _ => ⟨.inl rfl, by simp [devRun]⟩
  | append_singleton actions a ih =>
    obtain ⟨hpast, hrace⟩ := always_concat_iff.mp h
    rw [devRun, Mealy.run_concat]
    exact (ih hpast).step hdev hrace

include hdev in
/-- **The DEV without a link.** In every interleaving of HTTP threads with the lifecycle thread
of a DEV in which neither a call writes to the mailbox after the link it was tested with has
gone and before the tick that brings the next one, nor the link drops with a request in the
mailbox, the drain never tunes the radio without a link. -/
theorem no_blind_tuning {actions : List DevAction} (h : RaceFree cfg saved table actions) :
    Always (fun past a => NoBlindTuning cfg (devRun cfg saved table past).1 a) actions := by
  rintro past a post heq i - htick hdown
  have hpast : RaceFree cfg saved table past := Always.of_append (heq ▸ h)
  -- the drains come between two ticks
  have hnone := (devRun_guarded hdev saved table hpast hdown).1.resolve_right (by simp [htick])
  exact tickDrains_isTune cfg i _ hnone

end Run

/-! ### A drop after the test -/

/-- Ticks that connect, and a request that passes its test. -/
def connectAndTest : List DevAction :=
  List.replicate 6 (.thread (plainTick 0 .connect)) ++ [.test (.index 5)]

/-- The five readings before a drop, and the drains of the tick that drops. -/
def almostDrop : List DevAction := List.replicate 11 (.thread (plainTick 0 .other))

/-- A request that is written and drained while the link is up. -/
theorem no_blind_tuning_drained :
    Always (fun past a =>
        NoBlindTuning (plainCfg .dev) (devRun (plainCfg .dev) ⟨none, none⟩ [] past).1 a)
      (connectAndTest ++ [.post 0] ++ almostDrop ++
        List.replicate 2 (.thread (plainTick 0 .other))) :=
  no_blind_tuning rfl ⟨none, none⟩ [] (by decide)

/-- The link drops right after the write: the next drain sets the channel mode in IDLE. -/
theorem blind_tuning_after_drop :
    ¬Always (fun past a =>
        NoBlindTuning (plainCfg .dev) (devRun (plainCfg .dev) ⟨none, none⟩ [] past).1 a)
      (connectAndTest ++ almostDrop ++ [.post 0] ++
        List.replicate 2 (.thread (plainTick 0 .other))) := by
  intro h
  have hblind := h (connectAndTest ++ almostDrop ++ [.post 0, .thread (plainTick 0 .other)])
    (.thread (plainTick 0 .other)) [] rfl (plainTick 0 .other) rfl (by decide) (by decide)
  exact absurd (hblind (.setChanMode (.index 5)) (by decide)) (by decide)

end Ar8030
