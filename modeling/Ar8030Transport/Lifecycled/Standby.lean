import Ar8030Transport.Library.Trace
import Ar8030Transport.Lifecycled.Daemon

/-!
# The low-power mode

While the aircraft is disarmed or too hot the AP holds a low output power, and goes back to
the wanted level when this ends. Five places send power commands; each sends the one the
latched `standby` bit asks for (`Agrees`), so the last command and the bit agree as long as
every change of the bit sends a command too. Entering the mode always does. Leaving it does
not where no level is wanted (`LC_POWER_NONE`): the chip then stays at the standby power.
`HasLevel` excludes this, and nothing else has to be excluded.
-/

namespace Ar8030

open Trace

/-! ### Power commands -/

/-- A power command to the chip. -/
inductive PowerCmd where
  | level (l : PowerLevel)
  | standby
  deriving DecidableEq, Repr

def LcEvent.powerCmd? : LcEvent → Option PowerCmd
  | .setPower l => some (.level l)
  | .setStandbyPower _ => some .standby
  | _ => none

theorem powerCmd?_eq_none {e : LcEvent} (h : e.topic ≠ .power) : e.powerCmd? = none := by
  cases e <;> first | rfl | exact absurd rfl h

/-- The most recent power command. -/
def lastPowerCmd (events : List LcEvent) : Option PowerCmd :=
  (events.filterMap LcEvent.powerCmd?).getLast?

/-- The last command is the standby one exactly while the mode is on. -/
def PowerRight (c : Ctx) (events : List LcEvent) : Prop :=
  lastPowerCmd events = some .standby ↔ c.standby = true

/-- All power commands are those of the mode. -/
def Agrees (c : Ctx) (events : List LcEvent) : Prop :=
  ∀ cmd ∈ events.filterMap LcEvent.powerCmd?, cmd = .standby ↔ c.standby = true

section Agrees

variable {c : Ctx} {es fs : List LcEvent}

theorem agrees_of_topic {t : Topic} (h : ∀ e ∈ es, e.topic = t) (ht : t ≠ .power) :
    Agrees c es := by
  have hnil : es.filterMap LcEvent.powerCmd? = [] :=
    filterMap_eq_nil_of_topic (fun _ => powerCmd?_eq_none) fun e he => h e he ▸ ht
  rw [Agrees, hnil]
  simp

theorem Agrees.append (hes : Agrees c es) (hfs : Agrees c fs) : Agrees c (es ++ fs) := by
  intro cmd hcmd
  rw [List.filterMap_append, List.mem_append] at hcmd
  rcases hcmd with hcmd | hcmd
  · exact hes cmd hcmd
  · exact hfs cmd hcmd

theorem Agrees.congr {d : Ctx} (h : Agrees c es) (hd : d.standby = c.standby) : Agrees d es := by
  rw [Agrees, hd]
  exact h

theorem applyPower_agrees (cfg : LcConfig) (c : Ctx) : Agrees c (applyPower cfg c) := by
  rw [applyPower]
  split_ifs with hstandby
  · simp [Agrees, LcEvent.powerCmd?, hstandby]
  · simp [Agrees]
  · simp [Agrees, LcEvent.powerCmd?, hstandby]
  · simp [Agrees]

/-- Commands that agree with the bit keep the last command right. -/
theorem PowerRight.append (h : PowerRight c es) {d : Ctx} (hd : d.standby = c.standby)
    (hfs : Agrees c fs) : PowerRight d (es ++ fs) := by
  rw [PowerRight, lastPowerCmd, List.filterMap_append, List.getLast?_append, hd]
  cases hlast : (fs.filterMap LcEvent.powerCmd?).getLast? with
  | none => exact h
  | some cmd => simpa using hfs cmd (List.mem_of_getLast? hlast)

end Agrees

/-! ### A tick on the low-power mode -/

/-- The part of the context the low-power mode depends on. -/
structure PowerView where
  pendingPower : Option PowerLevel
  pendingArmed : Option Bool
  power : PowerLevel
  armed : Bool
  standby : Bool
  socTempLast : ℕ
  socTempValid : Bool
  socTempC10 : ℤ
  overheat : Bool
  deriving DecidableEq, Repr

def Ctx.powerView (c : Ctx) : PowerView :=
  ⟨c.pendingPower, c.pendingArmed, c.power, c.armed, c.standby, c.socTempLast, c.socTempValid,
    c.socTempC10, c.overheat⟩

/-- Whether the tick finds the SoC too hot. -/
def overheatAfter (cfg : LcConfig) (i : TickInput) (c : Ctx) : Bool :=
  (overheatUpdate cfg (pollSocTemp cfg i c).1).1.overheat

section Tick

variable (cfg : LcConfig) (i : TickInput) (c : Ctx)

/-- The temperature is followed from the temperature alone. -/
theorem overheatAfter_congr {d : Ctx} (h : d.powerView = { c.powerView with
      pendingPower := d.pendingPower, power := d.power }) :
    overheatAfter cfg i d = overheatAfter cfg i c := by
  have hlast : d.socTempLast = c.socTempLast := congrArg PowerView.socTempLast h
  have hvalid : d.socTempValid = c.socTempValid := congrArg PowerView.socTempValid h
  have hc10 : d.socTempC10 = c.socTempC10 := congrArg PowerView.socTempC10 h
  have hheat : d.overheat = c.overheat := congrArg PowerView.overheat h
  have hpoll : (pollSocTemp cfg i d).1.socTempValid = (pollSocTemp cfg i c).1.socTempValid ∧
      (pollSocTemp cfg i d).1.socTempC10 = (pollSocTemp cfg i c).1.socTempC10 := by
    rw [pollSocTemp, pollSocTemp, hlast]
    split_ifs
    · exact ⟨hvalid, hc10⟩
    · split
      · exact ⟨hvalid, hc10⟩
      · exact ⟨rfl, hc10⟩
      · exact ⟨rfl, rfl⟩
  have hsame (c : Ctx) : (pollSocTemp cfg i c).1.overheat = c.overheat := by
    rw [pollSocTemp_frame]
  have hkeep : (pollSocTemp cfg i d).1.overheat = (pollSocTemp cfg i c).1.overheat := by
    rw [hsame, hsame, hheat]
  rw [overheatAfter, overheatAfter, overheatUpdate, overheatUpdate, hpoll.1, hpoll.2, hkeep]
  split
  · exact hkeep
  · split_ifs <;> first | rfl | exact hkeep

theorem switchState_powerView : (switchState cfg i c).1.powerView = c.powerView := by
  rw [switchState]
  split
  · rfl
  · rw [idleTick]
    split_ifs <;> rfl
  · rw [connectedTick]
    split_ifs
    · rfl
    · rfl
    · obtain ⟨_, _, _, _, _, _, _, hframe⟩ :=
        linkedSteps_frame cfg i { c with dropMissCount := 0 }
      rw [hframe]
      rfl

/-- The drain of the power mailbox, on this part of the context. -/
theorem drainPowerRequest_powerView :
    (drainPowerRequest cfg c).1.powerView =
      { c.powerView with
        pendingPower := none
        power := c.powerView.pendingPower.getD c.powerView.power } := by
  rw [drainPowerRequest]
  cases h : c.pendingPower <;> simp [Ctx.powerView, h]

theorem tickDrains_powerView :
    (inTurn (tickDrains cfg i) c).1.powerView =
      { c.powerView with pendingPower := none, power := c.pendingPower.getD c.power } := by
  have hsplit : tickDrains cfg i = [fallbackPoll i, drainBandwidthRequest cfg, drainRetxRequest cfg,
      drainChannelRequest cfg i.drainRead] ++ [drainPowerRequest cfg] := rfl
  rw [hsplit, inTurn_append, inTurn_cons, inTurn_nil]
  dsimp only
  rw [drainPowerRequest_powerView, inTurn_keeps Ctx.powerView]
  · rfl
  · simp only [List.forall_mem_cons]
    refine ⟨fun c => ?_, fun c => ?_, fun c => ?_, fun c => ?_, by simp⟩
    · rw [fallbackPoll_frame]; rfl
    · rw [drainBandwidthRequest_frame]; rfl
    · rw [drainRetxRequest_frame]; rfl
    · rw [drainChannelRequest_frame]; rfl

/-- What a tick does up to the update of the low-power mode. -/
def beforeStandby (cfg : LcConfig) (i : TickInput) : List (Ctx → Ctx × List LcEvent) :=
  tickDrains cfg i ++ [switchState cfg i, pollSocTemp cfg i, overheatUpdate cfg]

theorem tick_eq :
    tick cfg i c =
      ((standbyUpdate cfg (inTurn (beforeStandby cfg i) c).1).1,
        (inTurn (beforeStandby cfg i) c).2 ++
          (standbyUpdate cfg (inTurn (beforeStandby cfg i) c).1).2) := by
  have hsplit : tickDrains cfg i ++ tickUpdates cfg i =
      beforeStandby cfg i ++ [standbyUpdate cfg] := rfl
  rw [tick, hsplit, inTurn_append, inTurn_cons, inTurn_nil, List.append_nil]

/-- Up to there the tick drains the power mailbox and follows the temperature. -/
theorem beforeStandby_view :
    (inTurn (beforeStandby cfg i) c).1.standby = c.standby ∧
      (inTurn (beforeStandby cfg i) c).1.armed = c.armed ∧
      (inTurn (beforeStandby cfg i) c).1.pendingArmed = c.pendingArmed ∧
      (inTurn (beforeStandby cfg i) c).1.pendingPower = none ∧
      (inTurn (beforeStandby cfg i) c).1.power = c.pendingPower.getD c.power ∧
      (inTurn (beforeStandby cfg i) c).1.overheat = overheatAfter cfg i c := by
  rw [beforeStandby, inTurn_append, inTurn_cons, inTurn_cons, inTurn_cons, inTurn_nil]
  dsimp only
  have hview : (switchState cfg i (inTurn (tickDrains cfg i) c).1).1.powerView =
      { c.powerView with pendingPower := none, power := c.pendingPower.getD c.power } := by
    rw [switchState_powerView, tickDrains_powerView]
  generalize (switchState cfg i (inTurn (tickDrains cfg i) c).1).1 = d at hview ⊢
  have hpower : d.power = c.pendingPower.getD c.power := congrArg PowerView.power hview
  have hpending : d.pendingPower = none := congrArg PowerView.pendingPower hview
  refine ⟨?_, ?_, ?_, ?_, ?_, overheatAfter_congr cfg i c ?_⟩
  · rw [overheatUpdate_frame, pollSocTemp_frame]
    exact congrArg PowerView.standby hview
  · rw [overheatUpdate_frame, pollSocTemp_frame]
    exact congrArg PowerView.armed hview
  · rw [overheatUpdate_frame, pollSocTemp_frame]
    exact congrArg PowerView.pendingArmed hview
  · rw [overheatUpdate_frame, pollSocTemp_frame]
    exact hpending
  · rw [overheatUpdate_frame, pollSocTemp_frame]
    exact hpower
  · rw [hview, hpower, hpending]

/-- Functions that keep the bit and agree with it do so one after another. -/
theorem inTurn_agrees {fs : List (Ctx → Ctx × List LcEvent)}
    (h : ∀ f ∈ fs, ∀ c, (f c).1.standby = c.standby ∧ Agrees c (f c).2) (c : Ctx) :
    Agrees c (inTurn fs c).2 := by
  induction fs generalizing c with
  | nil => simp [Agrees]
  | cons f fs ih =>
    obtain ⟨hkeep, hagrees⟩ := h f (by simp) c
    rw [inTurn_cons]
    exact hagrees.append ((ih (fun g hg => h g (by simp [hg])) _).congr hkeep.symm)

theorem applyLinkTuning_agrees : Agrees c (applyLinkTuning cfg i c).2 := by
  obtain ⟨before, after, h, hbefore, hafter⟩ := applyLinkTuning_events cfg i c
  rw [h]
  exact ((agrees_of_topic hbefore (by decide)).append (applyPower_agrees cfg c)).append
    (agrees_of_topic hafter (by decide))

theorem followConnect_agrees : Agrees c (followConnect cfg i c).2 := by
  obtain ⟨slot, before, after, h, hbefore, hafter⟩ := followConnect_events cfg i c
  rw [h]
  have hhook : Agrees c [.hook .connected slot] := by simp [Agrees, LcEvent.powerCmd?]
  have htuning := ((agrees_of_topic hbefore (by decide)).append (applyPower_agrees cfg c)).append
    (agrees_of_topic hafter (by decide))
  exact hhook.append htuning

/-- The connect and the relink send the command of the mode. -/
theorem switchState_agrees : Agrees c (switchState cfg i c).2 := by
  rw [switchState]
  split
  · simp [Agrees]
  · rw [idleTick]
    split_ifs
    · simp [Agrees]
    · exact followConnect_agrees cfg i c
    · simp [Agrees]
    · simp [Agrees, LcEvent.powerCmd?]
  · rw [connectedTick]
    split_ifs
    · simp [Agrees]
    · simp [followDrop, Agrees, LcEvent.powerCmd?]
    · -- of the functions called for a live link, only the relink sends a power command
      refine (inTurn_agrees ?_ _).congr rfl
      simp only [List.forall_mem_cons]
      refine ⟨fun c => ⟨?_, ?_⟩, fun c => ⟨?_, ?_⟩, fun c => ⟨?_, ?_⟩, fun c => ⟨?_, ?_⟩,
        fun c => ⟨?_, ?_⟩, by simp⟩
      · rw [followRelink_frame]
      · rw [followRelink]
        split_ifs
        · exact (applyLinkTuning_agrees cfg i _).congr rfl
        · simp [Agrees]
      · rw [dueChannelCheck_frame]
      · exact agrees_of_topic (dueChannelCheck_topic cfg i c) (by decide)
      · rw [recheckBandwidth_frame]
      · exact agrees_of_topic (recheckBandwidth_topic cfg i c) (by decide)
      · rw [retryFrameChange_frame]
      · exact agrees_of_topic (retryFrameChange_topic i c) (by decide)
      · rw [dueChannelTrack_frame]
      · exact agrees_of_topic (dueChannelTrack_topic cfg i c) (by decide)

/-- A power request in standby is applied as standby. -/
theorem drainPowerRequest_agrees : Agrees c (drainPowerRequest cfg c).2 := by
  rw [drainPowerRequest]
  split
  · simp [Agrees]
  · refine Agrees.append ?_ ((applyPower_agrees cfg _).congr rfl)
    split_ifs <;> simp [Agrees, LcEvent.powerCmd?]

theorem beforeStandby_agrees : Agrees c (inTurn (beforeStandby cfg i) c).2 := by
  refine inTurn_agrees ?_ c
  simp only [beforeStandby, tickDrains, List.cons_append, List.nil_append, List.forall_mem_cons]
  refine ⟨fun c => ⟨?_, ?_⟩, fun c => ⟨?_, ?_⟩, fun c => ⟨?_, ?_⟩, fun c => ⟨?_, ?_⟩,
    fun c => ⟨?_, ?_⟩, fun c => ⟨?_, ?_⟩, fun c => ⟨?_, ?_⟩, fun c => ⟨?_, ?_⟩, by simp⟩
  · rw [fallbackPoll_frame]
  · rw [fallbackPoll]
    split_ifs <;> simp [Agrees]
  · rw [drainBandwidthRequest_frame]
  · exact agrees_of_topic (drainBandwidthRequest_topic cfg c) (by decide)
  · rw [drainRetxRequest_frame]
  · exact agrees_of_topic (drainRetxRequest_topic cfg c) (by decide)
  · rw [drainChannelRequest_frame]
  · exact agrees_of_topic (drainChannelRequest_topic cfg c _) (by decide)
  · rw [drainPowerRequest_frame]
  · exact drainPowerRequest_agrees cfg c
  · exact congrArg PowerView.standby (switchState_powerView cfg i c)
  · exact switchState_agrees cfg i c
  · rw [pollSocTemp_frame]
  · rw [pollSocTemp]
    split_ifs
    · simp [Agrees]
    · split <;> simp [Agrees]
  · rw [overheatUpdate_frame]
  · exact agrees_of_topic (overheatUpdate_topic cfg c) (by decide)

end Tick

/-! ### The mode over whole runs -/

/-- The wanted level can be set: it is valid, or there is none. -/
def ValidPower (cfg : LcConfig) (c : Ctx) : Prop :=
  (c.power = .none ∨ lcPowerValid cfg.role cfg.maxPower c.power = true) ∧
    ∀ l, c.pendingPower = some l → lcPowerValid cfg.role cfg.maxPower l = true

/-- What the low-power mode promises after a tick. -/
structure StandbyRight (c : Ctx) (events : List LcEvent) : Prop where
  only : c.standby = true → c.armed = false ∨ c.overheat = true
  left : c.armed = true → c.overheat = false → c.standby = false
  full : c.standby = false → lastPowerCmd events ≠ some .standby
  low : c.standby = true → lastPowerCmd events = some .standby

/-- The tick does not leave the low-power mode without a level to go back to. -/
def HasLevel (cfg : LcConfig) (c : Ctx) (i : TickInput) : Prop :=
  c.standby = true → c.pendingArmed.getD c.armed = true → overheatAfter cfg i c = false →
    c.pendingPower.getD c.power ≠ .none

section Run

variable {cfg : LcConfig} {dbm : ℕ} (hap : cfg.role = .ap) (hdbm : cfg.standbyDbm = some dbm)

include hap hdbm in
theorem standbyUpdate_eq (c : Ctx) :
    standbyUpdate cfg c =
      let d := { c with pendingArmed := none, armed := c.pendingArmed.getD c.armed }
      let e := { d with standby := wantStandby d }
      (e, if wantStandby d = c.standby then [] else applyPower cfg e) := by
  rw [standbyUpdate]
  dsimp only
  by_cases hwant : wantStandby { c with
      pendingArmed := none, armed := c.pendingArmed.getD c.armed } = c.standby
  · rw [if_pos (Or.inr (Or.inr hwant)), if_pos hwant, hwant]
  · rw [if_neg, if_neg hwant]
    simp [hap, hdbm, hwant]

theorem StandbyRight.of_powerRight {c : Ctx} {es : List LcEvent} (h : PowerRight c es)
    (honly : c.standby = true → c.armed = false ∨ c.overheat = true) : StandbyRight c es where
  only := honly
  left harmed hheat := by
    by_contra hstandby
    rcases honly (by simpa using hstandby) with h | h
    · simp [harmed] at h
    · simp [hheat] at h
  full hstandby hlast := by
    rw [h.mp hlast] at hstandby
    cases hstandby
  low := h.mpr

include hap hdbm in
/-- Armed and cool, the mode is off or is left now: that is right exactly if there is a level to go
back to. -/
theorem standbyUpdate_right_of_leaving {c : Ctx} {es : List LcEvent} (hright : PowerRight c es)
    (hvalid : c.power = .none ∨ (powerLevelDbm cfg.role c.power).isSome = true)
    (hleave : c.pendingArmed.getD c.armed = true ∧ c.overheat = false) :
    StandbyRight (standbyUpdate cfg c).1 (es ++ (standbyUpdate cfg c).2) ↔
      (c.standby = true → c.power ≠ .none) := by
  have hwant : wantStandby { c with
      pendingArmed := none, armed := c.pendingArmed.getD c.armed } = false := by
    simp [wantStandby, hleave]
  rw [standbyUpdate_eq hap hdbm]
  dsimp only
  rw [hwant]
  cases hstandby : c.standby with
  | false =>
    rw [if_pos rfl, List.append_nil]
    refine iff_of_true (StandbyRight.of_powerRight ?_ ?_) (by simp)
    · exact hright.trans (by rw [hstandby])
    · simp
  | true =>
    rw [if_neg (by simp)]
    have hlast : lastPowerCmd es = some .standby := hright.mpr hstandby
    rcases hvalid with hnone | hsome
    -- no level: nothing is sent, and the chip stays at the standby power
    · refine iff_of_false (fun h => h.full rfl ?_) (fun h => h rfl hnone)
      rw [applyPower, if_neg (by simp), if_pos hnone, List.append_nil]
      exact hlast
    · have hne : c.power ≠ .none := by
        intro hnone
        rw [hnone] at hsome
        simp [powerLevelDbm] at hsome
      refine iff_of_true (StandbyRight.of_powerRight ?_ ?_) fun _ => hne
      · rw [applyPower, if_neg (by simp), if_neg hne, if_pos hsome]
        simp [PowerRight, lastPowerCmd, LcEvent.powerCmd?]
      · simp

include hap hdbm in
/-- Otherwise the mode is entered, or kept as it is. -/
theorem standbyUpdate_right_of_staying {c : Ctx} {es : List LcEvent} (hright : PowerRight c es)
    (hstay : ¬ (c.pendingArmed.getD c.armed = true ∧ c.overheat = false)) :
    StandbyRight (standbyUpdate cfg c).1 (es ++ (standbyUpdate cfg c).2) := by
  have hwant : wantStandby { c with
      pendingArmed := none, armed := c.pendingArmed.getD c.armed } =
        if c.state = .connected then true else c.standby := by
    rw [wantStandby, if_neg]
    simpa using hstay
  have honly : c.pendingArmed.getD c.armed = false ∨ c.overheat = true := by
    by_cases harmed : c.pendingArmed.getD c.armed = true
    · exact Or.inr (by simpa [harmed] using hstay)
    · exact Or.inl (by simpa using harmed)
  rw [standbyUpdate_eq hap hdbm]
  refine StandbyRight.of_powerRight ?_ fun _ => honly
  dsimp only
  split_ifs with hsame
  · rw [List.append_nil, hsame]
    exact hright
  · have hon : wantStandby { c with
        pendingArmed := none, armed := c.pendingArmed.getD c.armed } = true := by
      rw [hwant] at hsame ⊢
      split_ifs at hsame ⊢
      · rfl
      · exact absurd rfl hsame
    rw [hon, applyPower, if_pos rfl]
    simp [PowerRight, lastPowerCmd, LcEvent.powerCmd?]

include hap hdbm in
/-- Leaving the mode is right exactly if there is a level to go back to; entering it and
staying as it is are. -/
theorem standbyUpdate_right {c : Ctx} {es : List LcEvent} (hright : PowerRight c es)
    (hvalid : c.power = .none ∨ (powerLevelDbm cfg.role c.power).isSome = true) :
    StandbyRight (standbyUpdate cfg c).1 (es ++ (standbyUpdate cfg c).2) ↔
      (c.standby = true → c.pendingArmed.getD c.armed = true → c.overheat = false →
        c.power ≠ .none) := by
  by_cases hleave : c.pendingArmed.getD c.armed = true ∧ c.overheat = false
  · rw [standbyUpdate_right_of_leaving hap hdbm hright hvalid hleave]
    exact ⟨fun h hstandby _ _ => h hstandby, fun h hstandby => h hstandby hleave.1 hleave.2⟩
  · exact iff_of_true (standbyUpdate_right_of_staying hap hdbm hright hleave)
      fun _ harmed hheat => absurd ⟨harmed, hheat⟩ hleave

include hap hdbm in
/-- A tick keeps what the mode promises exactly if it does not leave the mode without a level. -/
theorem tick_standby {c : Ctx} {es : List LcEvent} (hright : PowerRight c es)
    (hvalid : ValidPower cfg c) (i : TickInput) :
    StandbyRight (tick cfg i c).1 (es ++ (tick cfg i c).2) ↔ HasLevel cfg c i := by
  obtain ⟨hstandby, harmed, hpending, -, hpower, hheat⟩ := beforeStandby_view cfg i c
  rw [tick_eq, ← List.append_assoc]
  have hlevel : c.pendingPower.getD c.power = .none ∨
      (powerLevelDbm cfg.role (c.pendingPower.getD c.power)).isSome = true := by
    have hsome {l : PowerLevel} (h : lcPowerValid cfg.role cfg.maxPower l = true) :
        (powerLevelDbm cfg.role l).isSome = true := (Bool.and_eq_true_iff.mp h).1
    cases hp : c.pendingPower with
    | none => exact hvalid.1.imp id hsome
    | some l => exact Or.inr (hsome (hvalid.2 l hp))
  rw [← hpower] at hlevel
  rw [standbyUpdate_right hap hdbm (hright.append hstandby (beforeStandby_agrees cfg i c)) hlevel,
    HasLevel, hstandby, harmed, hpending, hpower, hheat]

/-- The levels stay valid. -/
theorem ValidPower.step {c : Ctx} (h : ValidPower cfg c) (a : LcAction) :
    ValidPower cfg (lcStep cfg c a).1 := by
  cases a with
  | tick i =>
    obtain ⟨-, -, -, hnone, hpower, -⟩ := beforeStandby_view cfg i c
    rw [lcStep, tick_eq, ValidPower, standbyUpdate_frame]
    dsimp only
    rw [hpower, hnone]
    refine ⟨?_, by simp⟩
    cases hp : c.pendingPower with
    | none => exact h.1
    | some l => exact Or.inr (h.2 l hp)
  | bandwidth mhz =>
    rw [lcStep, requestBandwidth]
    split_ifs <;> exact h
  | retx retx =>
    rw [lcStep, requestRetx]
    split_ifs <;> exact h
  | channel chan => exact h
  | power level =>
    rw [lcStep, requestPower]
    split_ifs with hvalid
    · refine ⟨h.1, fun l hl => ?_⟩
      obtain rfl : level = l := by simpa using hl
      exact hvalid
    · exact h
  | armed armed => exact h

variable (saved : Saved) (table : List UInt32)

theorem lcRun_validPower (actions : List LcAction) :
    ValidPower cfg (lcRun cfg saved table actions).1 := by
  induction actions using List.reverseRecOn with
  | nil => exact ⟨initPower_valid cfg saved, by simp [lcRun, lcStart, lifecycleInit]⟩
  | append_singleton actions a ih =>
    rw [lcRun_concat]
    exact ih.step a

/-- What the mode promises, after every tick of a run. -/
def StandbyRestored (cfg : LcConfig) (saved : Saved) (table : List UInt32) :
    List LcAction → Prop :=
  Always fun past a => ∀ i, a = .tick i →
    StandbyRight (lcRun cfg saved table (past ++ [a])).1 (lcRun cfg saved table (past ++ [a])).2

/-- No tick of a run leaves the low-power mode without a level to go back to. -/
def AlwaysHasLevel (cfg : LcConfig) (saved : Saved) (table : List UInt32) :
    List LcAction → Prop :=
  Always fun past a => ∀ i, a = .tick i → HasLevel cfg (lcRun cfg saved table past).1 i

theorem lcStart_powerRight :
    PowerRight (lcStart cfg saved table).1 (lcStart cfg saved table).2 := by
  have hnil : PowerRight (lifecycleInit cfg saved table) [] :=
    iff_of_false (by simp [lastPowerCmd]) (by simp [lifecycleInit])
  refine hnil.append rfl (Agrees.append ?_ ?_)
  · split_ifs <;> simp [Agrees, LcEvent.powerCmd?]
  · split_ifs
    · simp [Agrees]
    · exact applyPower_agrees cfg _

/-- Between the ticks the last command stays right. -/
theorem powerRight_of_restored {actions : List LcAction}
    (h : StandbyRestored cfg saved table actions) :
    PowerRight (lcRun cfg saved table actions).1 (lcRun cfg saved table actions).2 := by
  induction actions using List.reverseRecOn with
  | nil =>
    rw [lcRun, Mealy.run_nil, List.append_nil]
    exact lcStart_powerRight saved table
  | append_singleton actions a ih =>
    obtain ⟨hpast, hlast⟩ := always_concat_iff.mp h
    by_cases ha : ∃ i, a = .tick i
    · obtain ⟨i, rfl⟩ := ha
      have hright := hlast i rfl
      cases hstandby : (lcRun cfg saved table (actions ++ [.tick i])).1.standby with
      | false => exact iff_of_false (hright.full hstandby) (by simp [hstandby])
      | true => exact iff_of_true (hright.low hstandby) hstandby
    · have hreq : ∀ i, a ≠ .tick i := fun i h => ha ⟨i, h⟩
      rw [lcRun_concat, lcStep_silent cfg hreq, List.append_nil]
      exact (ih hpast).trans (by rw [lcStep_frame cfg hreq])

include hap hdbm in
/-- **Leaving the low-power mode.** On an AP with a standby power, in every run that mixes
requests with ticks: after every tick the mode is on only while disarmed or too hot and the
last power command is the standby one exactly while it is on, if and only if no tick leaves the
mode while no power level is wanted. -/
theorem standby_restored_iff (actions : List LcAction) :
    StandbyRestored cfg saved table actions ↔ AlwaysHasLevel cfg saved table actions := by
  induction actions using List.reverseRecOn with
  | nil => exact iff_of_true always_nil always_nil
  | append_singleton actions a ih =>
    rw [StandbyRestored, AlwaysHasLevel, always_concat_iff, always_concat_iff]
    rw [StandbyRestored, AlwaysHasLevel] at ih
    rw [← ih]
    refine and_congr_right fun hpast => forall_congr' fun i => imp_congr_right fun ha => ?_
    subst ha
    rw [lcRun_concat]
    exact tick_standby hap hdbm (powerRight_of_restored saved table hpast)
      (lcRun_validPower saved table actions) i

/-- With a level to start with there always is one. -/
theorem alwaysHasLevel_of_initPower (h : initPower cfg saved ≠ .none) (actions : List LcAction) :
    AlwaysHasLevel cfg saved table actions := by
  have hlevel (past : List LcAction) : (lcRun cfg saved table past).1.power ≠ .none := by
    induction past using List.reverseRecOn with
    | nil => exact h
    | append_singleton past a ih =>
      rw [lcRun_concat]
      by_cases ha : ∃ i, a = .tick i
      · obtain ⟨i, rfl⟩ := ha
        obtain ⟨-, -, -, -, hpower, -⟩ := beforeStandby_view cfg i (lcRun cfg saved table past).1
        rw [lcStep, tick_eq, standbyUpdate_frame]
        dsimp only
        rw [hpower]
        cases hp : (lcRun cfg saved table past).1.pendingPower with
        | none => exact ih
        | some l => exact ne_none_of_lcPowerValid ((lcRun_validPower saved table past).2 l hp)
      · rw [lcStep_frame cfg fun i h => ha ⟨i, h⟩]
        exact ih
  rintro past a post - i - - - -
  cases hp : (lcRun cfg saved table past).1.pendingPower with
  | none => exact hlevel past
  | some l => exact ne_none_of_lcPowerValid ((lcRun_validPower saved table past).2 l hp)

end Run

/-! ### Disarmed and armed again -/

/-- An AP with a standby power of 10 dBm. -/
def standbyCfg (power : DefaultPower) : LcConfig :=
  { plainCfg .ap with defaultPower := power, standbyDbm := some 10 }

/-- A tick that finds the link up. -/
def linkedTick : TickInput := plainTick 0 .connect

/-- Disarmed, connected, and armed again. -/
def armAgain : List LcAction :=
  [.armed false, .tick linkedTick, .tick linkedTick, .tick linkedTick, .armed true,
    .tick linkedTick]

theorem standby_restored_role_default :
    StandbyRestored (standbyCfg .roleDefault) ⟨none, none⟩ [] armAgain :=
  (standby_restored_iff rfl rfl ⟨none, none⟩ [] armAgain).mpr
    (alwaysHasLevel_of_initPower ⟨none, none⟩ [] (by decide) armAgain)

/-- Without a wanted level the armed aircraft keeps transmitting at the standby power. -/
theorem armed_at_standby_power :
    ¬StandbyRestored (standbyCfg (.level .none)) ⟨none, none⟩ [] armAgain := by
  intro h
  have hright := h [.armed false, .tick linkedTick, .tick linkedTick, .tick linkedTick,
    .armed true] (.tick linkedTick) [] rfl linkedTick rfl
  exact hright.full (by decide) (by decide)

end Ar8030
