import Ar8030Transport.Lifecycled.Thread

/-!
# Runs of the lifecycle daemon

How the context starts (`lifecycle_init` and the thread up to its loop), how HTTP threads
write to its mailboxes, and runs that mix ticks with such requests. A mailbox is read by its
own drain only, so a request that comes in the middle of a tick does what it would do before
or after it.

`inTurn_keeps` and `inTurn_silent` are the frame rules for a tick: what none of its functions
changes it does not change, and what none of them does it does not do.
-/

namespace Ar8030

/-! ### Requests -/

/-- The bandwidths `lc_tuning_valid_mhz` knows. -/
def validMhz : List ℤ := [1, 2, 5, 10, 20, 40]

/-- `lifecycle_request_bandwidth`. -/
def requestBandwidth (mhz : ℤ) (c : Ctx) : Ctx :=
  if mhz ∈ validMhz then { c with pendingBandwidthMhz := mhz } else c

/-- `lifecycle_request_retx`, after `lc_retx_valid`: the fields fit a byte. -/
def requestRetx (retx : RetxCfg) (c : Ctx) : Ctx :=
  if retx.win ≤ 255 ∧ retx.busy ≤ 255 ∧ retx.idle ≤ 255 ∧ retx.contiBusy ≤ 255 ∧
      retx.contiIdle ≤ 255 then
    { c with pendingRetx := some retx }
  else c

/-- The tests of `lifecycle_request_channel`. -/
def acceptsChannel (cfg : LcConfig) (chan : Channel) (c : Ctx) : Bool :=
  chan.isRequestable && (cfg.role == .ap || c.state == .connected)

/-- Its write to the mailbox, some time later. -/
def postChannel (chan : Channel) (c : Ctx) : Ctx := { c with pendingChannel := some chan }

/-- `lifecycle_request_power`. -/
def requestPower (cfg : LcConfig) (level : PowerLevel) (c : Ctx) : Ctx :=
  if lcPowerValid cfg.role cfg.maxPower level then { c with pendingPower := some level } else c

/-- `lifecycle_request_armed`. -/
def requestArmed (armed : Bool) (c : Ctx) : Ctx := { c with pendingArmed := some armed }

/-- What can happen to the context: a tick, or a request. -/
inductive LcAction where
  | tick (i : TickInput)
  | bandwidth (mhz : ℤ)
  | retx (retx : RetxCfg)
  | channel (chan : Channel)
  | power (level : PowerLevel)
  | armed (armed : Bool)
  deriving DecidableEq, Repr

/-- A request for a channel. -/
def LcAction.isChannel : LcAction → Bool
  | .channel _ => true
  | _ => false

/-- One action. -/
def lcStep (cfg : LcConfig) (c : Ctx) : LcAction → Ctx × List LcEvent
  | .tick i => tick cfg i c
  | .bandwidth mhz => (requestBandwidth mhz c, [])
  | .retx retx => (requestRetx retx c, [])
  | .channel chan => (postChannel chan c, [])
  | .power level => (requestPower cfg level c, [])
  | .armed armed => (requestArmed armed c, [])

/-- A request does nothing that can be seen. -/
theorem lcStep_silent (cfg : LcConfig) {a : LcAction} (ha : ∀ i, a ≠ .tick i) (c : Ctx) :
    (lcStep cfg c a).2 = [] := by
  cases a with
  | tick i => exact absurd rfl (ha i)
  | _ => rfl

/-- A request writes to the mailboxes only. -/
theorem lcStep_frame (cfg : LcConfig) {a : LcAction} (ha : ∀ i, a ≠ .tick i) (c : Ctx) :
    (lcStep cfg c a).1 =
      { c with
        pendingBandwidthMhz := (lcStep cfg c a).1.pendingBandwidthMhz
        pendingRetx := (lcStep cfg c a).1.pendingRetx
        pendingChannel := (lcStep cfg c a).1.pendingChannel
        pendingPower := (lcStep cfg c a).1.pendingPower
        pendingArmed := (lcStep cfg c a).1.pendingArmed } := by
  cases a with
  | tick i => exact absurd rfl (ha i)
  | bandwidth mhz =>
    rw [lcStep, requestBandwidth]
    split_ifs <;> rfl
  | retx retx =>
    rw [lcStep, requestRetx]
    split_ifs <;> rfl
  | channel chan => rfl
  | power level =>
    rw [lcStep, requestPower]
    split_ifs <;> rfl
  | armed armed => rfl

/-! ### The start -/

/-- What the files next to the configuration hold. -/
structure Saved where
  channel : Option Channel
  power : Option PowerLevel
  deriving DecidableEq, Repr

/-- The wanted channel at the start. -/
def initChannel (cfg : LcConfig) (saved : Saved) : Channel :=
  if cfg.role = .ap then
    (if cfg.hasCfgPath then saved.channel else none).getD cfg.defaultChannel
  else .none

/-- `--default-power`, resolved. -/
def defaultPowerLevel (cfg : LcConfig) : PowerLevel :=
  match cfg.defaultPower with
  | .roleDefault => lcPowerDefault cfg.role cfg.maxPower
  | .level l => l

/-- The saved level if it is valid, else the default one. -/
def savedPowerLevel (cfg : LcConfig) (saved : Saved) : PowerLevel :=
  match if cfg.hasCfgPath then saved.power else none with
  | some l => if lcPowerValid cfg.role cfg.maxPower l then l else defaultPowerLevel cfg
  | none => defaultPowerLevel cfg

/-- The wanted power at the start. -/
def initPower (cfg : LcConfig) (saved : Saved) : PowerLevel :=
  let l := savedPowerLevel cfg saved
  if l ≠ .none ∧ lcPowerValid cfg.role cfg.maxPower l = false then
    lcPowerDefault cfg.role cfg.maxPower
  else l

/-- The context `lifecycle_init` makes, with the chip's channel table. -/
def lifecycleInit (cfg : LcConfig) (saved : Saved) (table : List UInt32) : Ctx where
  state := .init
  connectedSlot := -1
  dropMissCount := 0
  connectConfirmCount := 0
  frameChangePending := false
  connectGen := 0
  lastBandwidth := -1
  idleHookFired := false
  pendingBandwidthMhz := -1
  pendingRetx := none
  pendingChannel := none
  pendingPower := none
  pendingArmed := none
  chanTable := table
  power := initPower cfg saved
  armed := true
  standby := false
  socTempLast := 0
  socTempValid := false
  socTempC10 := 0
  overheat := false
  channel := initChannel cfg saved
  chanRead := none
  chanSettled := false
  chanCheckAt := 0
  chanPushesLeft := 0
  lastFallbackPoll := 0
  didFallbackPoll := false

/-- The thread up to its loop: the channel mode and the power, before any link. -/
def lcStart (cfg : LcConfig) (saved : Saved) (table : List UInt32) : Ctx × List LcEvent :=
  let c := lifecycleInit cfg saved table
  ({ c with state := .idle },
    (if c.channel = .none then [] else [.setChanMode c.channel]) ++
      if c.power = .none then [] else applyPower cfg c)

/-- A run from the start. -/
def lcRun (cfg : LcConfig) (saved : Saved) (table : List UInt32) (actions : List LcAction) :
    Ctx × List LcEvent :=
  let r := Mealy.run (lcStep cfg) (lcStart cfg saved table).1 actions
  (r.1, (lcStart cfg saved table).2 ++ r.2)

theorem lcRun_concat (cfg : LcConfig) (saved : Saved) (table : List UInt32)
    (actions : List LcAction) (a : LcAction) :
    lcRun cfg saved table (actions ++ [a]) =
      ((lcStep cfg (lcRun cfg saved table actions).1 a).1,
        (lcRun cfg saved table actions).2 ++
          (lcStep cfg (lcRun cfg saved table actions).1 a).2) := by
  simp only [lcRun, Mealy.run_concat, List.append_assoc]

/-- An accepted configuration starts with a valid level, or leaves the power alone. -/
theorem initPower_valid (cfg : LcConfig) (saved : Saved) :
    initPower cfg saved = .none ∨
      lcPowerValid cfg.role cfg.maxPower (initPower cfg saved) = true := by
  have hdefault : lcPowerValid cfg.role cfg.maxPower (lcPowerDefault cfg.role cfg.maxPower) =
      true := by
    refine lcPowerDefault_valid ?_
    rcases cfg.maxPower_ok with h | h
    · rw [h, lcPowerDefault_zero]
      simp
    · exact h
  rw [initPower]
  split_ifs with h
  · exact Or.inr hdefault
  · by_cases hnone : savedPowerLevel cfg saved = .none
    · exact Or.inl hnone
    · right
      cases hv : lcPowerValid cfg.role cfg.maxPower (savedPowerLevel cfg saved) with
      | false => exact absurd ⟨hnone, hv⟩ h
      | true => rfl

/-! ### Frame rules -/

section Frame

variable {fs : List (Ctx → Ctx × List LcEvent)}

@[simp]
theorem inTurn_nil (c : Ctx) : inTurn [] c = (c, []) := rfl

theorem inTurn_cons (f : Ctx → Ctx × List LcEvent) (c : Ctx) :
    inTurn (f :: fs) c = ((inTurn fs (f c).1).1, (f c).2 ++ (inTurn fs (f c).1).2) := rfl

theorem inTurn_append (gs : List (Ctx → Ctx × List LcEvent)) (c : Ctx) :
    inTurn (fs ++ gs) c =
      ((inTurn gs (inTurn fs c).1).1, (inTurn fs c).2 ++ (inTurn gs (inTurn fs c).1).2) :=
  Mealy.run_append _ c fs gs

/-- What no function changes stays. -/
theorem inTurn_keeps {α : Type*} (view : Ctx → α) (h : ∀ f ∈ fs, ∀ c, view (f c).1 = view c)
    (c : Ctx) : view (inTurn fs c).1 = view c := by
  induction fs generalizing c with
  | nil => rfl
  | cons f fs ih =>
    rw [inTurn_cons]
    exact (ih (fun g hg => h g (by simp [hg])) _).trans (h f (by simp) c)

/-- What each function may do to the context, they may do in turn. -/
theorem inTurn_rel {R : Ctx → Ctx → Prop} (hrefl : ∀ c, R c c)
    (htrans : ∀ a b c, R a b → R b c → R a c) (h : ∀ f ∈ fs, ∀ c, R c (f c).1) (c : Ctx) :
    R c (inTurn fs c).1 := by
  induction fs generalizing c with
  | nil => exact hrefl c
  | cons f fs ih =>
    rw [inTurn_cons]
    exact htrans _ _ _ (h f (by simp) c) (ih (fun g hg => h g (by simp [hg])) (f c).1)

/-- What no function does is not done. -/
theorem inTurn_silent {β : Type*} (view : LcEvent → Option β)
    (h : ∀ f ∈ fs, ∀ c, (f c).2.filterMap view = []) (c : Ctx) :
    (inTurn fs c).2.filterMap view = [] := by
  induction fs generalizing c with
  | nil => rfl
  | cons f fs ih =>
    rw [inTurn_cons, List.filterMap_append, h f (by simp) c, ih fun g hg => h g (by simp [hg])]
    rfl

/-- Both at once, where the functions need to know something of what they keep. -/
theorem inTurn_frame {α β : Type*} (view : Ctx → α) (seen : LcEvent → Option β) (P : α → Prop)
    (h : ∀ f ∈ fs, ∀ c, P (view c) → view (f c).1 = view c ∧ (f c).2.filterMap seen = [])
    (c : Ctx) (hc : P (view c)) :
    view (inTurn fs c).1 = view c ∧ (inTurn fs c).2.filterMap seen = [] := by
  induction fs generalizing c with
  | nil => exact ⟨rfl, rfl⟩
  | cons f fs ih =>
    obtain ⟨hview, hseen⟩ := h f (by simp) c hc
    have hrest := ih (fun g hg => h g (by simp [hg])) (f c).1 (by rwa [hview])
    rw [inTurn_cons, List.filterMap_append, hseen, hrest.2]
    exact ⟨hrest.1.trans hview, rfl⟩

end Frame

/-! ### What each function writes

Every function but the switch on the state writes a few fields only. -/

section Footprint

variable (cfg : LcConfig) (i : TickInput) (c : Ctx)

/-- What `lc_channel_check_link` can do: nothing, give up, find no neighbour, or push. -/
theorem channelCheckLink_cases :
    channelCheckLink cfg i c = ({ c with chanCheckAt := 0 }, []) ∨
    (c.chanPushesLeft = 0 ∧
      channelCheckLink cfg i c = ({ c with chanCheckAt := 0 }, [.chanGaveUp])) ∨
    (∃ r, lcChannelMatches c.channel r = true ∧ 0 < c.chanPushesLeft ∧
      channelCheckLink cfg i c =
        ({ c with
            chanCheckAt := 0
            chanPushesLeft := c.chanPushesLeft - 1
            chanSettled := false }, [])) ∨
    ∃ r target, i.checkRead = some r ∧ (cfg.role = .ap ∧ c.channel ≠ .none) ∧
      0 < c.chanPushesLeft ∧ pushTarget c r = some target ∧
      channelCheckLink cfg i c =
        ({ c with
            chanCheckAt := i.pushTime + lcChanCheckDelayS
            chanPushesLeft := c.chanPushesLeft - 1
            chanSettled := false },
          [.setChanLinked c.connectedSlot target]) := by
  rw [channelCheckLink]
  dsimp only
  split
  · exact Or.inl rfl
  · next hap =>
    split
    · exact Or.inl rfl
    · next r hr =>
      split
      · exact Or.inl rfl
      · split
        · exact Or.inl rfl
        · split
          · next hleft => exact Or.inr (Or.inl ⟨hleft, rfl⟩)
          · next hleft =>
            right; right
            split
            · next hnone =>
              -- only a detour can lack a neighbour
              refine Or.inl ⟨r, ?_, Nat.pos_of_ne_zero hleft, rfl⟩
              by_contra hmatch
              rw [pushTarget, if_neg hmatch] at hnone
              simp at hnone
            · next target htarget =>
              exact Or.inr ⟨r, target, hr, by simpa [not_or] using hap, Nat.pos_of_ne_zero hleft,
                htarget, rfl⟩

theorem fallbackPoll_frame :
    (fallbackPoll i c).1 =
      { c with
        lastFallbackPoll := (fallbackPoll i c).1.lastFallbackPoll
        didFallbackPoll := (fallbackPoll i c).1.didFallbackPoll } := by
  rw [fallbackPoll]
  split_ifs <;> rfl

theorem drainBandwidthRequest_frame :
    (drainBandwidthRequest cfg c).1 =
      { c with
        pendingBandwidthMhz := (drainBandwidthRequest cfg c).1.pendingBandwidthMhz
        lastBandwidth := (drainBandwidthRequest cfg c).1.lastBandwidth } := by
  rw [drainBandwidthRequest]
  dsimp only
  split_ifs <;> rfl

theorem drainRetxRequest_frame :
    (drainRetxRequest cfg c).1 =
      { c with pendingRetx := (drainRetxRequest cfg c).1.pendingRetx } := by
  rw [drainRetxRequest]
  split <;> rfl

theorem drainChannelRequest_frame (read : Option ChanReading) :
    (drainChannelRequest cfg read c).1 =
      { c with
        pendingChannel := (drainChannelRequest cfg read c).1.pendingChannel
        channel := (drainChannelRequest cfg read c).1.channel
        chanSettled := (drainChannelRequest cfg read c).1.chanSettled } := by
  rw [drainChannelRequest]
  split
  · rfl
  · dsimp only
    split_ifs <;> rfl

theorem drainPowerRequest_frame :
    (drainPowerRequest cfg c).1 =
      { c with
        pendingPower := (drainPowerRequest cfg c).1.pendingPower
        power := (drainPowerRequest cfg c).1.power } := by
  rw [drainPowerRequest]
  split <;> rfl

theorem pollSocTemp_frame :
    (pollSocTemp cfg i c).1 =
      { c with
        socTempLast := (pollSocTemp cfg i c).1.socTempLast
        socTempValid := (pollSocTemp cfg i c).1.socTempValid
        socTempC10 := (pollSocTemp cfg i c).1.socTempC10 } := by
  rw [pollSocTemp]
  split_ifs
  · rfl
  · split <;> rfl

theorem overheatUpdate_frame :
    (overheatUpdate cfg c).1 = { c with overheat := (overheatUpdate cfg c).1.overheat } := by
  rw [overheatUpdate]
  split
  · rfl
  · split_ifs <;> rfl

theorem standbyUpdate_frame :
    (standbyUpdate cfg c).1 =
      { c with
        pendingArmed := (standbyUpdate cfg c).1.pendingArmed
        armed := (standbyUpdate cfg c).1.armed
        standby := (standbyUpdate cfg c).1.standby } := by
  rw [standbyUpdate]
  dsimp only
  split_ifs <;> rfl

theorem followRelink_frame :
    (followRelink cfg i c).1 =
      { c with
        connectGen := (followRelink cfg i c).1.connectGen
        frameChangePending := (followRelink cfg i c).1.frameChangePending
        chanCheckAt := (followRelink cfg i c).1.chanCheckAt } := by
  rw [followRelink]
  split_ifs <;> rfl

theorem dueChannelCheck_frame :
    (dueChannelCheck cfg i c).1 =
      { c with
        chanCheckAt := (dueChannelCheck cfg i c).1.chanCheckAt
        chanPushesLeft := (dueChannelCheck cfg i c).1.chanPushesLeft
        chanSettled := (dueChannelCheck cfg i c).1.chanSettled } := by
  rw [dueChannelCheck]
  split_ifs
  · rcases channelCheckLink_cases cfg i c with h | ⟨-, h⟩ | ⟨_, -, -, h⟩ | ⟨_, _, -, -, -, -, h⟩ <;>
      rw [h]
  · rfl

theorem recheckBandwidth_frame :
    (recheckBandwidth cfg i c).1 =
      { c with frameChangePending := (recheckBandwidth cfg i c).1.frameChangePending } := by
  rw [recheckBandwidth]
  split_ifs <;> rfl

theorem retryFrameChange_frame :
    (retryFrameChange i c).1 =
      { c with frameChangePending := (retryFrameChange i c).1.frameChangePending } := by
  rw [retryFrameChange]
  split_ifs <;> rfl

theorem dueChannelTrack_frame :
    (dueChannelTrack cfg i c).1 =
      { c with
        chanRead := (dueChannelTrack cfg i c).1.chanRead
        channel := (dueChannelTrack cfg i c).1.channel
        chanSettled := (dueChannelTrack cfg i c).1.chanSettled } := by
  rw [dueChannelTrack]
  split_ifs
  · rw [channelTrack]
    split
    · rfl
    · dsimp only
      split_ifs <;> rfl
  · rfl

theorem drainChannelRequest_pendingChannel (read : Option ChanReading) :
    (drainChannelRequest cfg read c).1.pendingChannel = none := by
  rw [drainChannelRequest]
  split
  · next h => exact h
  · dsimp only
    split_ifs <;> rfl

/-- The first part of a tick empties the channel's mailbox. -/
theorem tickDrains_pendingChannel : (inTurn (tickDrains cfg i) c).1.pendingChannel = none := by
  rw [tickDrains, inTurn_cons, inTurn_cons, inTurn_cons, inTurn_cons, inTurn_cons, inTurn_nil]
  dsimp only
  rw [drainPowerRequest_frame]
  exact drainChannelRequest_pendingChannel cfg _ _

/-- No more is written than the requests, what they are for and the fallback poll. -/
def Ctx.DrainsTo (c c' : Ctx) : Prop :=
  ∃ lastFallbackPoll didFallbackPoll pendingBandwidthMhz lastBandwidth pendingRetx pendingChannel
      channel chanSettled pendingPower power,
    c' =
      { c with
        lastFallbackPoll, didFallbackPoll, pendingBandwidthMhz, lastBandwidth, pendingRetx
        pendingChannel, channel, chanSettled, pendingPower, power }

/-- The first part of a tick drains the requests. -/
theorem tickDrains_frame : c.DrainsTo (inTurn (tickDrains cfg i) c).1 := by
  refine inTurn_rel (R := Ctx.DrainsTo) (fun c => ⟨_, _, _, _, _, _, _, _, _, _, rfl⟩) ?_ ?_ c
  · rintro a b c ⟨_, _, _, _, _, _, _, _, _, _, rfl⟩ ⟨_, _, _, _, _, _, _, _, _, _, rfl⟩
    exact ⟨_, _, _, _, _, _, _, _, _, _, rfl⟩
  · simp only [tickDrains, List.forall_mem_cons]
    refine ⟨fun c => ?_, fun c => ?_, fun c => ?_, fun c => ?_, fun c => ?_, by simp⟩
    · exact ⟨_, _, _, _, _, _, _, _, _, _, fallbackPoll_frame i c⟩
    · exact ⟨_, _, _, _, _, _, _, _, _, _, drainBandwidthRequest_frame cfg c⟩
    · exact ⟨_, _, _, _, _, _, _, _, _, _, drainRetxRequest_frame cfg c⟩
    · exact ⟨_, _, _, _, _, _, _, _, _, _, drainChannelRequest_frame cfg c _⟩
    · exact ⟨_, _, _, _, _, _, _, _, _, _, drainPowerRequest_frame cfg c⟩

theorem tickDrains_state : (inTurn (tickDrains cfg i) c).1.state = c.state := by
  obtain ⟨_, _, _, _, _, _, _, _, _, _, hframe⟩ := tickDrains_frame cfg i c
  rw [hframe]

/-- No more is written than what follows the connection. -/
def Ctx.FollowsTo (c c' : Ctx) : Prop :=
  ∃ connectGen frameChangePending chanCheckAt chanPushesLeft chanSettled chanRead channel,
    c' =
      { c with
        connectGen, frameChangePending, chanCheckAt, chanPushesLeft, chanSettled, chanRead
        channel }

/-- The steps of a tick on a live link. -/
theorem linkedSteps_frame :
    c.FollowsTo (inTurn [followRelink cfg i, dueChannelCheck cfg i, recheckBandwidth cfg i,
      retryFrameChange i, dueChannelTrack cfg i] c).1 := by
  refine inTurn_rel (R := Ctx.FollowsTo) (fun c => ⟨_, _, _, _, _, _, _, rfl⟩) ?_ ?_ c
  · rintro a b c ⟨_, _, _, _, _, _, _, rfl⟩ ⟨_, _, _, _, _, _, _, rfl⟩
    exact ⟨_, _, _, _, _, _, _, rfl⟩
  · simp only [List.forall_mem_cons]
    refine ⟨fun c => ?_, fun c => ?_, fun c => ?_, fun c => ?_, fun c => ?_, by simp⟩
    · exact ⟨_, _, _, _, _, _, _, followRelink_frame cfg i c⟩
    · exact ⟨_, _, _, _, _, _, _, dueChannelCheck_frame cfg i c⟩
    · exact ⟨_, _, _, _, _, _, _, recheckBandwidth_frame cfg i c⟩
    · exact ⟨_, _, _, _, _, _, _, retryFrameChange_frame i c⟩
    · exact ⟨_, _, _, _, _, _, _, dueChannelTrack_frame cfg i c⟩

end Footprint

/-! ### What each function is about -/

/-- What an event is about. -/
inductive Topic where
  | link
  | heat
  | power
  | channel
  | tuning
  deriving DecidableEq, Repr

def LcEvent.topic : LcEvent → Topic
  | .hook .overheat _ | .hook .resume _ => .heat
  | .hook _ _ => .link
  | .setPower _ | .setStandbyPower _ | .savePower _ => .power
  | .setChanMode _ | .setChanLinked _ _ | .saveChannel _ | .chanGaveUp => .channel
  | _ => .tuning

/-- A view of one topic sees nothing of the others. -/
theorem filterMap_eq_nil_of_topic {β : Type*} {view : LcEvent → Option β} {t : Topic}
    (hview : ∀ e, e.topic ≠ t → view e = none) {es : List LcEvent} (h : ∀ e ∈ es, e.topic ≠ t) :
    es.filterMap view = [] :=
  List.filterMap_eq_nil_iff.mpr fun e he => hview e (h e he)

section Topics

variable (cfg : LcConfig) (i : TickInput) (c : Ctx)

theorem drainBandwidthRequest_topic :
    ∀ e ∈ (drainBandwidthRequest cfg c).2, e.topic = .tuning := by
  rw [drainBandwidthRequest]
  dsimp only
  split_ifs <;> simp [LcEvent.topic]

theorem drainRetxRequest_topic : ∀ e ∈ (drainRetxRequest cfg c).2, e.topic = .tuning := by
  rw [drainRetxRequest]
  split
  · simp
  · split_ifs <;> simp [LcEvent.topic]

theorem drainChannelRequest_topic (read : Option ChanReading) :
    ∀ e ∈ (drainChannelRequest cfg read c).2, e.topic = .channel := by
  rw [drainChannelRequest]
  split
  · simp
  · dsimp only
    split_ifs <;> simp [LcEvent.topic]

theorem applyPower_topic : ∀ e ∈ applyPower cfg c, e.topic = .power := by
  rw [applyPower]
  split_ifs <;> simp [LcEvent.topic]

theorem drainPowerRequest_topic : ∀ e ∈ (drainPowerRequest cfg c).2, e.topic = .power := by
  rw [drainPowerRequest]
  split
  · simp
  · dsimp only
    rw [List.forall_mem_append]
    refine ⟨?_, applyPower_topic cfg _⟩
    split_ifs <;> simp [LcEvent.topic]

/-- The link tuning is about the tuning, but for the power it sets again. -/
theorem applyLinkTuning_events :
    ∃ before after, (applyLinkTuning cfg i c).2 = before ++ applyPower cfg c ++ after ∧
      (∀ e ∈ before, e.topic = .tuning) ∧ ∀ e ∈ after, e.topic = .tuning := by
  rw [applyLinkTuning]
  refine ⟨_, _, List.append_assoc _ _ _, by simp [LcEvent.topic], ?_⟩
  rw [List.forall_mem_append]
  constructor <;> split_ifs <;> simp [LcEvent.topic]

/-- A connect dispatches its hook, and sets the power again with the rest of the tuning. -/
theorem followConnect_events :
    ∃ slot before after,
      (followConnect cfg i c).2 = .hook .connected slot :: (before ++ applyPower cfg c ++ after) ∧
        (∀ e ∈ before, e.topic = .tuning) ∧ ∀ e ∈ after, e.topic = .tuning := by
  obtain ⟨before, after, h, hbefore, hafter⟩ := applyLinkTuning_events cfg i
    { c with
      connectConfirmCount := 0
      connectedSlot := if 0 ≤ i.resolvedSlot then i.resolvedSlot else 0
      state := .connected
      connectGen := i.connectGen
      lastBandwidth := connectBandwidth cfg i }
  rw [followConnect, applyTuningOnConnect]
  dsimp only
  rw [h]
  have hassoc (hook : LcEvent) (bw power mac : List LcEvent) :
      hook :: (bw ++ (before ++ power ++ after)) ++ mac =
        hook :: (bw ++ before ++ power ++ (after ++ mac)) := by
    simp
  refine ⟨_, _, _, hassoc _ _ _ _, ?_, ?_⟩
  · rw [List.forall_mem_append]
    refine ⟨?_, hbefore⟩
    split_ifs <;> simp [LcEvent.topic]
  · rw [List.forall_mem_append]
    refine ⟨hafter, ?_⟩
    split_ifs <;> simp [LcEvent.topic]

theorem dueChannelCheck_topic : ∀ e ∈ (dueChannelCheck cfg i c).2, e.topic = .channel := by
  rw [dueChannelCheck]
  split_ifs
  · rcases channelCheckLink_cases cfg i c with h | ⟨-, h⟩ | ⟨_, -, -, h⟩ | ⟨_, _, -, -, -, -, h⟩ <;>
      simp [h, LcEvent.topic]
  · simp

theorem recheckBandwidth_topic : ∀ e ∈ (recheckBandwidth cfg i c).2, e.topic = .tuning := by
  rw [recheckBandwidth]
  split_ifs <;> simp [LcEvent.topic]

theorem retryFrameChange_topic : ∀ e ∈ (retryFrameChange i c).2, e.topic = .tuning := by
  rw [retryFrameChange]
  split_ifs <;> simp [LcEvent.topic]

theorem dueChannelTrack_topic : ∀ e ∈ (dueChannelTrack cfg i c).2, e.topic = .channel := by
  rw [dueChannelTrack]
  split_ifs
  · rw [channelTrack]
    split
    · simp
    · dsimp only
      split_ifs <;> simp [LcEvent.topic]
  · simp

theorem overheatUpdate_topic : ∀ e ∈ (overheatUpdate cfg c).2, e.topic = .heat := by
  rw [overheatUpdate]
  split
  · simp
  · split_ifs <;> simp [LcEvent.topic]

theorem standbyUpdate_topic : ∀ e ∈ (standbyUpdate cfg c).2, e.topic = .power := by
  rw [standbyUpdate]
  dsimp only
  split_ifs
  · simp
  · exact applyPower_topic cfg _

end Topics

/-! ### Plain runs -/

/-- A daemon without any of its options. -/
def plainCfg (role : Role) : LcConfig where
  role := role
  hasCfgPath := false
  defaultBandwidth := 20
  frameChange := false
  defaultChannel := .none
  defaultPower := .roleDefault
  maxPower := 0
  linkPolicy := -1
  standbyDbm := none
  hasSocTempCmd := false
  overheatC := none
  overheatResumeC := 0
  maxPower_ok := Or.inl rfl

/-- A tick that reads the link state and nothing else. -/
def plainTick (now : ℕ) (reading : LinkState) : TickInput where
  now := now
  linkTime := now
  pushTime := now
  socTime := now
  reading := some reading
  connectGen := 0
  resolvedSlot := 0
  loadedBandwidth := -1
  loadedRetx := none
  currentBandwidth := -1
  frameChangeOk := true
  frameChangePollOk := true
  drainRead := none
  checkRead := none
  trackRead := none
  downKhz := 0
  upKhz := 0
  soc := .notRun

end Ar8030
