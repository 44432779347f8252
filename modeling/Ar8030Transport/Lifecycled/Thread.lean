import Mathlib.Data.Int.Notation
import Ar8030Transport.Library.Mealy
import Ar8030Transport.Lifecycled.Tuning

/-!
# The lifecycle thread

`lifecycle_thread_main` of `lifecycled/lifecycle.c`: a loop that once a second drains the
mailboxes of the HTTP threads, follows the link state with a debounce, keeps the channel and
the output power where they should be, and enters or leaves the low-power mode. `Ctx` is
`lifecycle_ctx` and `tick` one round of the loop, the composition of its functions in the
order of the source; each answers with the new context and what it did (`LcEvent`).

What the chip, the clock and the saved files say is decided outside: `TickInput` has one field
for each place of a tick that asks. The retransmission settings and the list of remembered
peers have mailboxes of their own that touch nothing else; the latter is left out, as are the
readings that are only published (distance, byte counters, link quality, temperatures, supply
voltage).
-/

namespace Ar8030

/-! ### The data -/

/-- `LC_POLL_FALLBACK_S`. -/
def lcPollFallbackS : ℕ := 5

/-- `LC_SOC_TEMP_POLL_S`. -/
def lcSocTempPollS : ℕ := 2

/-- `LC_CONNECT_CONFIRM_TICKS`. -/
def lcConnectConfirmTicks : ℕ := 3

/-- `LC_DROP_CONFIRM_TICKS`. -/
def lcDropConfirmTicks : ℕ := 6

/-- `LC_CHAN_CHECK_DELAY_S`. -/
def lcChanCheckDelayS : ℕ := 3

/-- `LC_CHAN_PUSHES`. -/
def lcChanPushes : ℕ := 4

/-- `lc_state_e`. -/
inductive LcState where
  | init
  | idle
  | connected
  deriving DecidableEq, Repr

/-- `bb_link_state_e`, as far as the thread tells its values apart. -/
inductive LinkState where
  | connect
  | other
  deriving DecidableEq, Repr

/-- The hooks of `hooks.d`. -/
inductive Hook where
  | idle
  | connected
  | dropped
  | overheat
  | resume
  deriving DecidableEq, Repr

/-- `bb_retx_cfg_t`. -/
structure RetxCfg where
  win : ℕ
  busy : ℕ
  idle : ℕ
  contiBusy : ℕ
  contiIdle : ℕ
  deriving DecidableEq, Repr

/-- `LC_RETX_DEFAULT_*`. -/
def retxDefault : RetxCfg := ⟨10, 6, 4, 2, 0⟩

/-- `--default-power`. -/
inductive DefaultPower where
  /-- `LC_POWER_ROLE_DEFAULT`: not given. -/
  | roleDefault
  | level (l : PowerLevel)
  deriving DecidableEq, Repr

/-- `lc_config_t`, with what `main` refuses. -/
structure LcConfig where
  role : Role
  /-- Whether there is a configuration file to save next to. -/
  hasCfgPath : Bool
  defaultBandwidth : ℤ
  frameChange : Bool
  defaultChannel : Channel
  defaultPower : DefaultPower
  /-- 0 is no cap. -/
  maxPower : ℕ
  linkPolicy : ℤ
  /-- `none` is -1, the low-power mode off. -/
  standbyDbm : Option ℕ
  hasSocTempCmd : Bool
  /-- `none` is -1. -/
  overheatC : Option ℤ
  overheatResumeC : ℤ
  /-- The cap leaves a level for the role. -/
  maxPower_ok : maxPower = 0 ∨ lcPowerDefault role maxPower ≠ .auto

/-- `lifecycle_ctx`, and the variables of the loop. -/
structure Ctx where
  state : LcState
  connectedSlot : ℤ
  dropMissCount : ℕ
  connectConfirmCount : ℕ
  frameChangePending : Bool
  connectGen : UInt32
  lastBandwidth : ℤ
  idleHookFired : Bool
  pendingBandwidthMhz : ℤ
  pendingRetx : Option RetxCfg
  pendingChannel : Option Channel
  pendingPower : Option PowerLevel
  pendingArmed : Option Bool
  /-- The chip's channel table, in kHz. -/
  chanTable : List UInt32
  power : PowerLevel
  armed : Bool
  standby : Bool
  socTempLast : ℕ
  socTempValid : Bool
  socTempC10 : ℤ
  overheat : Bool
  channel : Channel
  /-- `chan_auto` and `work_chan`; `none` is -1. -/
  chanRead : Option (Bool × ℕ)
  chanSettled : Bool
  /-- 0 is not armed. -/
  chanCheckAt : ℕ
  chanPushesLeft : ℕ
  lastFallbackPoll : ℕ
  didFallbackPoll : Bool
  deriving DecidableEq, Repr

/-- What the thread does that can be seen from outside. -/
inductive LcEvent where
  /-- `lc_hooks_dispatch`. -/
  | hook (h : Hook) (slot : ℤ)
  /-- `lc_power_apply`. -/
  | setPower (level : PowerLevel)
  /-- `lc_power_apply_standby`. -/
  | setStandbyPower (dbm : Option ℕ)
  | savePower (level : PowerLevel)
  /-- `lc_channel_apply_mode`. -/
  | setChanMode (chan : Channel)
  /-- `lc_channel_apply_linked`. -/
  | setChanLinked (slot : ℤ) (chan : Channel)
  | saveChannel (chan : Channel)
  /-- `lc_channel_check_link` has no push left. -/
  | chanGaveUp
  /-- `lc_tuning_apply`. -/
  | setBandwidth (slot : ℤ) (mhz : ℤ)
  | saveBandwidth (mhz : ℤ)
  | setRetx (cfg : RetxCfg)
  | saveRetx (cfg : RetxCfg)
  /-- `lc_frame_change_apply`. -/
  | setFrameChange
  /-- `lc_push_mcs_items`. -/
  | pushMcsItems
  /-- `lc_peers_note_ap_mac`. -/
  | noteApMac
  deriving DecidableEq, Repr

/-- What `lc_poll_soc_temp` gets from its command. -/
inductive SocOutcome where
  /-- `pipe` or `fork` failed. -/
  | notRun
  /-- The temperature in tenths of a degree, if there was a reading. -/
  | ran (c10 : Option ℤ)
  deriving DecidableEq, Repr

/-- The answers one tick gets from the chip, the clock and the files. -/
structure TickInput where
  /-- `time(NULL)` at the top of the loop, after a connect or relink, after a channel push, and
  in `lc_poll_soc_temp`. -/
  now : ℕ
  linkTime : ℕ
  pushTime : ℕ
  socTime : ℕ
  /-- `lc_get_link_state`; `none` as long as nothing was read. -/
  reading : Option LinkState
  /-- `lc_get_connect_gen`. -/
  connectGen : UInt32
  /-- `lc_tuning_resolve_connected_slot`. -/
  resolvedSlot : ℤ
  /-- `lc_tuning_load`. -/
  loadedBandwidth : ℤ
  /-- `lc_retx_load`. -/
  loadedRetx : Option RetxCfg
  /-- `lc_tuning_read_current`. -/
  currentBandwidth : ℤ
  /-- Whether `lc_frame_change_apply` succeeds, after a connect or relink and on a poll. -/
  frameChangeOk : Bool
  frameChangePollOk : Bool
  /-- `lc_channel_read` in `lc_drain_channel_request`, `lc_channel_check_link` and
  `lc_channel_track`. -/
  drainRead : Option ChanReading
  checkRead : Option ChanReading
  trackRead : Option ChanReading
  /-- `lc_channel_read_link_khz`: downlink and uplink, 0 where unreadable. -/
  downKhz : UInt32
  upKhz : UInt32
  soc : SocOutcome
  deriving DecidableEq, Repr

/-! ### Output power and tuning -/

/-- `lc_apply_power`: the wanted level, or the standby target while the low-power mode is on.
`lc_power_apply` refuses a level that has no dBm target. -/
def applyPower (cfg : LcConfig) (c : Ctx) : List LcEvent :=
  if c.standby then [.setStandbyPower cfg.standbyDbm]
  else if c.power = .none then []
  else if (powerLevelDbm cfg.role c.power).isSome then [.setPower c.power] else []

/-- `lc_apply_link_tuning`. -/
def applyLinkTuning (cfg : LcConfig) (i : TickInput) (c : Ctx) : Ctx × List LcEvent :=
  ({ c with
      frameChangePending :=
        if cfg.role = .ap ∧ cfg.frameChange = true then !i.frameChangeOk
        else c.frameChangePending },
    [.setRetx (((if cfg.hasCfgPath then i.loadedRetx else none)).getD retxDefault)] ++
      applyPower cfg c ++
      (if cfg.role = .ap ∧ cfg.frameChange = true then [.setFrameChange] else []) ++
      if cfg.role = .dev ∧ (cfg.linkPolicy = 1 ∨ cfg.linkPolicy = 2) then [.pushMcsItems] else [])

/-- The bandwidth for a fresh connection: the saved one, else the default. -/
def connectBandwidth (cfg : LcConfig) (i : TickInput) : ℤ :=
  if cfg.hasCfgPath ∧ 0 ≤ i.loadedBandwidth then i.loadedBandwidth else cfg.defaultBandwidth

/-- `lc_apply_tuning_on_connect`. -/
def applyTuningOnConnect (cfg : LcConfig) (i : TickInput) (c : Ctx) : Ctx × List LcEvent :=
  let bandwidth := connectBandwidth cfg i
  let r := applyLinkTuning cfg i { c with lastBandwidth := bandwidth }
  (r.1, (if 0 < bandwidth then [.setBandwidth c.connectedSlot bandwidth] else []) ++ r.2)

/-! ### The mailboxes -/

/-- `lc_drain_bandwidth_request`. -/
def drainBandwidthRequest (cfg : LcConfig) (c : Ctx) : Ctx × List LcEvent :=
  let mhz := c.pendingBandwidthMhz
  let c := { c with pendingBandwidthMhz := -1 }
  if mhz ≤ 0 then (c, [])
  else
    let save := if cfg.hasCfgPath then [.saveBandwidth mhz] else []
    if c.state = .connected then
      ({ c with lastBandwidth := mhz }, save ++ [.setBandwidth c.connectedSlot mhz])
    else (c, save)

/-- `lc_drain_retx_request`. -/
def drainRetxRequest (cfg : LcConfig) (c : Ctx) : Ctx × List LcEvent :=
  match c.pendingRetx with
  | none => (c, [])
  | some retx =>
    ({ c with pendingRetx := none },
      (if cfg.hasCfgPath then [.saveRetx retx] else []) ++ [.setRetx retx])

/-- The chip's table is too small for the channel asked for. -/
def outsideTable (chan : Channel) (read : Option ChanReading) : Bool :=
  match read with
  | none => false
  | some r => chan.isOutside r.chanNum

/-- `lc_drain_channel_request`. -/
def drainChannelRequest (cfg : LcConfig) (read : Option ChanReading) (c : Ctx) :
    Ctx × List LcEvent :=
  match c.pendingChannel with
  | none => (c, [])
  | some chan =>
    let c := { c with pendingChannel := none }
    if outsideTable chan read then (c, [])
    else
      let tune :=
        if c.state = .connected then [.setChanLinked c.connectedSlot chan] else [.setChanMode chan]
      if cfg.role = .ap then
        ({ c with channel := chan, chanSettled := false },
          (if cfg.hasCfgPath then [.saveChannel chan] else []) ++ tune)
      else (c, tune)

/-- `lc_drain_power_request`. -/
def drainPowerRequest (cfg : LcConfig) (c : Ctx) : Ctx × List LcEvent :=
  match c.pendingPower with
  | none => (c, [])
  | some level =>
    let c := { c with pendingPower := none, power := level }
    (c, (if cfg.hasCfgPath then [.savePower level] else []) ++ applyPower cfg c)

/-! ### The channel of the link -/

/-- `lc_channel_on_connect`. -/
def channelOnConnect (i : TickInput) (c : Ctx) : Ctx :=
  { c with
    chanSettled := false
    chanPushesLeft := lcChanPushes
    chanCheckAt := i.linkTime + lcChanCheckDelayS }

/-- The frequency of the wanted channel, 0 if the table does not have it. -/
def wantKhz (c : Ctx) : UInt32 :=
  match c.channel with
  | .index n => c.chanTable.getD n 0
  | _ => 0

/-- The link is on the wanted frequency as far as it can be read. -/
def linkOk (i : TickInput) (c : Ctx) : Bool :=
  wantKhz c == 0 ||
    ((i.downKhz == 0 || i.downKhz == wantKhz c) && (i.upKhz == 0 || i.upKhz == wantKhz c))

/-- The channel `lc_channel_check_link` pushes: the wanted one, or its neighbour when the chip
believes it is already there. -/
def pushTarget (c : Ctx) (r : ChanReading) : Option Channel :=
  if lcChannelMatches c.channel r then
    match c.channel with
    | .index n => (lcChannelNeighbour c.chanTable n).map .index
    | _ => none
  else some c.channel

/-- `lc_channel_check_link`. -/
def channelCheckLink (cfg : LcConfig) (i : TickInput) (c : Ctx) : Ctx × List LcEvent :=
  let c := { c with chanCheckAt := 0 }
  if cfg.role ≠ .ap ∨ c.channel = .none then (c, [])
  else
    match i.checkRead with
    | none => (c, [])
    | some r =>
      if 0 < r.chanNum ∧ c.channel.isOutside r.chanNum = true then (c, [])
      else if lcChannelMatches c.channel r && linkOk i c then (c, [])
      else if c.chanPushesLeft = 0 then (c, [.chanGaveUp])
      else
        let c := { c with chanPushesLeft := c.chanPushesLeft - 1, chanSettled := false }
        match pushTarget c r with
        | none => (c, [])
        | some target =>
          ({ c with chanCheckAt := i.pushTime + lcChanCheckDelayS },
            [.setChanLinked c.connectedSlot target])

/-- `lc_channel_track`. -/
def channelTrack (cfg : LcConfig) (i : TickInput) (c : Ctx) : Ctx × List LcEvent :=
  match i.trackRead with
  | none => (c, [])
  | some r =>
    let c := { c with chanRead := some (r.autoMode, r.workChan) }
    if c.channel = .none then (c, [])
    else if lcChannelMatches c.channel r then ({ c with chanSettled := true }, [])
    else if c.chanSettled = false then (c, [])
    else
      ({ c with channel := r.observed },
        if cfg.hasCfgPath then [.saveChannel r.observed] else [])

/-! ### The link state -/

/-- Several functions one after another. -/
def inTurn (fs : List (Ctx → Ctx × List LcEvent)) (c : Ctx) : Ctx × List LcEvent :=
  Mealy.run (fun c f => f c) c fs

/-- The debounced connect of `LC_STATE_IDLE`. -/
def followConnect (cfg : LcConfig) (i : TickInput) (c : Ctx) : Ctx × List LcEvent :=
  let slot := if 0 ≤ i.resolvedSlot then i.resolvedSlot else 0
  let c :=
    { c with
      connectConfirmCount := 0
      connectedSlot := slot
      state := .connected
      connectGen := i.connectGen }
  let r := applyTuningOnConnect cfg i c
  (channelOnConnect i r.1,
    .hook .connected slot :: r.2 ++
      if cfg.role = .dev ∧ cfg.hasCfgPath = true then [.noteApMac] else [])

/-- `LC_STATE_IDLE` of the switch. -/
def idleTick (cfg : LcConfig) (i : TickInput) (c : Ctx) : Ctx × List LcEvent :=
  if i.reading = some .connect then
    if c.connectConfirmCount + 1 < lcConnectConfirmTicks then
      ({ c with connectConfirmCount := c.connectConfirmCount + 1 }, [])
    else followConnect cfg i c
  else
    ({ c with connectConfirmCount := 0, idleHookFired := true },
      if c.idleHookFired then [] else [.hook .idle (-1)])

/-- The debounced drop of `LC_STATE_CONNECTED`. -/
def followDrop (c : Ctx) : Ctx × List LcEvent :=
  ({ c with
      state := .idle
      connectedSlot := -1
      lastBandwidth := -1
      chanRead := none
      dropMissCount := 0 },
    [.hook .dropped c.connectedSlot])

/-- A relink the debounce has absorbed: the link tuning again. -/
def followRelink (cfg : LcConfig) (i : TickInput) (c : Ctx) : Ctx × List LcEvent :=
  if i.connectGen ≠ c.connectGen then
    let r := applyLinkTuning cfg i { c with connectGen := i.connectGen }
    ({ r.1 with chanCheckAt := i.linkTime + lcChanCheckDelayS }, r.2)
  else (c, [])

/-- The channel check, when it is due. -/
def dueChannelCheck (cfg : LcConfig) (i : TickInput) (c : Ctx) : Ctx × List LcEvent :=
  if c.chanCheckAt ≠ 0 ∧ c.chanCheckAt ≤ i.now then channelCheckLink cfg i c else (c, [])

/-- The bandwidth, if the chip reports another one than wanted. -/
def recheckBandwidth (cfg : LcConfig) (i : TickInput) (c : Ctx) : Ctx × List LcEvent :=
  if c.didFallbackPoll ∧ 0 < c.lastBandwidth ∧ 0 < i.currentBandwidth ∧
      i.currentBandwidth ≠ c.lastBandwidth then
    ({ c with
        frameChangePending :=
          if cfg.role = .ap ∧ cfg.frameChange = true then true else c.frameChangePending },
      [.setBandwidth c.connectedSlot c.lastBandwidth])
  else (c, [])

/-- A frame change that was not accepted yet. -/
def retryFrameChange (i : TickInput) (c : Ctx) : Ctx × List LcEvent :=
  if c.didFallbackPoll ∧ c.frameChangePending = true then
    ({ c with frameChangePending := !i.frameChangePollOk }, [.setFrameChange])
  else (c, [])

/-- `lc_channel_track`, once per fallback poll. -/
def dueChannelTrack (cfg : LcConfig) (i : TickInput) (c : Ctx) : Ctx × List LcEvent :=
  if c.didFallbackPoll then channelTrack cfg i c else (c, [])

/-- `LC_STATE_CONNECTED` of the switch. -/
def connectedTick (cfg : LcConfig) (i : TickInput) (c : Ctx) : Ctx × List LcEvent :=
  if i.reading = some .other then
    if c.dropMissCount + 1 < lcDropConfirmTicks then
      ({ c with dropMissCount := c.dropMissCount + 1 }, [])
    else followDrop c
  else
    inTurn [followRelink cfg i, dueChannelCheck cfg i, recheckBandwidth cfg i, retryFrameChange i,
      dueChannelTrack cfg i] { c with dropMissCount := 0 }

/-- The switch on the state. -/
def switchState (cfg : LcConfig) (i : TickInput) (c : Ctx) : Ctx × List LcEvent :=
  match c.state with
  | .init => ({ c with state := .idle }, [])
  | .idle => idleTick cfg i c
  | .connected => connectedTick cfg i c

/-! ### Temperature and the low-power mode -/

/-- `lc_poll_soc_temp`. -/
def pollSocTemp (cfg : LcConfig) (i : TickInput) (c : Ctx) : Ctx × List LcEvent :=
  if cfg.hasSocTempCmd = false ∨ i.socTime < c.socTempLast + lcSocTempPollS then (c, [])
  else
    match i.soc with
    | .notRun => ({ c with socTempLast := i.socTime }, [])
    | .ran none => ({ c with socTempLast := i.socTime, socTempValid := false }, [])
    | .ran (some c10) =>
      ({ c with socTempLast := i.socTime, socTempValid := true, socTempC10 := c10 }, [])

/-- `lc_overheat_update`. -/
def overheatUpdate (cfg : LcConfig) (c : Ctx) : Ctx × List LcEvent :=
  match cfg.overheatC with
  | none => (c, [])
  | some overheatC =>
    if cfg.role ≠ .ap ∨ c.socTempValid = false then (c, [])
    else if c.overheat = false ∧ overheatC * 10 ≤ c.socTempC10 then
      ({ c with overheat := true }, [.hook .overheat c.connectedSlot])
    else if c.overheat = true ∧ c.socTempC10 ≤ cfg.overheatResumeC * 10 then
      ({ c with overheat := false }, [.hook .resume c.connectedSlot])
    else (c, [])

/-- Whether the low-power mode should be on. -/
def wantStandby (c : Ctx) : Bool :=
  if c.armed && !c.overheat then false
  else if c.state = .connected then true else c.standby

/-- `lc_standby_update`. -/
def standbyUpdate (cfg : LcConfig) (c : Ctx) : Ctx × List LcEvent :=
  let c := { c with pendingArmed := none, armed := c.pendingArmed.getD c.armed }
  if cfg.role ≠ .ap ∨ cfg.standbyDbm = none ∨ wantStandby c = c.standby then (c, [])
  else
    let c := { c with standby := wantStandby c }
    (c, applyPower cfg c)

/-! ### The loop -/

/-- The fallback poll, when it is due. -/
def fallbackPoll (i : TickInput) (c : Ctx) : Ctx × List LcEvent :=
  if c.lastFallbackPoll + lcPollFallbackS ≤ i.now then
    ({ c with lastFallbackPoll := i.now, didFallbackPoll := true }, [])
  else ({ c with didFallbackPoll := false }, [])

/-- The first part of a tick: poll and mailboxes. -/
def tickDrains (cfg : LcConfig) (i : TickInput) : List (Ctx → Ctx × List LcEvent) :=
  [fallbackPoll i, drainBandwidthRequest cfg, drainRetxRequest cfg,
    drainChannelRequest cfg i.drainRead, drainPowerRequest cfg]

/-- The second part: the link state, the temperature, and the low-power mode. -/
def tickUpdates (cfg : LcConfig) (i : TickInput) : List (Ctx → Ctx × List LcEvent) :=
  [switchState cfg i, pollSocTemp cfg i, overheatUpdate cfg, standbyUpdate cfg]

/-- One round of the loop. -/
def tick (cfg : LcConfig) (i : TickInput) (c : Ctx) : Ctx × List LcEvent :=
  inTurn (tickDrains cfg i ++ tickUpdates cfg i) c

end Ar8030
