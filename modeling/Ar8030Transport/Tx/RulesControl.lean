import Ar8030Transport.Tx.PiControl

/-!
# The rule-based controller

`rulesTick` is one pass of the loop of `run_rules` in `tx/bitrate_ctl.c`, with the same
conventions as `piTick`: what a pass reads is its `RulesInput`, requests go through the send
function, and doubles are rationals.

There are four reasons for a cut: a ring backlog, LDPC errors, retransmissions, and a slower
link. The first has a request of its own, which may turn focus mode on with the same request;
the others are `apply_cut`. Only the link can raise the rate again, in steps.
-/

namespace Ar8030

/-! ### Constants -/

/-- `RING_BACKLOG_MIN_INTERVAL_MS`. -/
def ringBacklogMinIntervalMs : ℕ := 250

/-- `ROI_BACKLOG_ABORT_MS`. -/
def roiBacklogAbortMs : ℕ := 2000

/-- `RING_CUT_HOLDOFF_MS`. -/
def ringCutHoldoffMs : ℕ := 1500

/-- `LDPC_BACKOFF_MIN_INTERVAL_MS`. -/
def ldpcBackoffMinIntervalMs : ℕ := 250

/-- `RETX_EVENT_BACKOFF_MIN_INTERVAL_MS`. -/
def retxEventBackoffMinIntervalMs : ℕ := 250

/-- `FAST_CUT_HOLDOFF_MS`. -/
def fastCutHoldoffMs : ℕ := 500

/-- `MCS_CUT_MIN_INTERVAL_MS`. -/
def mcsCutMinIntervalMs : ℕ := 250

/-- `RETX_SEVERE_WINDOW_MS`. -/
def retxSevereWindowMs : ℕ := 1000

/-- `RECOVERY_JUMP_RATIO`. -/
def recoveryJumpRatio : ℚ := 2

/-- `RECOVERY_JUMP_FRAC`. -/
def recoveryJumpFrac : ℚ := 6 / 10

/-- `LINK_SWING_FACTOR`. -/
def linkSwingFactor : ℚ := 3 / 2

/-- `clamp_u32`: the lower bound first. -/
def clampU32 (v lo hi : ℕ) : ℕ := if v < lo then lo else if hi < v then hi else v

/-- `(uint32_t)` of a double. -/
def truncate (x : ℚ) : ℕ := x.floor.toNat

/-! ### Configuration, input and state -/

/-- The fields of `bitrate_ctl_cfg_t` that the rules are configured with. -/
structure RulesConfig where
  margin : ℚ
  minKbps : ℕ
  maxKbps : ℕ
  hysteresis : ℚ
  minIntervalMs : ℕ
  pollIntervalMs : ℕ
  ringBacklogHighSlots : ℕ
  ringBackoff : ℚ
  roiMaxKbps : ℕ
  roiRecoveryMs : ℕ
  rampStep : ℚ
  rampSettleMs : ℕ
  unstableWindowMs : ℕ
  unstableRampStep : ℚ
  probeCeilingFrac : ℚ
  probeHoldMs : ℕ
  ldpcRatioHigh : ℚ
  ldpcBackoff : ℚ
  retxEventBackoff : ℚ
  ldpcSevereRatio : ℚ
  retxSevereEvents : ℕ
  severeBackoff : ℚ
  deriving DecidableEq, Repr

/-- The configuration `tx` starts the rules with if it is given no options. -/
def RulesConfig.shipped : RulesConfig where
  margin := 545 / 1000
  minKbps := 512
  maxKbps := 35000
  hysteresis := 5 / 100
  minIntervalMs := 500
  pollIntervalMs := 500
  ringBacklogHighSlots := 6
  ringBackoff := 92 / 100
  roiMaxKbps := 0
  roiRecoveryMs := 5000
  rampStep := 25 / 100
  rampSettleMs := 1000
  unstableWindowMs := 3000
  unstableRampStep := 10 / 100
  probeCeilingFrac := 95 / 100
  probeHoldMs := 15000
  ldpcRatioHigh := 0
  ldpcBackoff := 85 / 100
  retxEventBackoff := 85 / 100
  ldpcSevereRatio := 0
  retxSevereEvents := 3
  severeBackoff := 4 / 10

/-- What a pass reads. -/
structure RulesInput where
  now : ℕ
  /-- The ring, if there is one. -/
  ring : Option RingView
  /-- `read_ldpc_ratio`, if asked and answered. -/
  ldpc : Option ℚ
  /-- `g_retx_too_many`, where it is counted and where it is acted on. -/
  retxTooMany : ℕ
  retxTooManyNow : ℕ
  /-- `g_wake`. -/
  wake : ℕ
  /-- `read_tx_throughput_kbps`, if asked and answered. -/
  throughput : Option ℕ
  deriving DecidableEq, Repr

/-- The variables of `run_rules`. -/
structure RulesState where
  lastAppliedKbps : ℕ
  haveApplied : Bool
  lastApplyMs : ℕ
  lastSeenWake : ℕ
  lastSeenRetxTooMany : ℕ
  roiEnabled : Bool
  roiBanned : Bool
  roiEnabledMs : ℕ
  lastBacklogMs : ℕ
  lastUrgentCutMs : ℕ
  /-- 0 is none. -/
  probeCeilingKbps : ℕ
  probeCeilingUntilMs : ℕ
  lastRoiDisableAttemptMs : ℕ
  lastLdpcApplyMs : ℕ
  lastRetxEventApplyMs : ℕ
  lastCutMs : ℕ
  lastMcsCutMs : ℕ
  prevLinkKbps : ℕ
  lastLinkRiseMs : ℕ
  lastLinkSwingMs : ℕ
  floorKbps : ℕ
  retxEventMs : List ℕ
  retxEventPos : ℕ
  retxCounted : ℕ
  lastIncreaseMs : ℕ
  lastMcsPollMs : ℕ
  /-- `g_congested_until_ms`. -/
  congestedUntilMs : ℕ
  deriving DecidableEq, Repr

/-- The state `run_rules` starts with. -/
def RulesState.init (cfg : RulesConfig) : RulesState where
  lastAppliedKbps := 0
  haveApplied := false
  lastApplyMs := 0
  lastSeenWake := 0
  lastSeenRetxTooMany := 0
  roiEnabled := false
  roiBanned := false
  roiEnabledMs := 0
  lastBacklogMs := 0
  lastUrgentCutMs := 0
  probeCeilingKbps := 0
  probeCeilingUntilMs := 0
  lastRoiDisableAttemptMs := 0
  lastLdpcApplyMs := 0
  lastRetxEventApplyMs := 0
  lastCutMs := 0
  lastMcsCutMs := 0
  prevLinkKbps := 0
  lastLinkRiseMs := 0
  lastLinkSwingMs := 0
  floorKbps := cfg.minKbps
  retxEventMs := List.replicate retxEventHistory 0
  retxEventPos := 0
  retxCounted := 0
  lastIncreaseMs := 0
  lastMcsPollMs := 0
  congestedUntilMs := 0

/-- The rate times a factor, between the floor and the maximum. -/
def RulesState.backoffTarget (cfg : RulesConfig) (s : RulesState) (factor : ℚ) : ℕ :=
  clampU32 (truncate (s.lastAppliedKbps * factor)) s.floorKbps cfg.maxKbps

section Requests

variable {σ : Type*} (send : σ → LiveSet → ℤ × σ)

/-! ### Ring backlog -/

/-- An urgent cut is due. -/
def RulesState.cutDue (cfg : RulesConfig) (s : RulesState) (now : ℕ) : Bool :=
  s.backoffTarget cfg cfg.ringBackoff < s.lastAppliedKbps ∧
    (s.lastUrgentCutMs = 0 ∨ ringCutHoldoffMs ≤ now - s.lastUrgentCutMs)

/-- Focus mode has not helped for a while: off, and not again. -/
def RulesState.abortRoi (s : RulesState) (now : ℕ) (ctx : σ) : RulesState × σ :=
  if s.roiEnabled ∧ roiBacklogAbortMs ≤ now - s.roiEnabledMs then
    let r := send ctx (setRoi false)
    (if isSuccess r.1 then { s with roiEnabled := false, roiBanned := true } else s, r.2)
  else (s, ctx)

/-- Focus mode is to be turned on. -/
def RulesState.turnsRoiOn (cfg : RulesConfig) (s : RulesState) : Bool :=
  !s.roiBanned ∧ s.lastAppliedKbps < cfg.roiMaxKbps ∧ !s.roiEnabled

/-- The answer to an urgent request, with the rate it was for. -/
def RulesState.afterUrgent (cfg : RulesConfig) (s : RulesState) (now target : ℕ)
    (cut roi : Bool) (status : ℤ) : RulesState :=
  if isSuccess status then
    let s :=
      if cut then
        { s with
          probeCeilingKbps :=
            if 0 < cfg.probeCeilingFrac then truncate (s.lastAppliedKbps * cfg.probeCeilingFrac)
            else s.probeCeilingKbps
          probeCeilingUntilMs :=
            if 0 < cfg.probeCeilingFrac then now + cfg.probeHoldMs else s.probeCeilingUntilMs
          lastAppliedKbps := target
          lastApplyMs := now
          lastUrgentCutMs := now
          lastCutMs := now }
      else s
    if roi then { s with roiEnabled := true, roiEnabledMs := now } else s
  else if cut then { s with floorKbps := learnFloor s.floorKbps status target }
  else s

/-- The urgent request: the rate for a cut, and focus mode. -/
def urgentRequest (target : ℕ) (cut roi : Bool) : LiveSet :=
  ⟨if cut then some target else none, if roi then some true else none, none⟩

/-- A backlogged ring: a cut and focus mode, as far as they are due, in one request. -/
def RulesState.urgent (cfg : RulesConfig) (s : RulesState) (now : ℕ) (ctx : σ) : RulesState × σ :=
  let s := { s with lastBacklogMs := now, congestedUntilMs := now + congestedHoldMs }
  let target := s.backoffTarget cfg cfg.ringBackoff
  let cut := s.cutDue cfg now
  let r := s.abortRoi send now ctx
  let roi := r.1.turnsRoiOn cfg
  if cut || roi then
    let q := send r.2 (urgentRequest target cut roi)
    (r.1.afterUrgent cfg now target cut roi q.1, q.2)
  else r

/-- No backlog, and the rate has recovered: focus mode off. -/
def RulesState.recoverRoi (cfg : RulesConfig) (s : RulesState) (now : ℕ) (ctx : σ) :
    RulesState × σ :=
  if s.roiEnabled ∧ cfg.roiMaxKbps ≤ s.lastAppliedKbps ∧
      cfg.roiRecoveryMs ≤ now - s.lastBacklogMs ∧
      ringBacklogMinIntervalMs ≤ now - s.lastRoiDisableAttemptMs then
    let r := send ctx (setRoi false)
    ({ s with
        lastRoiDisableAttemptMs := now
        roiEnabled := if isSuccess r.1 then false else s.roiEnabled }, r.2)
  else (s, ctx)

/-- The ring backlog check. -/
def RulesState.checkRing (cfg : RulesConfig) (s : RulesState) (inp : RulesInput) (ctx : σ) :
    RulesState × σ :=
  match inp.ring with
  | none => (s, ctx)
  | some v =>
    if s.haveApplied ∧ ringBacklogMinIntervalMs ≤ inp.now - s.lastApplyMs then
      if cfg.ringBacklogHighSlots ≤ v.lowWater inp.now then s.urgent send cfg inp.now ctx
      else s.recoverRoi send cfg inp.now ctx
    else (s, ctx)

/-! ### Lost blocks and retransmissions -/

/-- The answer to a cut that ended with `kbps`. -/
def RulesState.afterCut (s : RulesState) (now kbps floorKbps : ℕ) (status : ℤ) : RulesState :=
  if isSuccess status then
    { s with
      floorKbps := floorKbps
      lastAppliedKbps := kbps
      lastApplyMs := now
      lastCutMs := now
      congestedUntilMs := now + congestedHoldMs }
  else { s with floorKbps := floorKbps }

/-- A cut by a factor. -/
def RulesState.fastCut (cfg : RulesConfig) (s : RulesState) (now : ℕ) (factor : ℚ) (ctx : σ) :
    RulesState × σ :=
  if s.backoffTarget cfg factor < s.lastAppliedKbps then
    let r := applyCut send (s.backoffTarget cfg factor) s.lastAppliedKbps s.floorKbps 1 ctx
    (s.afterCut now r.kbps r.floorKbps r.status, r.ctx)
  else (s, ctx)

/-- The LDPC error-ratio backoff. -/
def RulesState.checkLdpc (cfg : RulesConfig) (s : RulesState) (inp : RulesInput) (ctx : σ) :
    RulesState × σ :=
  if 0 < cfg.ldpcRatioHigh ∧ s.haveApplied ∧
      ldpcBackoffMinIntervalMs ≤ inp.now - s.lastLdpcApplyMs ∧
      fastCutHoldoffMs ≤ inp.now - s.lastCutMs then
    let s := { s with lastLdpcApplyMs := inp.now }
    match inp.ldpc with
    | none => (s, ctx)
    | some ratio =>
      if cfg.ldpcRatioHigh ≤ ratio then
        s.fastCut send cfg inp.now
          (if 0 < cfg.ldpcSevereRatio ∧ cfg.ldpcSevereRatio ≤ ratio then cfg.severeBackoff
            else cfg.ldpcBackoff) ctx
      else (s, ctx)
  else (s, ctx)

/-- Timestamp the retransmission events since the last pass. -/
def RulesState.countRetx (s : RulesState) (inp : RulesInput) : RulesState :=
  let r := pushRetx inp.now (inp.retxTooMany - s.retxCounted) s.retxEventMs s.retxEventPos
  { s with retxCounted := inp.retxTooMany, retxEventMs := r.1, retxEventPos := r.2 }

/-- The events of the last second. -/
def RulesState.recentRetx (s : RulesState) (now : ℕ) : ℕ :=
  s.retxEventMs.countP fun t => decide (t ≠ 0 ∧ now - t < retxSevereWindowMs)

/-- The retransmission backoff. -/
def RulesState.checkRetx (cfg : RulesConfig) (s : RulesState) (inp : RulesInput) (ctx : σ) :
    RulesState × σ :=
  if 0 < cfg.retxEventBackoff ∧ s.haveApplied ∧
      retxEventBackoffMinIntervalMs ≤ inp.now - s.lastRetxEventApplyMs ∧
      fastCutHoldoffMs ≤ inp.now - s.lastCutMs ∧ inp.retxTooManyNow ≠ s.lastSeenRetxTooMany then
    let s := { s with lastSeenRetxTooMany := inp.retxTooManyNow, lastRetxEventApplyMs := inp.now }
    s.fastCut send cfg inp.now
      (if 0 < cfg.retxSevereEvents ∧ cfg.retxSevereEvents ≤ s.recentRetx inp.now then
        cfg.severeBackoff else cfg.retxEventBackoff) ctx
  else (s, ctx)

/-! ### The link -/

/-- Link swing detection: a jump up that falls back soon. -/
def RulesState.seeLink (cfg : RulesConfig) (s : RulesState) (now linkKbps : ℕ) : RulesState :=
  if s.prevLinkKbps ≠ 0 ∧ s.prevLinkKbps * linkSwingFactor ≤ linkKbps then
    { s with prevLinkKbps := linkKbps, lastLinkRiseMs := now }
  else if s.prevLinkKbps ≠ 0 ∧ linkKbps * linkSwingFactor ≤ s.prevLinkKbps ∧
      s.lastLinkRiseMs ≠ 0 ∧ now - s.lastLinkRiseMs < cfg.unstableWindowMs then
    { s with prevLinkKbps := linkKbps, lastLinkSwingMs := now }
  else { s with prevLinkKbps := linkKbps }

/-- The target the link allows. -/
def RulesState.linkTarget (cfg : RulesConfig) (s : RulesState) (linkKbps : ℕ) : ℕ :=
  clampU32 (truncate (linkKbps * cfg.margin)) s.floorKbps cfg.maxKbps

/-- The change is too small. A division by 0 gives no number, or none that is small. -/
def RulesState.withinHysteresis (cfg : RulesConfig) (s : RulesState) (target : ℕ) : Bool :=
  s.lastAppliedKbps ≠ 0 ∧
    |(target : ℚ) - s.lastAppliedKbps| / s.lastAppliedKbps < cfg.hysteresis

/-- The link swung lately. -/
def RulesState.unstable (cfg : RulesConfig) (s : RulesState) (now : ℕ) : Bool :=
  s.lastLinkSwingMs ≠ 0 ∧ now - s.lastLinkSwingMs < cfg.unstableWindowMs

/-- The step an increase is capped at, with the recovery jump after a fade. -/
def RulesState.stepCap (s : RulesState) (step : ℚ) (unstable : Bool) (target : ℕ) : ℕ :=
  let cap := truncate (s.lastAppliedKbps * (1 + step))
  let cap :=
    if !unstable ∧ s.lastAppliedKbps * recoveryJumpRatio ≤ target then
      max cap (truncate (target * recoveryJumpFrac))
    else cap
  if cap ≤ s.lastAppliedKbps then (s.lastAppliedKbps + 1) % 2 ^ 32 else cap

/-- The rate an increase asks for, if it may be made now. -/
def RulesState.increase (cfg : RulesConfig) (s : RulesState) (now target : ℕ) : Option ℕ :=
  if now - s.lastIncreaseMs < cfg.minIntervalMs ∨ now - s.lastBacklogMs < cfg.rampSettleMs ∨
      now - s.lastCutMs < cfg.rampSettleMs then none
  else
    let unstable := s.unstable cfg now
    let step := if unstable ∧ 0 < cfg.unstableRampStep then cfg.unstableRampStep else cfg.rampStep
    let target := if 0 < step then min target (s.stepCap step unstable target) else target
    let target :=
      if s.probeCeilingKbps ≠ 0 ∧ now < s.probeCeilingUntilMs then min target s.probeCeilingKbps
      else target
    if target ≤ s.lastAppliedKbps then none else some target

/-- The answer to a rate from the link that is not a cut. -/
def RulesState.afterRate (s : RulesState) (now kbps : ℕ) (status : ℤ) : RulesState :=
  if isSuccess status then
    { s with
      lastIncreaseMs := now
      lastAppliedKbps := kbps
      haveApplied := true
      lastApplyMs := now }
  else s

/-- The rate on its own. -/
def RulesState.sendRate (s : RulesState) (now kbps : ℕ) (ctx : σ) : RulesState × σ :=
  let r := send ctx (setBitrate kbps)
  (s.afterRate now kbps r.1, r.2)

/-- The answer to a cut from the link that ended with `kbps`. -/
def RulesState.afterLinkCut (s : RulesState) (now kbps floorKbps : ℕ) (status : ℤ) : RulesState :=
  if isSuccess status then
    { s.afterCut now kbps floorKbps status with lastMcsCutMs := now, haveApplied := true }
  else s.afterCut now kbps floorKbps status

/-- The target from the link: a cut at once, an increase when it may be made. -/
def RulesState.followLink (cfg : RulesConfig) (s : RulesState) (now target : ℕ) (ctx : σ) :
    RulesState × σ :=
  if s.haveApplied = false then s.sendRate send now target ctx
  else if s.withinHysteresis cfg target then (s, ctx)
  else if target < s.lastAppliedKbps then
    if now - s.lastMcsCutMs < mcsCutMinIntervalMs then (s, ctx)
    else
      let r := applyCut send target s.lastAppliedKbps s.floorKbps 1 ctx
      (s.afterLinkCut now r.kbps r.floorKbps r.status, r.ctx)
  else
    match s.increase cfg now target with
    | none => (s, ctx)
    | some kbps => s.sendRate send now kbps ctx

/-- The link's part of a pass, polled or on a wake-up. -/
def RulesState.checkLink (cfg : RulesConfig) (s : RulesState) (inp : RulesInput) (ctx : σ) :
    RulesState × σ :=
  if s.haveApplied ∧ inp.wake = s.lastSeenWake ∧
      inp.now - s.lastMcsPollMs < cfg.pollIntervalMs then (s, ctx)
  else
    let s := { s with lastSeenWake := inp.wake, lastMcsPollMs := inp.now }
    match inp.throughput with
    | none => (s, ctx)
    | some linkKbps =>
      let s := s.seeLink cfg inp.now linkKbps
      s.followLink send cfg inp.now (s.linkTarget cfg linkKbps) ctx

/-! ### One pass -/

/-- One pass of the loop of `run_rules`. -/
def rulesTick (cfg : RulesConfig) (s : RulesState) (inp : RulesInput) (ctx : σ) : RulesState × σ :=
  let r := s.checkRing send cfg inp ctx
  let r := r.1.checkLdpc send cfg inp r.2
  let r := (r.1.countRetx inp).checkRetx send cfg inp r.2
  r.1.checkLink send cfg inp r.2

end Requests

end Ar8030
