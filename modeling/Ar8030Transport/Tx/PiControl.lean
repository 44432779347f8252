import Mathlib.Data.Rat.Floor
import Ar8030Transport.Tx.Waybeam

/-!
# The PI controller

`piTick` is one pass of the loop of `run_pi` in `tx/bitrate_ctl.c`. What a pass reads from
elsewhere — the clock, the radio's readings, what the send loop publishes — is its `PiInput`;
the requests it makes go through the send function. Doubles are rationals here, and what is
only logged is left out.

The pass is cut into the steps its comments name; only `startupDivisor`, `piFocus`,
`sendStage` and `sendRate` talk to waybeam.
-/

namespace Ar8030

/-! ### Configuration, input and state -/

/-- The fields of `bitrate_ctl_cfg_t` that the PI mode is configured with. -/
structure PiConfig where
  margin : ℚ
  minKbps : ℕ
  maxKbps : ℕ
  pollIntervalMs : ℕ
  ringBacklogHighSlots : ℕ
  ringBackoff : ℚ
  roiMaxKbps : ℕ
  roiRecoveryMs : ℕ
  fpsDivMax : ℕ
  fpsRecoveryMs : ℕ
  ldpcRatioHigh : ℚ
  ldpcSevereRatio : ℚ
  piDelaySetMs : ℚ
  piKpUp : ℚ
  piKpDown : ℚ
  piKiUp : ℚ
  piKiDown : ℚ
  piKMin : ℚ
  piKMax : ℚ
  piSlewUp : ℚ
  piSevereK : ℚ
  piRetxSevereEvents : ℕ
  piMildTrim : ℚ
  piRecoverPerS : ℚ
  deriving DecidableEq, Repr

/-- The configuration `tx` starts the PI mode with if it is given no other options. -/
def PiConfig.shipped : PiConfig where
  margin := 545 / 1000
  minKbps := 512
  maxKbps := 35000
  pollIntervalMs := 500
  ringBacklogHighSlots := 6
  ringBackoff := 92 / 100
  roiMaxKbps := 0
  roiRecoveryMs := 5000
  fpsDivMax := 1
  fpsRecoveryMs := 1000
  ldpcRatioHigh := 0
  ldpcSevereRatio := 0
  piDelaySetMs := 15
  piKpUp := 6 / 1000
  piKpDown := 2 / 100
  piKiUp := 1 / 100
  piKiDown := 5 / 100
  piKMin := 2 / 10
  piKMax := 11 / 10
  piSlewUp := 2
  piSevereK := 5 / 10
  piRetxSevereEvents := 6
  piMildTrim := 85 / 100
  piRecoverPerS := 0

/-- What a pass sees of the frame ring. -/
structure RingView where
  /-- `ring_flushed_ms`. -/
  flushedMs : ℕ
  entriesPerFrame : ℕ
  lowWaterSlots : ℕ
  deriving DecidableEq, Repr

/-- What a pass reads. -/
structure PiInput where
  now : ℕ
  /-- `delay_us` and `last_tx_done_ms`, from the send loop. -/
  delayUs : ℕ
  lastTxDoneMs : ℕ
  /-- `g_wake`. -/
  wake : ℕ
  /-- `read_tx_throughput_kbps`, if asked and answered. -/
  throughput : Option ℕ
  /-- `g_retx_too_many`. -/
  retxTooMany : ℕ
  /-- `read_ldpc_ratio`, if asked and answered. -/
  ldpc : Option ℚ
  /-- The ring, if there is one. -/
  ring : Option RingView
  deriving DecidableEq, Repr

/-- The variables of `run_pi`. -/
structure PiState where
  capKbps : ℕ
  lastMcsPollMs : ℕ
  lastSeenWake : ℕ
  kI : ℚ
  k : ℚ
  /-- The last rate waybeam accepted, 0 if unknown. -/
  appliedKbps : ℕ
  lastApplyMs : ℕ
  floorKbps : ℕ
  lastLdpcMs : ℕ
  lastDisturbMs : ℕ
  lastSevereMs : ℕ
  lastBacklogMs : ℕ
  retxEventMs : List ℕ
  retxEventPos : ℕ
  retxCounted : ℕ
  retxSeen : ℕ
  lastTickMs : ℕ
  ringGen : ℕ
  /-- waybeam's `fpv.roiEnabled` as last set, `none` (-1 in the source) if unknown. -/
  focus : Option Bool
  focusAboveSinceMs : ℕ
  focusTryMs : ℕ
  divMax : ℕ
  /-- waybeam's `video0.fpsDivisor`, `none` (-1 in the source) if unknown. -/
  div : Option ℕ
  divUpSinceMs : ℕ
  divTryMs : ℕ
  /-- `g_congested_until_ms`. -/
  congestedUntilMs : ℕ
  deriving DecidableEq, Repr

/-- `PI_FOCUS_RETRY_MS`. -/
def piFocusRetryMs : ℕ := 1000

/-- `RETX_EVENT_HISTORY`. -/
def retxEventHistory : ℕ := 16

/-- `CONGESTED_HOLD_MS`. -/
def congestedHoldMs : ℕ := 1500

/-- The stages allowed. -/
def PiConfig.divMax (cfg : PiConfig) : ℕ := if 1 < cfg.fpsDivMax then cfg.fpsDivMax else 1

/-- The state `run_pi` starts with. -/
def PiState.init (cfg : PiConfig) (now ringGen : ℕ) : PiState where
  capKbps := 0
  lastMcsPollMs := 0
  lastSeenWake := 0
  kI := 1
  k := 1
  appliedKbps := 0
  lastApplyMs := 0
  floorKbps := cfg.minKbps
  lastLdpcMs := 0
  lastDisturbMs := 0
  lastSevereMs := 0
  lastBacklogMs := 0
  retxEventMs := List.replicate retxEventHistory 0
  retxEventPos := 0
  retxCounted := 0
  retxSeen := 0
  lastTickMs := now
  ringGen := ringGen
  focus := none
  focusAboveSinceMs := 0
  focusTryMs := 0
  divMax := cfg.divMax
  div := if 1 < cfg.divMax then none else some 1
  divUpSinceMs := 0
  divTryMs := 0
  congestedUntilMs := 0

/-- `cur_div`. -/
def PiState.curDiv (s : PiState) : ℕ := s.div.getD 1

/-- What tripped a pass. -/
inductive Disturbance where
  | severe
  | trim
  | backlog
  deriving DecidableEq, Repr

/-! ### A restarted waybeam, and the start -/

/-- waybeam restarted: forget what was applied. -/
def PiState.seeGeneration (cfg : PiConfig) (s : PiState) (gen : ℕ) : PiState :=
  if gen ≠ s.ringGen then
    { s with
      ringGen := gen
      appliedKbps := 0
      focus := none
      divMax := cfg.divMax
      div := some 1
      divUpSinceMs := 0 }
  else s

section Requests

variable {σ : Type*} (send : σ → LiveSet → ℤ × σ)

/-- The answer to the startup request. -/
def PiState.afterStartup (s : PiState) (now : ℕ) (status : ℤ) : PiState :=
  if isMissing status then { s with divTryMs := now, divMax := 1, div := some 1 }
  else if isSuccess status then { s with divTryMs := now, div := some 1 }
  else { s with divTryMs := now }

/-- At start waybeam may still run at a divisor a previous sender left, and at a rate only
valid with it: reset both. -/
def PiState.startupDivisor (s : PiState) (now : ℕ) (ctx : σ) : PiState × σ :=
  if s.div = none ∧ piFocusRetryMs ≤ now - s.divTryMs then
    let r := send ctx (setFpsDiv 1 s.floorKbps)
    (s.afterStartup now r.1, r.2)
  else (s, ctx)

/-! ### What the radio says -/

/-- The measured delay; if nothing finished for a while, the frame in flight is at least that
old. -/
def PiInput.delayMs (inp : PiInput) : ℚ :=
  let dMs : ℚ := (inp.delayUs : ℚ) / 1000
  let stale : ℚ := ((inp.now - inp.lastTxDoneMs : ℕ) : ℚ)
  if inp.lastTxDoneMs ≠ 0 ∧ inp.lastTxDoneMs + 150 < inp.now ∧ dMs < stale then stale else dMs

/-- The capacity of the link, polled or on a wake-up. -/
def PiState.readCapacity (cfg : PiConfig) (s : PiState) (inp : PiInput) : PiState :=
  if s.capKbps = 0 ∨ inp.wake ≠ s.lastSeenWake ∨
      cfg.pollIntervalMs ≤ inp.now - s.lastMcsPollMs then
    { s with
      lastSeenWake := inp.wake
      lastMcsPollMs := inp.now
      capKbps := match inp.throughput with
        | some c => if c ≠ 0 then c else s.capKbps
        | none => s.capKbps }
  else { s with lastSeenWake := inp.wake }

/-- The times of the last events, with `n` more at `now`. -/
def pushRetx (now : ℕ) : ℕ → List ℕ → ℕ → List ℕ × ℕ
  | 0, events, pos => (events, pos)
  | n + 1, events, pos => pushRetx now n (events.set (pos % retxEventHistory) now) (pos + 1)

/-- Count the retransmission events since the last pass. -/
def PiState.countRetx (s : PiState) (inp : PiInput) : PiState :=
  let r := pushRetx inp.now (inp.retxTooMany - s.retxCounted) s.retxEventMs s.retxEventPos
  { s with retxCounted := inp.retxTooMany, retxEventMs := r.1, retxEventPos := r.2 }

/-- The events of the last second. -/
def PiState.recentRetx (s : PiState) (now : ℕ) : ℕ :=
  s.retxEventMs.countP fun t => decide (t ≠ 0 ∧ now - t < 1000)

/-- The LDPC error ratio is read at most every 250 ms. -/
def PiState.ldpcDue (cfg : PiConfig) (s : PiState) (now : ℕ) : Bool :=
  decide (0 < cfg.ldpcRatioHigh ∧ 250 ≤ now - s.lastLdpcMs)

/-- Disturbance feedforward: the radio says it is losing frames before the delay can show
it. -/
def PiState.disturb (cfg : PiConfig) (s : PiState) (inp : PiInput) :
    PiState × Option Disturbance :=
  let now := inp.now
  let newRetx := s.retxSeen ≠ s.retxCounted
  let ldpc : ℚ := if s.ldpcDue cfg now then inp.ldpc.getD 0 else 0
  let s := { s with
    retxSeen := s.retxCounted
    lastLdpcMs := if s.ldpcDue cfg now then now else s.lastLdpcMs }
  if (0 < cfg.ldpcSevereRatio ∧ cfg.ldpcSevereRatio ≤ ldpc) ∨
      (0 < cfg.piRetxSevereEvents ∧ cfg.piRetxSevereEvents ≤ s.recentRetx now) then
    ({ s with
        kI := if cfg.piSevereK < s.kI then cfg.piSevereK else s.kI
        lastSevereMs := now
        lastDisturbMs := now },
      if cfg.piSevereK < s.kI then some .severe else none)
  else if ((0 < cfg.ldpcRatioHigh ∧ cfg.ldpcRatioHigh ≤ ldpc) ∨ newRetx) ∧
      500 ≤ now - s.lastDisturbMs then
    ({ s with kI := s.kI * cfg.piMildTrim, lastDisturbMs := now }, some .trim)
  else (s, none)

/-- `ring_low_water`: the backlog in frames, or 0 while it may still describe flushed ones. -/
def RingView.lowWater (v : RingView) (now : ℕ) : ℕ :=
  if v.flushedMs ≠ 0 ∧ now < v.flushedMs + 400 then 0
  else if 1 < v.entriesPerFrame then v.lowWaterSlots / v.entriesPerFrame % 2 ^ 16
  else v.lowWaterSlots

/-- The ring is backlogged. -/
def PiState.backlogged (cfg : PiConfig) (s : PiState) (inp : PiInput) : Bool :=
  match inp.ring with
  | none => false
  | some v => decide (cfg.ringBacklogHighSlots ≤ v.lowWater inp.now ∧
      1500 ≤ inp.now - s.lastBacklogMs)

/-- Ring backlog: hard backstop. -/
def PiState.backstop (cfg : PiConfig) (s : PiState) (inp : PiInput) (why : Option Disturbance) :
    PiState × Option Disturbance :=
  if s.backlogged cfg inp then
    ({ s with
        kI := (if s.k < s.kI then s.k else s.kI) * cfg.ringBackoff
        lastBacklogMs := inp.now },
      some .backlog)
  else (s, why)

/-! ### Focus mode -/

/-- Since when the rate has been comfortable, 0 if it is not. -/
def PiState.aboveSince (cfg : PiConfig) (s : PiState) (now : ℕ) : ℕ :=
  if s.appliedKbps < cfg.roiMaxKbps then 0
  else if s.focusAboveSinceMs = 0 then now else s.focusAboveSinceMs

/-- Whether focus mode is wanted. -/
def PiState.wantFocus (cfg : PiConfig) (s : PiState) (now : ℕ) : Bool :=
  decide (s.appliedKbps < cfg.roiMaxKbps) ||
    (s.focus == some true && decide (now - s.aboveSince cfg now < cfg.roiRecoveryMs))

/-- The answer to a focus request. -/
def PiState.afterFocus (s : PiState) (now : ℕ) (want : Bool) (status : ℤ) : PiState :=
  if isSuccess status then { s with focusTryMs := now, focus := some want }
  else { s with focusTryMs := now }

/-- `pi_focus`. -/
def PiState.piFocus (cfg : PiConfig) (s : PiState) (now : ℕ) (ctx : σ) : PiState × σ :=
  if cfg.roiMaxKbps = 0 ∨ s.appliedKbps = 0 then (s, ctx)
  else
    let want := s.wantFocus cfg now
    let s := { s with focusAboveSinceMs := s.aboveSince cfg now }
    if s.focus = some want ∨ now - s.focusTryMs < piFocusRetryMs then (s, ctx)
    else
      let r := send ctx (setRoi want)
      (s.afterFocus now want r.1, r.2)

/-! ### The rate -/

/-- Clamped from below, then from above. -/
def clampRat (lo hi x : ℚ) : ℚ :=
  let y := if x < lo then lo else x
  if hi < y then hi else y

/-- PI on the delay: the integrator and `k`. -/
def PiState.updateK (cfg : PiConfig) (s : PiState) (dMs dt : ℚ) (now : ℕ) : PiState :=
  let e := cfg.piDelaySetMs - dMs
  let kp := if e < 0 then cfg.piKpDown else cfg.piKpUp
  let ki := if e < 0 then cfg.piKiDown else cfg.piKiUp
  let base := (s.capKbps : ℚ) * cfg.margin
  let atFloor := s.appliedKbps ≠ 0 ∧ s.appliedKbps ≤ s.floorKbps / s.curDiv ∧ s.divMax ≤ s.curDiv
  let heldUp := s.appliedKbps ≠ 0 ∧ (s.appliedKbps : ℚ) < base * s.k * (9 / 10)
  let climbed := if (0 < e ∧ ¬ heldUp ∧ s.appliedKbps < cfg.maxKbps) ∨ (e < 0 ∧ ¬ atFloor) then
    s.kI + ki * e * dt else s.kI
  let recovered := if 0 < cfg.piRecoverPerS ∧ 0 < e ∧ ¬ heldUp ∧ climbed < 1 ∧
      (s.lastDisturbMs = 0 ∨ 1000 ≤ now - s.lastDisturbMs) then
    climbed + cfg.piRecoverPerS * dt else climbed
  let kMin := cfg.piKMin / s.divMax
  let kI := clampRat kMin cfg.piKMax recovered
  { s with
    kI := kI
    k := clampRat kMin cfg.piKMax (kI + kp * e)
    congestedUntilMs :=
      if cfg.piDelaySetMs * 2 < dMs ∨ (s.lastSevereMs ≠ 0 ∧ now - s.lastSevereMs < 1500) then
        now + congestedHoldMs
      else s.congestedUntilMs }

/-- What the PI wants before any limit. -/
def PiState.wanted (cfg : PiConfig) (s : PiState) : ℚ := (s.capKbps : ℚ) * cfg.margin * s.k

/-- The frame-rate stage wanted, and since when a stage up has been. -/
def PiState.chooseDiv (cfg : PiConfig) (s : PiState) (now : ℕ) : ℕ × ℕ :=
  if s.div ≠ none ∧ 1 < s.divMax then
    if s.wanted cfg < (s.floorKbps : ℚ) / s.curDiv ∧ s.curDiv * 2 ≤ s.divMax then (s.curDiv * 2, 0)
    else if 1 < s.curDiv ∧
        (s.floorKbps : ℚ) / ((s.curDiv / 2 : ℕ) : ℚ) * (5 / 4) ≤ s.wanted cfg then
      let since := if s.divUpSinceMs = 0 then now else s.divUpSinceMs
      (if cfg.fpsRecoveryMs ≤ now - since then s.curDiv / 2 else s.curDiv, since)
    else (s.curDiv, 0)
  else (s.curDiv, s.divUpSinceMs)

/-- The target: slew-limited upward, never below the floor of the frame rate it is sent
with. -/
def PiState.targetKbps (cfg : PiConfig) (s : PiState) (dt : ℚ) (wantDiv : ℕ) : ℕ :=
  let capUp := (s.appliedKbps : ℚ) * (1 + cfg.piSlewUp * dt)
  let slewed :=
    if s.appliedKbps ≠ 0 ∧ (s.appliedKbps : ℚ) < s.wanted cfg ∧ capUp < s.wanted cfg then
    capUp else s.wanted cfg
  let floored :=
    if slewed < (s.floorKbps : ℚ) / wantDiv then (s.floorKbps : ℚ) / wantDiv else slewed
  (if (cfg.maxKbps : ℚ) < floored then (cfg.maxKbps : ℚ) else floored).floor.toNat

/-- The answer to a stage request. -/
def PiState.afterStage (s : PiState) (now wantDiv t : ℕ) (status : ℤ) : PiState :=
  if isMissing status then { s with divMax := 1 }
  else if isSuccess status then
    { s with div := some wantDiv, divUpSinceMs := 0, appliedKbps := t, lastApplyMs := now }
  else { s with floorKbps := learnFloor s.floorKbps status (t * wantDiv % 2 ^ 32) }

/-- Another frame-rate stage, with the rate. -/
def PiState.sendStage (s : PiState) (now wantDiv t : ℕ) (ctx : σ) : PiState × σ :=
  let r := send ctx (setFpsDiv wantDiv t)
  (s.afterStage now wantDiv t r.1, r.2)

/-- The change is too small to send. -/
def PiState.tooSmall (s : PiState) (now t : ℕ) (why : Option Disturbance) : Bool :=
  let rel : ℚ := ((t : ℚ) - s.appliedKbps) / s.appliedKbps
  decide (s.appliedKbps ≠ 0) &&
    ((if 0 < rel then decide (rel < 5 / 100) && decide (now - s.lastApplyMs < 1000)
      else decide (-rel < 3 / 100) && why.isNone) || t == s.appliedKbps)

/-- The answer to a rate request that ended with `kbps`. -/
def PiState.afterRate (s : PiState) (now kbps floorKbps : ℕ) (status : ℤ) : PiState :=
  if isSuccess status then
    { s with floorKbps := floorKbps, appliedKbps := kbps, lastApplyMs := now }
  else { s with floorKbps := floorKbps }

/-- The rate on its own. -/
def PiState.sendRate (s : PiState) (now t : ℕ) (ctx : σ) : PiState × σ :=
  if s.appliedKbps ≠ 0 ∧ t < s.appliedKbps then
    let r := applyCut send t s.appliedKbps s.floorKbps s.curDiv ctx
    (s.afterRate now r.kbps r.floorKbps r.status, r.ctx)
  else
    let r := send ctx (setBitrate t)
    (s.afterRate now t s.floorKbps r.1, r.2)

/-- The end of a pass: a frame-rate stage, or a rate. -/
def PiState.sendTarget (cfg : PiConfig) (s : PiState) (now : ℕ) (dt : ℚ)
    (why : Option Disturbance) (ctx : σ) : PiState × σ :=
  let want := s.chooseDiv cfg now
  let s := { s with divUpSinceMs := want.2 }
  let t := s.targetKbps cfg dt want.1
  if want.1 ≠ s.curDiv then s.sendStage send now want.1 t ctx
  else if s.tooSmall now t why then (s, ctx)
  else s.sendRate send now t ctx

/-! ### One pass -/

/-- What the radio and the ring say, before focus mode. -/
def PiState.observe (cfg : PiConfig) (s : PiState) (inp : PiInput) :
    PiState × Option Disturbance :=
  let r := (s.countRetx inp).disturb cfg inp
  r.1.backstop cfg inp r.2

/-- The beginning of a pass, up to the capacity. -/
def PiState.begin (cfg : PiConfig) (s : PiState) (gen : ℕ) (inp : PiInput) (ctx : σ) :
    PiState × σ :=
  let s := PiState.seeGeneration cfg { s with lastTickMs := inp.now } gen
  let r := s.startupDivisor send inp.now ctx
  (r.1.readCapacity cfg inp, r.2)

/-- One pass of the loop of `run_pi`, with `ring_generation` as it was read. -/
def piTick (cfg : PiConfig) (s : PiState) (gen : ℕ) (inp : PiInput) (ctx : σ) : PiState × σ :=
  let dt : ℚ := ((inp.now - s.lastTickMs : ℕ) : ℚ) / 1000
  let r := s.begin send cfg gen inp ctx
  if r.1.capKbps = 0 then r
  else
    let o := r.1.observe cfg inp
    let f := o.1.piFocus send cfg inp.now r.2
    (f.1.updateK cfg inp.delayMs dt inp.now).sendTarget send cfg inp.now dt o.2 f.2

end Requests

end Ar8030
