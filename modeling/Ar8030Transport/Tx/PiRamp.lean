import Mathlib.Data.Nat.Cast.Order.Field
import Mathlib.Tactic.Linarith
import Ar8030Transport.Library.Trace
import Ar8030Transport.Tx.PiControl

/-!
# What the PI controller asks for

`run_pi` follows the capacity of the link with the rate. Below the floor of waybeam it halves the
frame rate, as often as it may, and doubles it again only some time later.

`PiEvent` is what an observer of the controller sees, `PiHistory` what he has to remember of it,
and `PiAsks` what the controller allows itself: which frame-rate stages come after which, and
which rates. Every request of every run is one of those, whatever waybeam answers (`pi_ramp`).
-/

namespace Ar8030

open Trace

/-! ### What is seen -/

/-- A pass with the capacity it reads, if it does, and a request with its answer. -/
inductive PiEvent where
  | pass (now gen : ℕ) (capacity : Option ℕ)
  | request (now : ℕ) (q : LiveSet) (status : ℤ)
  deriving DecidableEq, Repr

/-- What there is to remember. -/
structure PiHistory where
  /-- When the last pass began, and how long after the one before, in seconds. -/
  now : ℕ
  dt : ℚ
  /-- The generation of waybeam. -/
  gen : ℕ
  /-- The capacity read last, 0 if none. -/
  capacity : ℕ
  /-- The rate this waybeam has accepted last. -/
  rate : Option ℕ
  /-- Its frame-rate stage, if known, and when it was set. -/
  div : Option ℕ
  stageAt : Option ℕ
  /-- When the full frame rate was asked for, at the start. -/
  startAt : ℕ
  /-- This waybeam said that it has no stages. -/
  missing : Bool
  /-- The floor that the refusals prove, at the full frame rate. -/
  provenFloor : ℕ
  deriving DecidableEq, Repr

/-- A rate of 0 is none. -/
def nonzero (kbps : ℕ) : Option ℕ := if kbps = 0 then none else some kbps

namespace PiHistory

/-- Nothing was seen yet. -/
def start (cfg : PiConfig) (now gen : ℕ) : PiHistory where
  now := now
  dt := 0
  gen := gen
  capacity := 0
  rate := none
  div := if 1 < cfg.divMax then none else some 1
  stageAt := none
  startAt := 0
  missing := false
  provenFloor := 0

/-- A pass begins. In another generation waybeam is a new one, at the full frame rate. -/
def afterPass (h : PiHistory) (now gen : ℕ) (capacity : Option ℕ) : PiHistory :=
  let h := { h with
    now := now
    dt := ((now - h.now : ℕ) : ℚ) / 1000
    capacity := capacity.getD h.capacity }
  if gen ≠ h.gen then
    { h with gen := gen, rate := none, div := some 1, stageAt := none, missing := false }
  else h

/-- The full frame rate was asked for, at the start. -/
def afterStart (h : PiHistory) (now : ℕ) (status : ℤ) : PiHistory :=
  if isMissing status then { h with startAt := now, missing := true, div := some 1 }
  else if isSuccess status then { h with startAt := now, div := some 1 }
  else { h with startAt := now }

/-- A stage was asked for, with a rate. -/
def afterStage (h : PiHistory) (now div kbps : ℕ) (status : ℤ) : PiHistory :=
  if isMissing status then { h with missing := true }
  else if isSuccess status then
    { h with div := some div, stageAt := some now, rate := nonzero kbps }
  else if status = 409 then { h with provenFloor := max h.provenFloor (kbps * div + 1) }
  else h

/-- A rate was asked for. -/
def afterRate (h : PiHistory) (kbps : ℕ) (status : ℤ) : PiHistory :=
  if isSuccess status then { h with rate := nonzero kbps }
  else if status = 409 then { h with provenFloor := max h.provenFloor (kbps * h.div.getD 1 + 1) }
  else h

/-- One more event. -/
def after (h : PiHistory) : PiEvent → PiHistory
  | .pass now gen capacity => h.afterPass now gen capacity
  | .request now q status =>
    match q.fpsDivisor with
    | some div =>
      if h.div = none then h.afterStart now status
      else h.afterStage now div (q.bitrate.getD 0) status
    | none =>
      match q.bitrate with
      | some kbps => h.afterRate kbps status
      | none => h

/-- The history of a run that began with `h`. -/
def of (h : PiHistory) (events : List PiEvent) : PiHistory := events.foldl after h

theorem of_concat (h : PiHistory) (events : List PiEvent) (e : PiEvent) :
    h.of (events ++ [e]) = (h.of events).after e := by
  rw [of, List.foldl_append]
  rfl

end PiHistory

/-! ### What is asked for -/

/-- The floor at the full frame rate is at most this. -/
def topFloor (cfg : PiConfig) (h : PiHistory) : ℕ := max cfg.minKbps h.provenFloor

/-- What the capacity allows. -/
def capacityKbps (cfg : PiConfig) (h : PiHistory) : ℚ := h.capacity * cfg.margin * cfg.piKMax

/-- A rate at a stage: within the bounds, and raised only with the capacity and only so fast,
unless it is the floor. -/
structure PiRate (cfg : PiConfig) (h : PiHistory) (div kbps : ℕ) : Prop where
  le : kbps ≤ cfg.maxKbps
  ge : min (cfg.minKbps / div) cfg.maxKbps ≤ kbps
  capacity : 0 ≤ cfg.margin → (∀ last, h.rate = some last → last < kbps) →
    kbps ≤ capacityKbps cfg h ∨ kbps ≤ topFloor cfg h / div
  slew : ∀ last, h.rate = some last → last < kbps →
    kbps ≤ last * (1 + cfg.piSlewUp * h.dt) ∨ kbps ≤ topFloor cfg h / div

/-- What the controller may ask for. -/
inductive PiAsks (cfg : PiConfig) (h : PiHistory) (now : ℕ) : LiveSet → Prop
  /-- Focus mode. -/
  | focus (enabled : Bool) : PiAsks cfg h now (setRoi enabled)
  /-- The full frame rate, at the floor, while the stage is not known. -/
  | start {kbps : ℕ} (hdiv : h.div = none) (hsoon : piFocusRetryMs ≤ now - h.startAt)
      (hge : cfg.minKbps ≤ kbps) (hle : kbps ≤ topFloor cfg h) :
      PiAsks cfg h now (setFpsDiv 1 kbps)
  /-- Half the frame rate. -/
  | down {div kbps : ℕ} (hdiv : h.div = some div) (hmay : h.missing = false)
      (hmax : div * 2 ≤ cfg.fpsDivMax) (hrate : PiRate cfg h (div * 2) kbps) :
      PiAsks cfg h now (setFpsDiv (div * 2) kbps)
  /-- Twice the frame rate, not too soon after another stage. -/
  | up {div kbps : ℕ} (hdiv : h.div = some (div * 2)) (hmay : h.missing = false)
      (hsettled : ∀ t ∈ h.stageAt, cfg.fpsRecoveryMs ≤ now - t) (hrate : PiRate cfg h div kbps) :
      PiAsks cfg h now (setFpsDiv div kbps)
  /-- A rate at the stage it is at. -/
  | rate {kbps : ℕ} (hrate : PiRate cfg h (h.div.getD 1) kbps) : PiAsks cfg h now (setBitrate kbps)

/-- The controller may do this. The stage is a power of two. -/
def PiPermitted (cfg : PiConfig) (h : PiHistory) (past : List PiEvent) : PiEvent → Prop
  | .pass _ _ _ => True
  | .request now q _ => PiAsks cfg (h.of past) now q ∧ ∀ d ∈ (h.of past).div, ∃ k, d = 2 ^ k

/-! ### Runs -/

/-- waybeam, and the events so far. -/
structure PiLog (σ : Type*) where
  ctx : σ
  events : List PiEvent

section Runs

variable {σ : Type*} (send : σ → LiveSet → ℤ × σ)

/-- The send function, with a record of the request. -/
def sendSeen (now : ℕ) (x : PiLog σ) (q : LiveSet) : ℤ × PiLog σ :=
  ((send x.ctx q).1, ⟨(send x.ctx q).2, x.events ++ [.request now q (send x.ctx q).1]⟩)

/-- The capacity that the pass reads, if it does. -/
def PiState.readsCapacity (cfg : PiConfig) (s : PiState) (inp : PiInput) : Option ℕ :=
  if s.capKbps = 0 ∨ inp.wake ≠ s.lastSeenWake ∨
      cfg.pollIntervalMs ≤ inp.now - s.lastMcsPollMs then inp.throughput.filter (· ≠ 0)
  else none

/-- One pass, with a record of it, and with `ring_generation` as it was read. -/
def piPassSeen (cfg : PiConfig) (x : PiState × PiLog σ) (p : ℕ × PiInput) : PiState × PiLog σ :=
  piTick (sendSeen send p.2.now) cfg x.1 p.1 p.2
    ⟨x.2.ctx, x.2.events ++ [.pass p.2.now p.1 (x.1.readsCapacity cfg p.2)]⟩

/-- A run of the controller. -/
def piSeen (cfg : PiConfig) (now gen : ℕ) (ctx : σ) (ps : List (ℕ × PiInput)) :
    PiState × PiLog σ :=
  ps.foldl (piPassSeen send cfg) (PiState.init cfg now gen, ⟨ctx, []⟩)

end Runs

/-! ### The invariant -/

/-- The variables that the requests depend on. -/
structure PiView where
  now : ℕ
  gen : ℕ
  capKbps : ℕ
  appliedKbps : ℕ
  div : Option ℕ
  divTryMs : ℕ
  divMax : ℕ
  divUpSinceMs : ℕ
  floorKbps : ℕ

def PiState.view (s : PiState) : PiView where
  now := s.lastTickMs
  gen := s.ringGen
  capKbps := s.capKbps
  appliedKbps := s.appliedKbps
  div := s.div
  divTryMs := s.divTryMs
  divMax := s.divMax
  divUpSinceMs := s.divUpSinceMs
  floorKbps := s.floorKbps

/-- The variables hold what is needed of the history. -/
structure PiAgrees (cfg : PiConfig) (v : PiView) (h : PiHistory) : Prop where
  now : h.now = v.now
  gen : h.gen = v.gen
  capacity : h.capacity = v.capKbps
  rate : h.rate = nonzero v.appliedKbps
  div : h.div = v.div
  startAt : h.startAt = v.divTryMs
  divMax : v.divMax = if h.missing then 1 else cfg.divMax
  stageAt : ∀ t ∈ h.stageAt, t ≤ v.now ∧ (v.divUpSinceMs = 0 ∨ t ≤ v.divUpSinceMs)
  floor_ge : cfg.minKbps ≤ v.floorKbps
  floor_le : v.floorKbps ≤ topFloor cfg h
  applied_le : v.appliedKbps ≤ cfg.maxKbps
  pow : ∀ d ∈ v.div, ∃ k, d = 2 ^ k

/-- The requests were permitted, and the variables hold what is needed of them. -/
structure PiRamps (cfg : PiConfig) (h : PiHistory) (now : ℕ) (dt : ℚ) (v : PiView)
    (events : List PiEvent) : Prop where
  permitted : Always (PiPermitted cfg h) events
  agrees : PiAgrees cfg v (h.of events)
  now : (h.of events).now = now
  dt : (h.of events).dt = dt

section Answers

variable {cfg : PiConfig} {v v' : PiView} {h : PiHistory} {dt : ℚ} {now kbps : ℕ} {status : ℤ}

/-- A request takes no time. -/
theorem PiHistory.after_request (h : PiHistory) (now : ℕ) (q : LiveSet) (status : ℤ) :
    (h.after (.request now q status)).now = h.now ∧
      (h.after (.request now q status)).dt = h.dt := by
  rw [PiHistory.after]
  cases q.fpsDivisor with
  | some div =>
    dsimp only
    rw [PiHistory.afterStart, PiHistory.afterStage]
    split_ifs <;> exact ⟨rfl, rfl⟩
  | none =>
    cases q.bitrate with
    | some kbps =>
      dsimp only
      rw [PiHistory.afterRate]
      split_ifs <;> exact ⟨rfl, rfl⟩
    | none => exact ⟨rfl, rfl⟩

/-- One more request. -/
theorem PiRamps.request {events : List PiEvent} (hramps : PiRamps cfg h now dt v events)
    {q : LiveSet} (hasks : PiAsks cfg (h.of events) now q)
    (hagrees : PiAgrees cfg v' ((h.of events).after (.request now q status))) :
    PiRamps cfg h now dt v' (events ++ [.request now q status]) where
  permitted := hramps.permitted.concat ⟨hasks, hramps.agrees.div ▸ hramps.agrees.pow⟩
  agrees := by rwa [PiHistory.of_concat]
  now := by rw [PiHistory.of_concat, (PiHistory.after_request _ _ _ _).1, hramps.now]
  dt := by rw [PiHistory.of_concat, (PiHistory.after_request _ _ _ _).2, hramps.dt]

/-- The answer to the startup request, before the capacity is read. -/
theorem PiAgrees.afterStart {s : PiState} {capKbps : ℕ}
    (hagrees : PiAgrees cfg { s.view with capKbps := capKbps } h) (now : ℕ) (status : ℤ) :
    PiAgrees cfg { (s.afterStartup now status).view with capKbps := capKbps }
      (h.afterStart now status) := by
  have hone : ∀ d ∈ some 1, ∃ k, d = 2 ^ k := fun d hd => ⟨0, (Option.some.inj hd).symm⟩
  rw [PiState.afterStartup, PiHistory.afterStart]
  split_ifs
  · exact { hagrees with startAt := rfl, div := rfl, divMax := rfl, pow := hone }
  · exact { hagrees with startAt := rfl, div := rfl, pow := hone }
  · exact { hagrees with startAt := rfl }

/-- A refusal, from which the floor may be learned. -/
theorem PiAgrees.refuse (hagrees : PiAgrees cfg v h) {div floor : ℕ} (hge : v.floorKbps ≤ floor)
    (hle : floor ≤ if status = 409 then max v.floorKbps (kbps * div + 1) else v.floorKbps) :
    PiAgrees cfg { v with floorKbps := floor }
      (if status = 409 then { h with provenFloor := max h.provenFloor (kbps * div + 1) }
        else h) := by
  have hfloor := hagrees.floor_le
  split_ifs at hle ⊢
  · exact {
      hagrees with
      floor_ge := hagrees.floor_ge.trans hge
      floor_le := by
        rw [topFloor] at hfloor ⊢
        show floor ≤ max cfg.minKbps (max h.provenFloor (kbps * div + 1))
        omega }
  · obtain rfl := le_antisymm hle hge
    exact hagrees

/-- The answer to a stage request. -/
theorem PiAgrees.afterStage {s : PiState} {div : ℕ} (hagrees : PiAgrees cfg s.view h)
    (hnow : s.lastTickMs = now) (hle : kbps ≤ cfg.maxKbps) (hpow : ∃ k, div = 2 ^ k)
    (status : ℤ) :
    PiAgrees cfg (s.afterStage now div kbps status).view (h.afterStage now div kbps status) := by
  have hlearned := learnFloor_bounds s.floorKbps status (Nat.mod_le (kbps * div) (2 ^ 32))
  rw [PiState.afterStage, PiHistory.afterStage]
  split_ifs with hmissing hok h409
  · exact { hagrees with divMax := rfl }
  · exact {
      hagrees with
      rate := rfl
      div := rfl
      stageAt := fun t ht => ⟨(Option.some.inj ht ▸ hnow).ge, .inl rfl⟩
      applied_le := hle
      pow := fun d hd => Option.some.inj hd ▸ hpow }
  · have hrefuse := hagrees.refuse hlearned.1 hlearned.2
    rwa [if_pos h409] at hrefuse
  · have hrefuse := hagrees.refuse hlearned.1 hlearned.2
    rwa [if_neg h409] at hrefuse

/-- The answer to a rate that is not accepted. -/
theorem PiAgrees.notAccepted (hagrees : PiAgrees cfg v h) {floor : ℕ} (hge : v.floorKbps ≤ floor)
    (hle : floor ≤ if status = 409 then max v.floorKbps (kbps * v.div.getD 1 + 1)
      else v.floorKbps)
    (hstatus : isSuccess status = false) :
    PiAgrees cfg { v with floorKbps := floor } (h.afterRate kbps status) := by
  rw [← hagrees.div] at hle
  rw [PiHistory.afterRate, if_neg (by simp [hstatus])]
  exact hagrees.refuse hge hle

/-- Nothing is learned from the answer. -/
theorem PiAgrees.notLearned (hagrees : PiAgrees cfg v h) (hstatus : isSuccess status = false) :
    PiAgrees cfg v (h.afterRate kbps status) := by
  refine hagrees.notAccepted le_rfl ?_ hstatus
  split_ifs
  · exact le_max_left _ _
  · exact le_rfl

/-- The answer to a rate that is accepted. -/
theorem PiAgrees.accepted (hagrees : PiAgrees cfg v h) (hle : kbps ≤ cfg.maxKbps)
    (hstatus : isSuccess status = true) :
    PiAgrees cfg { v with appliedKbps := kbps } (h.afterRate kbps status) := by
  rw [PiHistory.afterRate, if_pos hstatus]
  exact { hagrees with rate := rfl, applied_le := hle }

end Answers

/-! ### The target -/

section Target

variable {cfg : PiConfig} {s : PiState} {h : PiHistory} {dt : ℚ} {now div : ℕ}

/-- What is wanted, slew-limited upward. -/
def PiState.slewed (cfg : PiConfig) (s : PiState) (dt : ℚ) : ℚ :=
  let capUp := (s.appliedKbps : ℚ) * (1 + cfg.piSlewUp * dt)
  if s.appliedKbps ≠ 0 ∧ (s.appliedKbps : ℚ) < s.wanted cfg ∧ capUp < s.wanted cfg then capUp
  else s.wanted cfg

theorem slewed_le_wanted : s.slewed cfg dt ≤ s.wanted cfg := by
  rw [PiState.slewed]
  split_ifs with hslew
  · exact hslew.2.2.le
  · exact le_rfl

theorem slewed_le (happlied : s.appliedKbps ≠ 0) (hup : (s.appliedKbps : ℚ) < s.slewed cfg dt) :
    s.slewed cfg dt ≤ s.appliedKbps * (1 + cfg.piSlewUp * dt) := by
  have hwanted := hup.trans_le slewed_le_wanted
  rw [PiState.slewed]
  split_ifs with hslew
  · exact le_rfl
  · exact not_lt.mp fun hlt => hslew ⟨happlied, hwanted, hlt⟩

/-- The target is between the floor and the maximum. -/
theorem targetKbps_eq : s.targetKbps cfg dt div =
    (min (cfg.maxKbps : ℚ) (max (s.slewed cfg dt) (s.floorKbps / div))).floor.toNat := by
  rw [PiState.targetKbps, PiState.slewed, min_def_lt, max_def_lt]

theorem cast_targetKbps_le : (s.targetKbps cfg dt div : ℚ) ≤
    min (cfg.maxKbps : ℚ) (max (s.slewed cfg dt) (s.floorKbps / div)) := by
  have hpos : (0 : ℚ) ≤ min (cfg.maxKbps : ℚ) (max (s.slewed cfg dt) (s.floorKbps / div)) :=
    le_min (Nat.cast_nonneg _) (le_max_of_le_right (by positivity))
  rw [targetKbps_eq]
  generalize min (cfg.maxKbps : ℚ) (max (s.slewed cfg dt) (s.floorKbps / div)) = x at hpos ⊢
  have hfloor : 0 ≤ x.floor := Rat.le_floor_iff.mpr hpos
  have hcast : ((x.floor.toNat : ℤ) : ℚ) ≤ x := by
    rw [Int.toNat_of_nonneg hfloor]
    exact Rat.floor_le x
  exact hcast

theorem targetKbps_le : s.targetKbps cfg dt div ≤ cfg.maxKbps :=
  Nat.cast_le.mp (cast_targetKbps_le.trans (min_le_left _ _))

theorem le_targetKbps : min (s.floorKbps / div) cfg.maxKbps ≤ s.targetKbps cfg dt div := by
  have hle : ((min (s.floorKbps / div) cfg.maxKbps : ℕ) : ℚ) ≤
      min (cfg.maxKbps : ℚ) (max (s.slewed cfg dt) (s.floorKbps / div)) := by
    rw [Nat.cast_min]
    exact le_min (min_le_right _ _) (le_max_of_le_right ((min_le_left _ _).trans Nat.cast_div_le))
  have hfloor := Rat.le_floor_iff.mpr ((Int.cast_natCast (R := ℚ) _).trans_le hle)
  rw [targetKbps_eq]
  omega

/-- Above the floor it is what is wanted at most. -/
theorem targetKbps_le_slewed (habove : s.floorKbps / div < s.targetKbps cfg dt div) :
    (s.targetKbps cfg dt div : ℚ) ≤ s.slewed cfg dt := by
  rcases le_max_iff.mp (cast_targetKbps_le.trans (min_le_right _ _)) with hle | hle
  · exact hle
  · rcases Nat.eq_zero_or_pos div with rfl | hdiv
    · rw [Nat.cast_zero, div_zero] at hle
      exact absurd (Nat.cast_le.mp (hle.trans_eq Nat.cast_zero.symm)) (by omega)
    · rw [le_div_iff₀ (Nat.cast_pos.mpr hdiv), ← Nat.cast_mul, Nat.cast_le,
        ← Nat.le_div_iff_mul_le hdiv] at hle
      omega

/-- The rate of a target may be asked for. -/
theorem PiAgrees.piRate (hagrees : PiAgrees cfg s.view h) (hdt : h.dt = dt)
    (hk : s.k ≤ cfg.piKMax) : PiRate cfg h div (s.targetKbps cfg dt div) where
  le := targetKbps_le
  ge := by
    have hge : cfg.minKbps / div ≤ s.floorKbps / div := Nat.div_le_div_right hagrees.floor_ge
    exact (min_le_min_right _ hge).trans le_targetKbps
  capacity hmargin _ := by
    have hfloor : s.floorKbps / div ≤ topFloor cfg h / div := Nat.div_le_div_right hagrees.floor_le
    have hcapacity : h.capacity = s.capKbps := hagrees.capacity
    rcases Nat.lt_or_ge (s.floorKbps / div) (s.targetKbps cfg dt div) with habove | hbelow
    · refine .inl ((targetKbps_le_slewed habove).trans (slewed_le_wanted.trans ?_))
      rw [PiState.wanted, capacityKbps, hcapacity]
      exact mul_le_mul_of_nonneg_left hk (mul_nonneg (Nat.cast_nonneg _) hmargin)
    · exact .inr (hbelow.trans hfloor)
  slew last hlast hlt := by
    have hfloor : s.floorKbps / div ≤ topFloor cfg h / div := Nat.div_le_div_right hagrees.floor_le
    have hrate : h.rate = nonzero s.appliedKbps := hagrees.rate
    rw [hlast, nonzero] at hrate
    split_ifs at hrate with happlied
    obtain rfl := Option.some.inj hrate
    rcases Nat.lt_or_ge (s.floorKbps / div) (s.targetKbps cfg dt div) with habove | hbelow
    · have hslewed := targetKbps_le_slewed habove
      rw [hdt]
      exact .inl (hslewed.trans (slewed_le happlied ((Nat.cast_lt.mpr hlt).trans_le hslewed)))
    · exact .inr (hbelow.trans hfloor)

end Target

/-! ### The stage -/

section Stage

variable {cfg : PiConfig} {s : PiState} {h : PiHistory} {now : ℕ}

/-- Since when a stage up is wanted. -/
theorem chooseDiv_since (cfg : PiConfig) (s : PiState) (now : ℕ) : (s.chooseDiv cfg now).2 = 0 ∨
    (s.chooseDiv cfg now).2 = s.divUpSinceMs ∨
      s.divUpSinceMs = 0 ∧ (s.chooseDiv cfg now).2 = now := by
  rw [PiState.chooseDiv]
  dsimp only
  split_ifs with hstages hdown hup hzero hrecovered hrecovered
  · exact .inl rfl
  · exact .inr (.inr ⟨hzero, rfl⟩)
  · exact .inr (.inr ⟨hzero, rfl⟩)
  · exact .inr (.inl rfl)
  · exact .inr (.inl rfl)
  · exact .inl rfl
  · exact .inr (.inl rfl)

theorem PiAgrees.chooseDiv (hagrees : PiAgrees cfg s.view h) (hnow : s.lastTickMs = now) :
    PiAgrees cfg { s.view with divUpSinceMs := (s.chooseDiv cfg now).2 } h :=
  { hagrees with
    stageAt := fun t ht => by
      obtain ⟨hle, hsince⟩ : t ≤ s.lastTickMs ∧ (s.divUpSinceMs = 0 ∨ t ≤ s.divUpSinceMs) :=
        hagrees.stageAt t ht
      refine ⟨hle, ?_⟩
      show (s.chooseDiv cfg now).2 = 0 ∨ t ≤ (s.chooseDiv cfg now).2
      rcases chooseDiv_since cfg s now with heq | heq | ⟨-, heq⟩ <;>
        omega }

/-- What is known if a stage is asked for. -/
theorem PiAgrees.of_stages (hagrees : PiAgrees cfg s.view h) (hdiv : s.div ≠ none)
    (hmax : 1 < s.divMax) :
    h.div = some s.curDiv ∧ h.missing = false ∧ s.divMax = cfg.divMax ∧
      ∃ k, s.curDiv = 2 ^ k := by
  obtain ⟨d, hd⟩ := Option.ne_none_iff_exists'.mp hdiv
  have hcur : s.curDiv = d := by rw [PiState.curDiv, hd, Option.getD_some]
  have hhdiv : h.div = s.div := hagrees.div
  have hdivMax : s.divMax = if h.missing then 1 else cfg.divMax := hagrees.divMax
  have hpow : ∀ d ∈ s.div, ∃ k, d = 2 ^ k := hagrees.pow
  split_ifs at hdivMax with hmissing
  · omega
  · exact ⟨hcur ▸ hhdiv.trans hd, eq_false_of_ne_true hmissing, hdivMax, hcur ▸ hpow d hd⟩

/-- A stage up was wanted long enough, and since after the last stage. -/
theorem PiAgrees.stageUp (hagrees : PiAgrees cfg s.view h) (hnow : s.lastTickMs = now)
    (hdiv : s.div ≠ none) (hmax : 1 < s.divMax) (hup : 1 < s.curDiv)
    (hrecovered : cfg.fpsRecoveryMs ≤ now - if s.divUpSinceMs = 0 then now else s.divUpSinceMs) :
    h.div = some (s.curDiv / 2 * 2) ∧ h.missing = false ∧ (∃ k, s.curDiv / 2 = 2 ^ k) ∧
      ∀ t ∈ h.stageAt, cfg.fpsRecoveryMs ≤ now - t := by
  obtain ⟨hhdiv, hmissing, -, k, hk⟩ := hagrees.of_stages hdiv hmax
  cases k with
  | zero => omega
  | succ k =>
    have hhalf : s.curDiv / 2 = 2 ^ k := by
      rw [hk, pow_succ]
      exact Nat.mul_div_cancel _ Nat.two_pos
    refine ⟨?_, hmissing, ⟨k, hhalf⟩, fun t ht => ?_⟩
    · rw [hhdiv, hhalf, hk, pow_succ]
    · obtain ⟨hle, hsince⟩ : t ≤ s.lastTickMs ∧ (s.divUpSinceMs = 0 ∨ t ≤ s.divUpSinceMs) :=
        hagrees.stageAt t ht
      split_ifs at hrecovered <;> omega

/-- A stage is one from the one before. -/
theorem PiAgrees.stage_cases (hagrees : PiAgrees cfg s.view h) (hnow : s.lastTickMs = now)
    (hother : (s.chooseDiv cfg now).1 ≠ s.curDiv) :
    h.div ≠ none ∧ (∃ k, (s.chooseDiv cfg now).1 = 2 ^ k) ∧ ∀ kbps,
      PiRate cfg h (s.chooseDiv cfg now).1 kbps →
        PiAsks cfg h now (setFpsDiv (s.chooseDiv cfg now).1 kbps) := by
  revert hother
  rw [PiState.chooseDiv]
  dsimp only
  split_ifs with hstages hdown hup hzero hrecovered hrecovered
  · intro _
    obtain ⟨hhdiv, hmissing, hdivMax, k, hk⟩ := hagrees.of_stages hstages.1 hstages.2
    have hmax := hdown.2
    have hone := hstages.2
    rw [hdivMax, PiConfig.divMax] at hmax hone
    refine ⟨by simp [hhdiv], ⟨k + 1, by rw [hk, pow_succ]⟩,
      fun kbps hrate => .down hhdiv hmissing ?_ hrate⟩
    split_ifs at hmax hone <;> omega
  · intro _
    obtain ⟨hhdiv, hmissing, hpow, hsettled⟩ :=
      hagrees.stageUp hnow hstages.1 hstages.2 hup.1 (by rwa [if_pos hzero])
    exact ⟨by simp [hhdiv], hpow, fun kbps hrate => .up hhdiv hmissing hsettled hrate⟩
  · exact fun hother => absurd rfl hother
  · intro _
    obtain ⟨hhdiv, hmissing, hpow, hsettled⟩ :=
      hagrees.stageUp hnow hstages.1 hstages.2 hup.1 (by rwa [if_neg hzero])
    exact ⟨by simp [hhdiv], hpow, fun kbps hrate => .up hhdiv hmissing hsettled hrate⟩
  · exact fun hother => absurd rfl hother
  · exact fun hother => absurd rfl hother
  · exact fun hother => absurd rfl hother

end Stage

/-! ### Requests -/

theorem PiHistory.after_setFpsDiv {h : PiHistory} (hdiv : h.div ≠ none) (now div kbps : ℕ)
    (status : ℤ) :
    h.after (.request now (setFpsDiv div kbps) status) = h.afterStage now div kbps status := by
  have hkbps : (if kbps ≠ 0 then some kbps else none).getD 0 = kbps := by
    split_ifs with hzero
    · rfl
    · exact (not_not.mp hzero).symm
  rw [PiHistory.after]
  dsimp only [setFpsDiv]
  rw [if_neg hdiv, hkbps]

section Requests

variable {σ : Type*} {send : σ → LiveSet → ℤ × σ} {cfg : PiConfig} {h₀ : PiHistory} {dt : ℚ}
  {s : PiState} {x : PiLog σ} {now : ℕ}

/-- The same, for what a part of a pass comes to. -/
def PiRampsAt (cfg : PiConfig) (h₀ : PiHistory) (now : ℕ) (dt : ℚ) (r : PiState × PiLog σ) :
    Prop :=
  PiRamps cfg h₀ now dt r.1.view r.2.events

theorem PiRampsAt.lastTickMs_eq (h : PiRampsAt cfg h₀ now dt (s, x)) : s.lastTickMs = now :=
  h.agrees.now.symm.trans h.now

/-- A stage. -/
theorem PiRampsAt.sendStage (h : PiRampsAt cfg h₀ now dt (s, x)) {div kbps : ℕ}
    (hdiv : (h₀.of x.events).div ≠ none) (hle : kbps ≤ cfg.maxKbps)
    (hpow : ∃ k, div = 2 ^ k) (hasks : PiAsks cfg (h₀.of x.events) now (setFpsDiv div kbps)) :
    PiRampsAt cfg h₀ now dt (s.sendStage (sendSeen send now) now div kbps x) := by
  refine PiRamps.request h hasks ?_
  rw [PiHistory.after_setFpsDiv hdiv]
  exact h.agrees.afterStage h.lastTickMs_eq hle hpow _

/-- A lower rate may be asked for. -/
theorem PiAgrees.asks_lower {v : PiView} {h : PiHistory} (hagrees : PiAgrees cfg v h) {kbps : ℕ}
    (hlt : kbps < v.appliedKbps) (hge : min (cfg.minKbps / v.div.getD 1) cfg.maxKbps ≤ kbps) :
    PiAsks cfg h now (setBitrate kbps) := by
  have hrate : ∀ last, h.rate = some last → ¬ last < kbps := fun last hlast => by
    rw [hagrees.rate, nonzero] at hlast
    split_ifs at hlast
    obtain rfl := Option.some.inj hlast
    omega
  refine .rate ⟨hlt.le.trans hagrees.applied_le, hagrees.div ▸ hge, fun _ hup => ?_,
    fun last hlast hup => absurd hup (hrate last hlast)⟩
  have hlast : h.rate = some v.appliedKbps := by rw [hagrees.rate, nonzero, if_neg (by omega)]
  exact absurd (hup _ hlast) (hrate _ hlast)

/-- A cut. -/
theorem PiRampsAt.cutLoop {floorKbps kbps : ℕ}
    (h : PiRampsAt cfg h₀ now dt ({ s with floorKbps := floorKbps }, x))
    (hlt : kbps < s.appliedKbps) (hge : min (cfg.minKbps / s.curDiv) cfg.maxKbps ≤ kbps)
    {status : ℤ} (hstatus : isSuccess status = false) (attempts : ℕ) :
    PiRampsAt cfg h₀ now dt
      (s.afterRate now
        (cutLoop (sendSeen send now) s.appliedKbps s.curDiv attempts status kbps floorKbps x).kbps
        (cutLoop (sendSeen send now) s.appliedKbps s.curDiv attempts status kbps floorKbps
          x).floorKbps
        (cutLoop (sendSeen send now) s.appliedKbps s.curDiv attempts status kbps floorKbps
          x).status,
        (cutLoop (sendSeen send now) s.appliedKbps s.curDiv attempts status kbps floorKbps
          x).ctx) := by
  induction attempts generalizing floorKbps kbps status x with
  | zero =>
    rw [Ar8030.cutLoop]
    dsimp only
    rw [PiState.afterRate, if_neg (by simp [hstatus])]
    exact h
  | succ attempts ih =>
    have hasks : PiAsks cfg (h₀.of x.events) now (setBitrate kbps) := h.agrees.asks_lower hlt hge
    have hlearned := learnFloor_bounds floorKbps (sendSeen send now x (setBitrate kbps)).1
      (Nat.mod_le (kbps * s.curDiv) (2 ^ 32))
    rw [Ar8030.cutLoop]
    dsimp only
    split_ifs with hother hnear
    · -- accepted, or failed for another reason
      dsimp only
      rw [PiState.afterRate]
      split_ifs with hok
      · exact PiRamps.request h hasks
          (h.agrees.accepted (hlt.le.trans h.agrees.applied_le) hok)
      · exact PiRamps.request h hasks (h.agrees.notLearned (eq_false_of_ne_true hok))
    · have hok : isSuccess (sendSeen send now x (setBitrate kbps)).1 = false := by
        rw [not_not.mp hother]
        decide
      dsimp only
      rw [PiState.afterRate, if_neg (by simp [hok])]
      exact PiRamps.request h hasks (h.agrees.notAccepted hlearned.1 hlearned.2 hok)
    · have hok : isSuccess (sendSeen send now x (setBitrate kbps)).1 = false := by
        rw [not_not.mp hother]
        decide
      have hnext := PiRamps.request h hasks (h.agrees.notAccepted hlearned.1 hlearned.2 hok)
      exact ih (x := (sendSeen send now x (setBitrate kbps)).2) hnext (by omega) (by omega) hok

/-- The rate on its own. -/
theorem PiRampsAt.sendRate (h : PiRampsAt cfg h₀ now dt (s, x)) {kbps : ℕ}
    (hrate : PiRate cfg (h₀.of x.events) s.curDiv kbps) :
    PiRampsAt cfg h₀ now dt (s.sendRate (sendSeen send now) now kbps x) := by
  have hdiv : (h₀.of x.events).div = s.div := h.agrees.div
  have hasks : PiAsks cfg (h₀.of x.events) now (setBitrate kbps) :=
    .rate (by rw [hdiv]; exact hrate)
  rw [PiState.sendRate]
  split_ifs with hcut
  · exact PiRampsAt.cutLoop h hcut.2 hrate.ge (by decide) _
  · dsimp only
    rw [PiState.afterRate]
    split_ifs with hok
    · exact PiRamps.request h hasks (h.agrees.accepted hrate.le hok)
    · exact PiRamps.request h hasks (h.agrees.notLearned (eq_false_of_ne_true hok))

/-- The end of a pass. -/
theorem PiRampsAt.sendTarget (h : PiRampsAt cfg h₀ now dt (s, x)) (hk : s.k ≤ cfg.piKMax)
    (why : Option Disturbance) :
    PiRampsAt cfg h₀ now dt (s.sendTarget (sendSeen send now) cfg now dt why x) := by
  have hsince : PiRampsAt cfg h₀ now dt
      ({ s with divUpSinceMs := (s.chooseDiv cfg now).2 }, x) :=
    { h with agrees := h.agrees.chooseDiv h.lastTickMs_eq }
  have hrate : ∀ div, PiRate cfg (h₀.of x.events) div
      (PiState.targetKbps cfg { s with divUpSinceMs := (s.chooseDiv cfg now).2 } dt div) :=
    fun div => hsince.agrees.piRate hsince.dt hk
  rw [PiState.sendTarget]
  split_ifs with hother hsmall
  · obtain ⟨hdiv, hpow, hasks⟩ := h.agrees.stage_cases h.lastTickMs_eq hother
    exact hsince.sendStage hdiv targetKbps_le hpow (hasks _ (hrate _))
  · exact hsince
  · have hsame : (s.chooseDiv cfg now).1 = s.curDiv := not_not.mp hother
    exact hsince.sendRate (hsame ▸ hrate _)

/-! ### Passes -/

/-- A pass begins. -/
theorem PiRampsAt.pass {last : ℕ} (h : PiRampsAt cfg h₀ last dt (s, x)) (gen : ℕ)
    (hclock : last ≤ now) (capacity : Option ℕ) :
    PiRamps cfg h₀ now (((now - last : ℕ) : ℚ) / 1000)
      { (PiState.seeGeneration cfg { s with lastTickMs := now } gen).view with
        capKbps := capacity.getD s.capKbps }
      (x.events ++ [.pass now gen capacity]) := by
  have hagrees : PiAgrees cfg s.view (h₀.of x.events) := h.agrees
  have hlast := h.lastTickMs_eq
  have hgen : (h₀.of x.events).gen = s.ringGen := hagrees.gen
  have hcapacity : (h₀.of x.events).capacity = s.capKbps := hagrees.capacity
  have hone : ∀ d ∈ some 1, ∃ k, d = 2 ^ k := fun d hd => ⟨0, (Option.some.inj hd).symm⟩
  refine ⟨h.permitted.concat trivial, ?_, ?_, ?_⟩
  · rw [PiHistory.of_concat, PiHistory.after, PiHistory.afterPass, PiState.seeGeneration]
    dsimp only
    rw [hgen, hcapacity]
    split_ifs
    · exact {
        hagrees with
        now := rfl
        gen := rfl
        capacity := rfl
        rate := rfl
        div := rfl
        divMax := rfl
        stageAt := fun t ht => by cases ht
        applied_le := Nat.zero_le _
        pow := hone }
    · exact {
        hagrees with
        now := rfl
        gen := rfl
        capacity := rfl
        stageAt := fun t ht =>
          ⟨(hagrees.stageAt t ht).1.trans (hlast.trans_le hclock), (hagrees.stageAt t ht).2⟩ }
  · rw [PiHistory.of_concat, PiHistory.after, PiHistory.afterPass]
    dsimp only
    split_ifs <;> rfl
  · rw [PiHistory.of_concat, PiHistory.after, PiHistory.afterPass, ← h.now]
    dsimp only
    split_ifs <;> rfl

/-- The request at the start, before the capacity is read. -/
theorem PiRamps.startupDivisor (send : σ → LiveSet → ℤ × σ) (x : PiLog σ) {capKbps : ℕ}
    (h : PiRamps cfg h₀ now dt { s.view with capKbps := capKbps } x.events) :
    PiRamps cfg h₀ now dt
      { (s.startupDivisor (sendSeen send now) now x).1.view with capKbps := capKbps }
      (s.startupDivisor (sendSeen send now) now x).2.events := by
  rw [PiState.startupDivisor]
  split_ifs with hdue
  · have hdiv : (h₀.of x.events).div = none := h.agrees.div.trans hdue.1
    refine PiRamps.request h (.start hdiv ?_ h.agrees.floor_ge h.agrees.floor_le) ?_
    · rw [h.agrees.startAt]
      exact hdue.2
    · have hstart := h.agrees.afterStart now (sendSeen send now x (setFpsDiv 1 s.floorKbps)).1
      rw [PiHistory.after]
      dsimp only [setFpsDiv] at hstart ⊢
      rwa [if_pos hdiv]
  · exact h

theorem readCapacity_view (inp : PiInput) :
    (s.readCapacity cfg inp).view =
      { s.view with capKbps := (s.readsCapacity cfg inp).getD s.capKbps } := by
  rw [PiState.readCapacity, PiState.readsCapacity]
  split_ifs
  · cases hread : inp.throughput with
    | none => rfl
    | some c => by_cases hzero : c = 0 <;> simp [hzero, Option.filter, PiState.view]
  · rfl

theorem readsCapacity_seeGeneration (cfg : PiConfig) (s : PiState) (now gen : ℕ) (inp : PiInput) :
    (PiState.seeGeneration cfg { s with lastTickMs := now } gen).readsCapacity cfg inp =
        s.readsCapacity cfg inp ∧
      (PiState.seeGeneration cfg { s with lastTickMs := now } gen).capKbps = s.capKbps := by
  rw [PiState.seeGeneration]
  split_ifs <;> exact ⟨rfl, rfl⟩

theorem readsCapacity_startupDivisor (cfg : PiConfig) (send : σ → LiveSet → ℤ × σ) (ctx : σ)
    (inp : PiInput) :
    (s.startupDivisor send now ctx).1.readsCapacity cfg inp = s.readsCapacity cfg inp ∧
      (s.startupDivisor send now ctx).1.capKbps = s.capKbps := by
  rw [PiState.startupDivisor]
  split_ifs
  · dsimp only
    rw [PiState.afterStartup]
    split_ifs <;> exact ⟨rfl, rfl⟩
  · exact ⟨rfl, rfl⟩

/-- The beginning of a pass. -/
theorem PiRampsAt.begin {last : ℕ} (h : PiRampsAt cfg h₀ last dt (s, x))
    (send : σ → LiveSet → ℤ × σ) (gen : ℕ) (inp : PiInput) (hclock : last ≤ inp.now) :
    PiRampsAt cfg h₀ inp.now (((inp.now - last : ℕ) : ℚ) / 1000)
      (s.begin (sendSeen send inp.now) cfg gen inp
        ⟨x.ctx, x.events ++ [.pass inp.now gen (s.readsCapacity cfg inp)]⟩) := by
  have hstart := PiRamps.startupDivisor send
    ⟨x.ctx, x.events ++ [.pass inp.now gen (s.readsCapacity cfg inp)]⟩
    (h.pass gen hclock (s.readsCapacity cfg inp))
  obtain ⟨hreads, hcap⟩ := readsCapacity_seeGeneration cfg s inp.now gen inp
  rw [PiRampsAt, PiState.begin]
  dsimp only
  rw [readCapacity_view, (readsCapacity_startupDivisor cfg _ _ inp).1,
    (readsCapacity_startupDivisor cfg _ _ inp).2, hreads, hcap]
  exact hstart

theorem view_observe (inp : PiInput) : (s.observe cfg inp).1.view = s.view := by
  have hdisturb : ∀ s : PiState, (s.disturb cfg inp).1.view = s.view := fun s => by
    rw [PiState.disturb]
    dsimp only
    split_ifs <;> rfl
  have hbackstop : ∀ (s : PiState) (why : Option Disturbance),
      (s.backstop cfg inp why).1.view = s.view := fun s why => by
    rw [PiState.backstop]
    split_ifs <;> rfl
  exact (hbackstop _ _).trans (hdisturb _)

theorem k_updateK_le (dMs : ℚ) : (s.updateK cfg dMs dt now).k ≤ cfg.piKMax := by
  have hclamp : ∀ lo x, clampRat lo cfg.piKMax x ≤ cfg.piKMax := fun lo x => by
    rw [clampRat]
    generalize (if x < lo then lo else x) = y
    split_ifs with h
    · exact le_rfl
    · exact not_lt.mp h
  exact hclamp _ _

/-- Focus mode. -/
theorem PiRampsAt.piFocus (h : PiRampsAt cfg h₀ now dt (s, x)) (send : σ → LiveSet → ℤ × σ) :
    PiRampsAt cfg h₀ now dt (s.piFocus (sendSeen send now) cfg now x) := by
  rw [PiState.piFocus]
  dsimp only
  split_ifs
  · exact h
  · exact h
  · rw [PiState.afterFocus]
    split_ifs <;> exact PiRamps.request h (.focus _) h.agrees

/-- **One pass.** -/
theorem PiRampsAt.passSeen {last : ℕ} (h : PiRampsAt cfg h₀ last dt (s, x))
    (send : σ → LiveSet → ℤ × σ) (p : ℕ × PiInput) (hclock : last ≤ p.2.now) :
    PiRampsAt cfg h₀ p.2.now (((p.2.now - last : ℕ) : ℚ) / 1000)
      (piPassSeen send cfg (s, x) p) := by
  have hbegin := h.begin send p.1 p.2 hclock
  rw [piPassSeen, piTick]
  dsimp only
  rw [h.lastTickMs_eq]
  generalize PiState.begin (sendSeen send p.2.now) cfg s p.1 p.2 _ = r at hbegin ⊢
  split_ifs
  · exact hbegin
  · have hobserve : PiRampsAt cfg h₀ p.2.now (((p.2.now - last : ℕ) : ℚ) / 1000)
        ((r.1.observe cfg p.2).1, r.2) := by
      rw [PiRampsAt, view_observe]
      exact hbegin
    have hfocus := hobserve.piFocus send
    generalize PiState.piFocus (sendSeen send p.2.now) cfg _ p.2.now r.2 = f at hfocus ⊢
    have hupdate : PiRampsAt cfg h₀ p.2.now (((p.2.now - last : ℕ) : ℚ) / 1000)
        (f.1.updateK cfg (p.2.delayMs) (((p.2.now - last : ℕ) : ℚ) / 1000) p.2.now, f.2) := hfocus
    exact hupdate.sendTarget (k_updateK_le _) _

end Requests

theorem piRampsAt_init {σ : Type*} (cfg : PiConfig) (now gen : ℕ) (ctx : σ) :
    PiRampsAt cfg (PiHistory.start cfg now gen) now 0 (PiState.init cfg now gen, ⟨ctx, []⟩) where
  permitted := always_nil
  now := rfl
  dt := rfl
  agrees := {
    now := rfl
    gen := rfl
    capacity := rfl
    rate := rfl
    div := rfl
    startAt := rfl
    divMax := rfl
    stageAt := fun t ht => by cases ht
    floor_ge := le_rfl
    floor_le := le_max_left _ _
    applied_le := Nat.zero_le _
    pow := fun d hd => by
      simp only [PiState.init, PiState.view] at hd
      split_ifs at hd
      · cases hd
      · exact ⟨0, (Option.some.inj hd).symm⟩ }

/-- **The PI controller asks only for what is permitted**, in every run and whatever waybeam
answers. The frame rate is halved or doubled one stage at a time, to a power of two that waybeam
may be set to, and doubled only `fps_recovery_ms` after the last stage. But for the request at the
start, which is at the floor, no rate is above the maximum or below the floor that is configured,
as it is at that stage; and a rate that is raised stays within the share `pi_k_max` of the
capacity and within `pi_slew_up`, unless it is the floor in force. -/
theorem pi_ramp {σ : Type*} (send : σ → LiveSet → ℤ × σ) (cfg : PiConfig) (now gen : ℕ) (ctx : σ)
    (ps : List (ℕ × PiInput)) (hclock : (now :: ps.map fun p => p.2.now).IsChain (· ≤ ·)) :
    Always (PiPermitted cfg (PiHistory.start cfg now gen))
      (piSeen send cfg now gen ctx ps).2.events := by
  have hrun : ∀ (ps : List (ℕ × PiInput)) (last : ℕ) (dt : ℚ) (r : PiState × PiLog σ),
      PiRampsAt cfg (PiHistory.start cfg now gen) last dt r →
      (last :: ps.map fun p => p.2.now).IsChain (· ≤ ·) →
      ∃ last' dt', PiRampsAt cfg (PiHistory.start cfg now gen) last' dt'
        (ps.foldl (piPassSeen send cfg) r) := by
    intro ps
    induction ps with
    | nil => exact fun last dt r hr _ => ⟨last, dt, hr⟩
    | cons p ps ih =>
      intro last dt r hr hchain
      rw [List.map_cons, List.isChain_cons_cons] at hchain
      exact ih _ _ _ (PiRampsAt.passSeen hr send p hchain.1) hchain.2
  obtain ⟨_, _, hramps⟩ := hrun ps now 0 _ (piRampsAt_init cfg now gen ctx) hclock
  exact hramps.permitted

/-- A waybeam with two frame-rate stages. -/
def twoStages : PiConfig := { PiConfig.shipped with minKbps := 1000, fpsDivMax := 2 }

/-- The capacity of the link falls, and it rises again. -/
def fadingLink : List (ℕ × PiInput) :=
  [(1000, 4000), (1500, 1000), (2000, 10000), (2500, 10000), (3000, 10000)].map fun x =>
    (0, ⟨x.1, 0, 0, 0, some x.2, 0, none, none⟩)

/-- The frame rate is halved at once, and doubled a second after it could have been. -/
theorem pi_ramp_fadingLink :
    (500 :: fadingLink.map fun p => p.2.now).IsChain (· ≤ ·) ∧
      (piSeen (fun _ _ => (200, ())) twoStages 500 0 () fadingLink).2.events.filterMap
        (fun e => match e with
          | .request now q _ => q.fpsDivisor.map (Prod.mk now)
          | .pass _ _ _ => none) = [(1000, 1), (1500, 2), (3000, 1)] ∧
        Always (PiPermitted twoStages (PiHistory.start twoStages 500 0))
          (piSeen (fun _ _ => (200, ())) twoStages 500 0 () fadingLink).2.events := by
  have hclock : (500 :: fadingLink.map fun p => p.2.now).IsChain (· ≤ ·) := by decide
  exact ⟨hclock, by decide +kernel, pi_ramp _ twoStages 500 0 () fadingLink hclock⟩

end Ar8030
