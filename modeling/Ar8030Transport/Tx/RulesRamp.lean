import Ar8030Transport.Library.Trace
import Ar8030Transport.Tx.RulesControl

/-!
# How the rules raise the rate

A rate that is too low costs picture quality, one that is too high costs the link. So `run_rules`
raises slowly: not soon after a cut, a backlog or another increase, and in steps, of which the
largest is the jump to part of what the link is good for, after a fade.

`RulesEvent` is what an observer of the controller sees, `RateHistory` what he has to remember of
it, and `Permitted` what the controller allows itself. Every request of every run is permitted,
whatever waybeam answers (`rules_ramp`).
-/

namespace Ar8030

open Trace

/-! ### What is seen -/

/-- The link as a pass reads it, a pass that finds the ring backlogged, and a request with its
answer. -/
inductive RulesEvent where
  | link (now linkKbps : ℕ)
  | backlog (now : ℕ)
  | request (now : ℕ) (q : LiveSet) (status : ℤ)
  deriving DecidableEq, Repr

/-- What the link did: the last reading, when it last jumped up, and when it last fell back from
such a jump; 0 is never. -/
structure LinkHistory where
  linkKbps : ℕ
  riseMs : ℕ
  swingMs : ℕ
  deriving DecidableEq, Repr

/-- One more reading. -/
def LinkHistory.read (cfg : RulesConfig) (l : LinkHistory) (now linkKbps : ℕ) : LinkHistory :=
  if l.linkKbps ≠ 0 ∧ l.linkKbps * linkSwingFactor ≤ linkKbps then ⟨linkKbps, now, l.swingMs⟩
  else if l.linkKbps ≠ 0 ∧ linkKbps * linkSwingFactor ≤ l.linkKbps ∧ l.riseMs ≠ 0 ∧
      now - l.riseMs < cfg.unstableWindowMs then ⟨linkKbps, l.riseMs, now⟩
  else ⟨linkKbps, l.riseMs, l.swingMs⟩

/-- What there is to remember. -/
structure RateHistory where
  /-- The rate waybeam has accepted last. -/
  rate : Option ℕ
  /-- When it was last lowered, and when raised or set for the first time. -/
  cutAt : Option ℕ
  raisedAt : Option ℕ
  backlogAt : Option ℕ
  /-- The minimum, or what the refused cuts have taught. -/
  floorKbps : ℕ
  link : LinkHistory
  deriving DecidableEq, Repr

namespace RateHistory

/-- Nothing was seen. -/
def empty (cfg : RulesConfig) : RateHistory := ⟨none, none, none, none, cfg.minKbps, ⟨0, 0, 0⟩⟩

/-- An accepted rate. -/
def accept (h : RateHistory) (now kbps : ℕ) : RateHistory :=
  match h.rate with
  | none => { h with rate := some kbps, raisedAt := some now }
  | some last =>
    if kbps < last then { h with rate := some kbps, cutAt := some now }
    else if last < kbps then { h with rate := some kbps, raisedAt := some now }
    else h

/-- A rate that is not accepted. -/
def refuse (h : RateHistory) (kbps : ℕ) (status : ℤ) : RateHistory :=
  if h.rate.any (kbps < ·) then { h with floorKbps := learnFloor h.floorKbps status kbps } else h

/-- One more event. -/
def after (cfg : RulesConfig) (h : RateHistory) : RulesEvent → RateHistory
  | .link now linkKbps => { h with link := h.link.read cfg now linkKbps }
  | .backlog now => { h with backlogAt := some now }
  | .request now q status =>
    match q.bitrate with
    | none => h
    | some kbps => if isSuccess status then h.accept now kbps else h.refuse kbps status

theorem after_accepted {cfg : RulesConfig} {h : RateHistory} {q : LiveSet} {now kbps : ℕ}
    {status : ℤ} (hq : q.bitrate = some kbps) (hok : isSuccess status = true) :
    h.after cfg (.request now q status) = h.accept now kbps := by
  rw [after, hq]
  exact if_pos hok

theorem after_refused {cfg : RulesConfig} {h : RateHistory} {q : LiveSet} {now kbps : ℕ}
    {status : ℤ} (hq : q.bitrate = some kbps) (hok : isSuccess status = false) :
    h.after cfg (.request now q status) = h.refuse kbps status := by
  rw [after, hq]
  exact if_neg (by simp [hok])

/-- The history of a run. -/
def of (cfg : RulesConfig) (events : List RulesEvent) : RateHistory :=
  events.foldl (after cfg) (empty cfg)

theorem of_concat (cfg : RulesConfig) (events : List RulesEvent) (e : RulesEvent) :
    of cfg (events ++ [e]) = (of cfg events).after cfg e := by
  rw [of, List.foldl_append]
  rfl

/-! ### What is permitted -/

/-- What the link is good for. -/
def target (cfg : RulesConfig) (h : RateHistory) : ℕ :=
  clampU32 (truncate (h.link.linkKbps * cfg.margin)) h.floorKbps cfg.maxKbps

/-- The link swung lately. -/
def unstable (cfg : RulesConfig) (h : RateHistory) (now : ℕ) : Bool :=
  h.link.swingMs ≠ 0 ∧ now - h.link.swingMs < cfg.unstableWindowMs

/-- The step of an increase, a smaller one while the link is unstable. -/
def step (cfg : RulesConfig) (h : RateHistory) (now : ℕ) : ℚ :=
  if h.unstable cfg now ∧ 0 < cfg.unstableRampStep then cfg.unstableRampStep else cfg.rampStep

end RateHistory

/-- An increase from `last` keeps its distance from what came before, and its step. Only from half
the target of a stable link or less there is the jump, to a part of that target. -/
structure Increases (cfg : RulesConfig) (h : RateHistory) (now last kbps : ℕ) : Prop where
  cut : ∀ t ∈ h.cutAt, cfg.rampSettleMs ≤ now - t
  backlog : ∀ t ∈ h.backlogAt, cfg.rampSettleMs ≤ now - t
  raised : ∀ t ∈ h.raisedAt, cfg.minIntervalMs ≤ now - t
  target : kbps ≤ h.target cfg
  step : 0 < h.step cfg now →
    kbps ≤ max (last + 1) (truncate (last * (1 + h.step cfg now))) ∨
      h.unstable cfg now = false ∧ last * recoveryJumpRatio ≤ h.target cfg ∧
        kbps ≤ truncate (h.target cfg * recoveryJumpFrac)

/-- A rate is between the floor and the maximum (of which the floor may be the higher), and an
increase is one. -/
structure PermittedRate (cfg : RulesConfig) (h : RateHistory) (now kbps : ℕ) : Prop where
  ge : min h.floorKbps cfg.maxKbps ≤ kbps
  le : kbps ≤ max h.floorKbps cfg.maxKbps
  first : h.rate = none → kbps = h.target cfg
  increase : ∀ last, h.rate = some last → last < kbps → Increases cfg h now last kbps

/-- The controller may do this. -/
def Permitted (cfg : RulesConfig) (past : List RulesEvent) : RulesEvent → Prop
  | .request now q _ => ∀ kbps, q.bitrate = some kbps →
    PermittedRate cfg (RateHistory.of cfg past) now kbps
  | _ => True

/-! ### Runs -/

/-- waybeam, and the events so far. -/
structure RulesLog (σ : Type*) where
  ctx : σ
  events : List RulesEvent

/-- The reading of the link, in a pass that asks for it. -/
def RulesState.linkRead (cfg : RulesConfig) (s : RulesState) (inp : RulesInput) : Option ℕ :=
  if s.haveApplied ∧ inp.wake = s.lastSeenWake ∧
      inp.now - s.lastMcsPollMs < cfg.pollIntervalMs then none
  else inp.throughput

/-- The pass finds the ring backlogged. -/
def RulesState.seesBacklog (cfg : RulesConfig) (s : RulesState) (inp : RulesInput) : Bool :=
  inp.ring.any fun v => s.haveApplied ∧ ringBacklogMinIntervalMs ≤ inp.now - s.lastApplyMs ∧
    cfg.ringBacklogHighSlots ≤ v.lowWater inp.now

section Runs

variable {σ : Type*} (send : σ → LiveSet → ℤ × σ)

/-- The send function, with a record of the request. -/
def sendLogged (now : ℕ) (x : RulesLog σ) (q : LiveSet) : ℤ × RulesLog σ :=
  ((send x.ctx q).1, ⟨(send x.ctx q).2, x.events ++ [.request now q (send x.ctx q).1]⟩)

end Runs

/-! ### The invariant -/

/-- The variables that the rate depends on, with what is known of the link. -/
structure RampView where
  rate : Option ℕ
  cutMs : ℕ
  increaseMs : ℕ
  backlogMs : ℕ
  floorKbps : ℕ
  link : LinkHistory

def RulesState.rampView (l : LinkHistory) (s : RulesState) : RampView where
  rate := if s.haveApplied then some s.lastAppliedKbps else none
  cutMs := s.lastCutMs
  increaseMs := s.lastIncreaseMs
  backlogMs := s.lastBacklogMs
  floorKbps := s.floorKbps
  link := l

/-- The variables hold what is needed of the history. -/
structure RampAgrees (cfg : RulesConfig) (v : RampView) (h : RateHistory) : Prop where
  rate : h.rate = v.rate
  floorKbps : h.floorKbps = v.floorKbps
  link : h.link = v.link
  cut : ∀ t ∈ h.cutAt, t ≤ v.cutMs
  raised : ∀ t ∈ h.raisedAt, t ≤ v.increaseMs
  backlog : ∀ t ∈ h.backlogAt, t ≤ v.backlogMs
  rate_ge : ∀ kbps ∈ v.rate, min v.floorKbps cfg.maxKbps ≤ kbps
  rate_le : ∀ kbps ∈ v.rate, kbps ≤ max v.floorKbps cfg.maxKbps

/-- The events were permitted, and the variables hold what is needed of them. -/
structure Ramps (cfg : RulesConfig) (v : RampView) (events : List RulesEvent) : Prop where
  permitted : Always (Permitted cfg) events
  agrees : RampAgrees cfg v (RateHistory.of cfg events)

theorem Ramps.next {cfg : RulesConfig} {v v' : RampView} {events : List RulesEvent} {e : RulesEvent}
    (h : Ramps cfg v events) (hpermitted : Permitted cfg events e)
    (hagrees : RampAgrees cfg v' ((RateHistory.of cfg events).after cfg e)) :
    Ramps cfg v' (events ++ [e]) where
  permitted := h.permitted.concat hpermitted
  agrees := by rwa [RateHistory.of_concat]

section Answers

variable {cfg : RulesConfig} {v : RampView} {h : RateHistory} {now kbps : ℕ} {status : ℤ}

/-- A rate that is accepted and lower. -/
theorem RampAgrees.lower (hagrees : RampAgrees cfg v h) {last : ℕ} (hlast : v.rate = some last)
    (hlt : kbps < last) (hge : min v.floorKbps cfg.maxKbps ≤ kbps) :
    RampAgrees cfg { v with rate := some kbps, cutMs := now } (h.accept now kbps) := by
  have haccept : h.accept now kbps = { h with rate := some kbps, cutAt := some now } := by
    rw [RateHistory.accept, hagrees.rate, hlast]
    exact if_pos hlt
  have hle := hagrees.rate_le last hlast
  rw [haccept]
  exact {
    hagrees with
    rate := rfl
    cut := fun t ht => (Option.some.inj ht).ge
    rate_ge := fun k hk => Option.some.inj hk ▸ hge
    rate_le := fun k hk => Option.some.inj hk ▸ hlt.le.trans hle }

/-- A rate that is accepted, and the first or a higher one. -/
theorem RampAgrees.raise (hagrees : RampAgrees cfg v h) (now : ℕ)
    (hlast : ∀ last, v.rate = some last → last < kbps) (hge : min v.floorKbps cfg.maxKbps ≤ kbps)
    (hle : kbps ≤ max v.floorKbps cfg.maxKbps) :
    RampAgrees cfg { v with rate := some kbps, increaseMs := now } (h.accept now kbps) := by
  have haccept : h.accept now kbps = { h with rate := some kbps, raisedAt := some now } := by
    rw [RateHistory.accept, hagrees.rate]
    cases hrate : v.rate with
    | none => rfl
    | some last =>
      have hlt := hlast last hrate
      dsimp only
      rw [if_neg (by omega), if_pos hlt]
  rw [haccept]
  exact {
    hagrees with
    rate := rfl
    raised := fun t ht => (Option.some.inj ht).ge
    rate_ge := fun k hk => Option.some.inj hk ▸ hge
    rate_le := fun k hk => Option.some.inj hk ▸ hle }

/-- A refused cut, from which the floor may be learned. -/
theorem RampAgrees.refuse (hagrees : RampAgrees cfg v h) {last : ℕ} (hlast : v.rate = some last)
    (hlt : kbps < last) (status : ℤ) :
    RampAgrees cfg { v with floorKbps := learnFloor v.floorKbps status kbps }
      (h.refuse kbps status) := by
  obtain ⟨hfloor, hfloor'⟩ := learnFloor_bounds v.floorKbps status (le_refl kbps)
  have hrefuse : h.refuse kbps status =
      { h with floorKbps := learnFloor v.floorKbps status kbps } := by
    rw [RateHistory.refuse, hagrees.rate, hlast, hagrees.floorKbps]
    exact if_pos (by simpa using hlt)
  have hge := hagrees.rate_ge last hlast
  have hle := hagrees.rate_le last hlast
  rw [hrefuse]
  exact {
    hagrees with
    floorKbps := rfl
    rate_ge := fun k hk => by
      obtain rfl := Option.some.inj (hlast.symm.trans hk)
      dsimp only
      split_ifs at hfloor' <;> omega
    rate_le := fun k hk => by
      obtain rfl := Option.some.inj (hlast.symm.trans hk)
      dsimp only
      omega }

/-- A first rate or a higher one that is not accepted teaches nothing. -/
theorem RampAgrees.notRaised (hagrees : RampAgrees cfg v h)
    (hlast : ∀ last, v.rate = some last → last < kbps) (status : ℤ) :
    RampAgrees cfg v (h.refuse kbps status) := by
  have hnone : h.rate.any (kbps < ·) = false := by
    rw [hagrees.rate, Option.any_eq_false]
    intro last hrate
    have hlt := hlast last hrate
    exact decide_eq_false (by omega)
  rw [RateHistory.refuse, hnone]
  exact hagrees

/-- A request without a rate. -/
theorem Ramps.other {events : List RulesEvent} (hramps : Ramps cfg v events) {q : LiveSet}
    (hq : q.bitrate = none) : Ramps cfg v (events ++ [.request now q status]) := by
  refine hramps.next (fun kbps hkbps => ?_) ?_
  · rw [hq] at hkbps
    cases hkbps
  · rw [RateHistory.after, hq]
    exact hramps.agrees

end Answers

/-! ### Cuts -/

/-- The variables after a cut. -/
def RampView.afterCut {σ : Type*} (v : RampView) (now : ℕ) (r : CutResult σ) : RampView :=
  if isSuccess r.status then { v with rate := some r.kbps, cutMs := now, floorKbps := r.floorKbps }
  else { v with floorKbps := r.floorKbps }

/-- The 32 bits of a rate are enough to learn from. -/
theorem learnFloor_mod (floorKbps : ℕ) (status : ℤ) (kbps : ℕ) :
    learnFloor floorKbps status (kbps % 2 ^ 32) = learnFloor floorKbps status kbps := by
  rw [learnFloor, learnFloor, Nat.mod_add_mod]

theorem learnFloor_of_ne {status : ℤ} (h : status ≠ 409) (floorKbps kbps : ℕ) :
    learnFloor floorKbps status kbps = floorKbps :=
  if_neg fun hlearn => h hlearn.1

section Requests

variable {σ : Type*} {send : σ → LiveSet → ℤ × σ} {cfg : RulesConfig} {v : RampView} {now : ℕ}

theorem permittedRate_of_lt {h : RateHistory} (hagrees : RampAgrees cfg v h) {kbps last : ℕ}
    (hlast : v.rate = some last) (hlt : kbps < last) (hge : min v.floorKbps cfg.maxKbps ≤ kbps) :
    PermittedRate cfg h now kbps where
  ge := hagrees.floorKbps ▸ hge
  le := hagrees.floorKbps ▸ hlt.le.trans (hagrees.rate_le last hlast)
  first hnone := by
    rw [hagrees.rate, hlast] at hnone
    cases hnone
  increase last' hlast' hlt' := by
    rw [hagrees.rate, hlast] at hlast'
    obtain rfl := Option.some.inj hlast'
    exact absurd hlt' (by omega)

/-- A request to cut is permitted. -/
theorem Ramps.permitted_cut {events : List RulesEvent} (h : Ramps cfg v events) {q : LiveSet}
    {kbps last : ℕ} (hq : q.bitrate = some kbps) (hlast : v.rate = some last) (hlt : kbps < last)
    (hge : min v.floorKbps cfg.maxKbps ≤ kbps) (status : ℤ) :
    Permitted cfg events (.request now q status) :=
  fun kbps' hkbps' => by
    rw [hq] at hkbps'
    obtain rfl := Option.some.inj hkbps'
    exact permittedRate_of_lt h.agrees hlast hlt hge

/-- An accepted cut. -/
theorem Ramps.cut_accepted {events : List RulesEvent} (h : Ramps cfg v events) {q : LiveSet}
    {kbps last : ℕ} {status : ℤ} (hq : q.bitrate = some kbps) (hlast : v.rate = some last)
    (hlt : kbps < last) (hge : min v.floorKbps cfg.maxKbps ≤ kbps)
    (hok : isSuccess status = true) :
    Ramps cfg { v with rate := some kbps, cutMs := now }
      (events ++ [.request now q status]) := by
  refine h.next (h.permitted_cut hq hlast hlt hge _) ?_
  rw [RateHistory.after_accepted hq hok]
  exact h.agrees.lower hlast hlt hge

/-- A cut that is not accepted, from which the floor may be learned. -/
theorem Ramps.cut_refused {events : List RulesEvent} (h : Ramps cfg v events) (now : ℕ)
    {q : LiveSet} {kbps last : ℕ} {status : ℤ} (hq : q.bitrate = some kbps)
    (hlast : v.rate = some last) (hlt : kbps < last) (hge : min v.floorKbps cfg.maxKbps ≤ kbps)
    (hok : isSuccess status = false) :
    Ramps cfg { v with floorKbps := learnFloor v.floorKbps status kbps }
      (events ++ [.request now q status]) := by
  refine h.next (h.permitted_cut hq hlast hlt hge _) ?_
  rw [RateHistory.after_refused hq hok]
  exact h.agrees.refuse hlast hlt status

theorem Ramps.cutLoop {x : RulesLog σ} (h : Ramps cfg v x.events) {last kbps : ℕ}
    (hlast : v.rate = some last) (hlt : kbps < last) (hge : min v.floorKbps cfg.maxKbps ≤ kbps)
    {status : ℤ} (hstatus : isSuccess status = false) (attempts : ℕ) :
    Ramps cfg
      (v.afterCut now (cutLoop (sendLogged send now) last 1 attempts status kbps v.floorKbps x))
      (cutLoop (sendLogged send now) last 1 attempts status kbps v.floorKbps x).ctx.events := by
  induction attempts generalizing v x kbps status with
  | zero =>
    rw [Ar8030.cutLoop, RampView.afterCut]
    dsimp only
    rw [if_neg (by simp [hstatus])]
    exact h
  | succ attempts ih =>
    have hrefused (hok : isSuccess (sendLogged send now x (setBitrate kbps)).1 = false) :=
      @Ramps.cut_refused cfg v x.events h now (setBitrate kbps) kbps last _ rfl hlast hlt hge hok
    have hnot (hother : ¬ (sendLogged send now x (setBitrate kbps)).1 ≠ 409) :
        isSuccess (sendLogged send now x (setBitrate kbps)).1 = false := by
      rw [not_not.mp hother]
      decide
    rw [Ar8030.cutLoop, Nat.mul_one, learnFloor_mod]
    dsimp only
    split_ifs with hother hnear
    · -- accepted, or failed for another reason
      rw [RampView.afterCut]
      dsimp only
      split_ifs with hok
      · exact h.cut_accepted rfl hlast hlt hge hok
      · have hkept := hrefused (eq_false_of_ne_true hok)
        rw [learnFloor_of_ne hother] at hkept
        exact hkept
    · rw [RampView.afterCut]
      dsimp only
      rw [if_neg (by simp [hnot hother])]
      exact hrefused (hnot hother)
    · have hok := hnot hother
      -- what is learned here is not above the next rate
      have hlearn := (@learnFloor_bounds v.floorKbps
        (sendLogged send now x (setBitrate kbps)).1 kbps kbps le_rfl).2
      rw [if_pos (not_not.mp hother)] at hlearn
      have hlt' : kbps + (last - kbps) / 2 < last := by omega
      have hcut := ih (x := (sendLogged send now x (setBitrate kbps)).2) (hrefused hok) hlast hlt'
        (by dsimp only; omega) hok
      exact hcut

theorem Ramps.applyCut {x : RulesLog σ} (h : Ramps cfg v x.events) {last kbps : ℕ}
    (hlast : v.rate = some last) (hlt : kbps < last) (hge : min v.floorKbps cfg.maxKbps ≤ kbps) :
    Ramps cfg (v.afterCut now (applyCut (sendLogged send now) kbps last v.floorKbps 1 x))
      (applyCut (sendLogged send now) kbps last v.floorKbps 1 x).ctx.events :=
  h.cutLoop hlast hlt hge (by decide) _

/-! ### Passes -/

/-- The same, for what a part of a pass comes to. -/
def RampsAt (cfg : RulesConfig) (l : LinkHistory) (r : RulesState × RulesLog σ) : Prop :=
  Ramps cfg (r.1.rampView l) r.2.events

variable {s : RulesState} {x : RulesLog σ} {l : LinkHistory}

theorem min_le_clampU32 (n floorKbps maxKbps : ℕ) :
    min floorKbps maxKbps ≤ clampU32 n floorKbps maxKbps := by
  rw [clampU32]
  split_ifs <;> omega

theorem clampU32_le (n lo hi : ℕ) : clampU32 n lo hi ≤ max lo hi := by
  rw [clampU32]
  split_ifs <;> omega

theorem rampView_rate (happlied : s.haveApplied = true) :
    (s.rampView l).rate = some s.lastAppliedKbps :=
  if_pos happlied

theorem rampView_abortRoi {send : σ → LiveSet → ℤ × σ} {ctx : σ} :
    (s.abortRoi send now ctx).1.rampView l = s.rampView l := by
  rw [RulesState.abortRoi]
  dsimp only
  split_ifs <;> rfl

theorem rampView_afterCut (happlied : s.haveApplied = true) (r : CutResult σ) :
    (s.afterCut now r.kbps r.floorKbps r.status).rampView l = (s.rampView l).afterCut now r := by
  rw [RulesState.afterCut, RampView.afterCut]
  split_ifs
  · rw [RulesState.rampView]
    dsimp only
    rw [if_pos happlied]
    rfl
  · rfl

theorem rampView_afterLinkCut (happlied : s.haveApplied = true) (r : CutResult σ) :
    (s.afterLinkCut now r.kbps r.floorKbps r.status).rampView l =
      (s.rampView l).afterCut now r := by
  rw [← rampView_afterCut happlied, RulesState.afterLinkCut, RulesState.afterCut]
  split_ifs
  · rw [RulesState.rampView, RulesState.rampView]
    dsimp only
    rw [if_pos happlied, if_pos rfl]
  · rfl

theorem rampView_afterUrgent_other {target : ℕ} {roi : Bool} {status : ℤ} :
    (s.afterUrgent cfg now target false roi status).rampView l = s.rampView l := by
  simp only [RulesState.afterUrgent, Bool.false_eq_true, if_false]
  split_ifs <;> rfl

theorem rampView_afterUrgent_cut {target last : ℕ} {roi : Bool} {status : ℤ}
    (hlast : (s.rampView l).rate = some last) :
    (s.afterUrgent cfg now target true roi status).rampView l =
      if isSuccess status then { s.rampView l with rate := some target, cutMs := now }
      else { s.rampView l with floorKbps := learnFloor s.floorKbps status target } := by
  have happlied : s.haveApplied = true := by
    by_contra hnot
    simp [RulesState.rampView, hnot] at hlast
  simp only [RulesState.afterUrgent, if_true]
  split_ifs <;> simp [RulesState.rampView, happlied]

theorem RampsAt.abortRoi (h : RampsAt cfg l (s, x)) (send : σ → LiveSet → ℤ × σ) (now : ℕ) :
    RampsAt cfg l (s.abortRoi (sendLogged send now) now x) ∧
      ((s.abortRoi (sendLogged send now) now x).1.rampView l) = s.rampView l := by
  rw [RampsAt, rampView_abortRoi]
  refine ⟨?_, rfl⟩
  rw [RulesState.abortRoi]
  dsimp only
  split_ifs
  · exact Ramps.other h rfl
  · exact Ramps.other h rfl
  · exact h

/-- The urgent request. -/
theorem RampsAt.afterUrgent (h : RampsAt cfg l (s, x)) {target last : ℕ} {cut : Bool} (roi : Bool)
    (hlast : (s.rampView l).rate = some last)
    (hcut : cut = true → target < last ∧ min s.floorKbps cfg.maxKbps ≤ target) :
    RampsAt cfg l
      (s.afterUrgent cfg now target cut roi
        (sendLogged send now x (urgentRequest target cut roi)).1,
        (sendLogged send now x (urgentRequest target cut roi)).2) := by
  cases cut with
  | false =>
    rw [RampsAt, rampView_afterUrgent_other]
    exact Ramps.other h rfl
  | true =>
    obtain ⟨hlt, hge⟩ := hcut rfl
    rw [RampsAt, rampView_afterUrgent_cut hlast]
    split_ifs with hok
    · exact Ramps.cut_accepted h rfl hlast hlt hge hok
    · exact Ramps.cut_refused h _ rfl hlast hlt hge (eq_false_of_ne_true hok)

/-- The pass finds the ring backlogged. -/
theorem RampsAt.urgent (h : RampsAt cfg l (s, x)) (happlied : s.haveApplied = true) :
    RampsAt cfg l
      (s.urgent (sendLogged send now) cfg now ⟨x.ctx, x.events ++ [.backlog now]⟩) := by
  have hseen : RampsAt cfg l
      ({ s with lastBacklogMs := now, congestedUntilMs := now + congestedHoldMs },
        ⟨x.ctx, x.events ++ [.backlog now]⟩) :=
    Ramps.next h trivial
      { h.agrees with
        backlog := fun t ht => (Option.some.inj ht).ge }
  have hge := min_le_clampU32 (truncate (s.lastAppliedKbps * cfg.ringBackoff)) s.floorKbps
    cfg.maxKbps
  obtain ⟨habort, hsame⟩ := hseen.abortRoi send now
  have hrate := (congrArg RampView.rate hsame).trans (rampView_rate happlied)
  have hfloor := congrArg RampView.floorKbps hsame
  rw [RulesState.urgent]
  dsimp only
  generalize RulesState.abortRoi (sendLogged send now) _ now _ = r at habort hrate hfloor ⊢
  split_ifs
  · refine habort.afterUrgent _ hrate fun hcut =>
      ⟨?_, (congrArg (min · cfg.maxKbps) hfloor).trans_le hge⟩
    rw [RulesState.cutDue, decide_eq_true_eq] at hcut
    exact hcut.1
  · exact habort

theorem RampsAt.recoverRoi (h : RampsAt cfg l (s, x)) :
    RampsAt cfg l (s.recoverRoi (sendLogged send now) cfg now x) := by
  rw [RulesState.recoverRoi]
  dsimp only
  split_ifs
  · exact Ramps.other h rfl
  · exact Ramps.other h rfl
  · exact h

theorem RampsAt.checkRing (h : RampsAt cfg l (s, x)) (inp : RulesInput) :
    RampsAt cfg l (s.checkRing (sendLogged send inp.now) cfg inp
      (if s.seesBacklog cfg inp then ⟨x.ctx, x.events ++ [.backlog inp.now]⟩ else x)) := by
  rw [RulesState.checkRing, RulesState.seesBacklog]
  cases inp.ring with
  | none => exact h
  | some v =>
    dsimp only [Option.any_some]
    split_ifs with hdue hhigh hsees hsees hsees
    · exact h.urgent hdue.1
    · exact absurd (decide_eq_true ⟨hdue.1, hdue.2, hhigh⟩) hsees
    · exact absurd (of_decide_eq_true hsees).2.2 hhigh
    · exact h.recoverRoi
    · exact absurd ⟨(of_decide_eq_true hsees).1, (of_decide_eq_true hsees).2.1⟩ hdue
    · exact h

theorem RampsAt.fastCut (h : RampsAt cfg l (s, x)) (happlied : s.haveApplied = true) (factor : ℚ) :
    RampsAt cfg l (s.fastCut (sendLogged send now) cfg now factor x) := by
  rw [RulesState.fastCut]
  dsimp only
  split_ifs with hlt
  · rw [RampsAt, rampView_afterCut happlied]
    exact Ramps.applyCut h (rampView_rate happlied) hlt (min_le_clampU32 _ _ _)
  · exact h

theorem RampsAt.checkLdpc (h : RampsAt cfg l (s, x)) (inp : RulesInput) :
    RampsAt cfg l (s.checkLdpc (sendLogged send inp.now) cfg inp x) := by
  rw [RulesState.checkLdpc]
  dsimp only
  split_ifs with hdue
  · have hread : RampsAt cfg l ({ s with lastLdpcApplyMs := inp.now }, x) := h
    cases inp.ldpc with
    | none => exact h
    | some ratio =>
      dsimp only
      split_ifs
      · exact hread.fastCut hdue.2.1 _
      · exact hread.fastCut hdue.2.1 _
      · exact h
  · exact h

theorem RampsAt.checkRetx (h : RampsAt cfg l (s, x)) (inp : RulesInput) :
    RampsAt cfg l ((s.countRetx inp).checkRetx (sendLogged send inp.now) cfg inp x) := by
  have hcount : RampsAt cfg l (s.countRetx inp, x) := h
  rw [RulesState.checkRetx]
  dsimp only
  split_ifs with hdue
  · exact RampsAt.fastCut (s := { s.countRetx inp with
      lastSeenRetxTooMany := inp.retxTooManyNow, lastRetxEventApplyMs := inp.now }) hcount
      hdue.2.1 _
  · exact RampsAt.fastCut (s := { s.countRetx inp with
      lastSeenRetxTooMany := inp.retxTooManyNow, lastRetxEventApplyMs := inp.now }) hcount
      hdue.2.1 _
  · exact hcount

/-! ### The link -/

/-- What the link's part of a pass goes by, besides the rate. -/
structure RulesLinkView where
  haveApplied : Bool
  lastSeenWake : ℕ
  lastMcsPollMs : ℕ
  history : LinkHistory

def RulesState.linkView (s : RulesState) : RulesLinkView where
  haveApplied := s.haveApplied
  lastSeenWake := s.lastSeenWake
  lastMcsPollMs := s.lastMcsPollMs
  history := ⟨s.prevLinkKbps, s.lastLinkRiseMs, s.lastLinkSwingMs⟩

/-- What is known of the link after a pass. -/
def RulesState.linkAfter (cfg : RulesConfig) (s : RulesState) (inp : RulesInput) : LinkHistory :=
  match s.linkRead cfg inp with
  | some linkKbps => s.linkView.history.read cfg inp.now linkKbps
  | none => s.linkView.history

theorem linkView_seeLink (linkKbps : ℕ) :
    (s.seeLink cfg now linkKbps).linkView =
      { s.linkView with history := s.linkView.history.read cfg now linkKbps } := by
  rw [RulesState.seeLink]
  split_ifs with hrise hswing
  · have hread : s.linkView.history.read cfg now linkKbps =
        ⟨linkKbps, now, s.lastLinkSwingMs⟩ := if_pos hrise
    rw [hread]
    rfl
  · have hread : s.linkView.history.read cfg now linkKbps =
        ⟨linkKbps, s.lastLinkRiseMs, now⟩ := (if_neg hrise).trans (if_pos hswing)
    rw [hread]
    rfl
  · have hread : s.linkView.history.read cfg now linkKbps =
        ⟨linkKbps, s.lastLinkRiseMs, s.lastLinkSwingMs⟩ := (if_neg hrise).trans (if_neg hswing)
    rw [hread]
    rfl

theorem rampView_seeLink (linkKbps : ℕ) :
    (s.seeLink cfg now linkKbps).rampView l = s.rampView l := by
  rw [RulesState.seeLink]
  split_ifs <;> rfl

/-- The history of a link that was read does not change with the rate. -/
theorem history_followLink {send : σ → LiveSet → ℤ × σ} {ctx : σ} {target : ℕ} :
    (s.followLink send cfg now target ctx).1.linkView.history = s.linkView.history := by
  have hsend (kbps : ℕ) :
      (s.sendRate send now kbps ctx).1.linkView.history = s.linkView.history := by
    rw [RulesState.sendRate, RulesState.afterRate]
    dsimp only
    split_ifs <;> rfl
  rw [RulesState.followLink]
  split_ifs
  · exact hsend _
  · rfl
  · rfl
  · dsimp only
    rw [RulesState.afterLinkCut, RulesState.afterCut]
    split_ifs <;> rfl
  · split
    · rfl
    · exact hsend _

/-- The rate on its own, the first or a higher one. -/
theorem RampsAt.sendRate (h : RampsAt cfg l (s, x)) {kbps : ℕ}
    (hpermitted : PermittedRate cfg (RateHistory.of cfg x.events) now kbps)
    (hlast : ∀ last, (s.rampView l).rate = some last → last < kbps) :
    RampsAt cfg l (s.sendRate (sendLogged send now) now kbps x) := by
  have hmay : ∀ status, Permitted cfg x.events (.request now (setBitrate kbps) status) :=
    fun status kbps' hkbps' => by
      obtain rfl := Option.some.inj hkbps'
      exact hpermitted
  have hge := hpermitted.ge
  have hle := hpermitted.le
  rw [h.agrees.floorKbps] at hge hle
  rw [RampsAt, RulesState.sendRate]
  dsimp only
  rw [RulesState.afterRate]
  split_ifs with hok
  · refine Ramps.next h (hmay _) ?_
    have hraise := h.agrees.raise now hlast hge hle
    rwa [← RateHistory.after_accepted (q := setBitrate kbps) rfl hok] at hraise
  · have hnot : isSuccess (send x.ctx (setBitrate kbps)).1 = false := eq_false_of_ne_true hok
    refine Ramps.next h (hmay _) ?_
    rw [RateHistory.after_refused (q := setBitrate kbps) rfl hnot]
    exact h.agrees.notRaised hlast _

/-- What the controller goes by is what an observer knows. -/
theorem RampAgrees.link_eq {h : RateHistory} (hagrees : RampAgrees cfg (s.rampView l) h)
    (hl : l = s.linkView.history) (now : ℕ) :
    h.target cfg = s.linkTarget cfg s.prevLinkKbps ∧ h.unstable cfg now = s.unstable cfg now := by
  have hlink := hagrees.link.trans hl
  have hfloor : h.floorKbps = s.floorKbps := hagrees.floorKbps
  rw [RateHistory.target, RateHistory.unstable, hlink, hfloor]
  exact ⟨rfl, rfl⟩

/-- A step that is capped: a fraction or one more, or the jump after a fade. -/
theorem stepCap_le {step : ℚ} {target : ℕ} (unstable : Bool) :
    s.stepCap step unstable target ≤
        max (s.lastAppliedKbps + 1) (truncate (s.lastAppliedKbps * (1 + step))) ∨
      unstable = false ∧ s.lastAppliedKbps * recoveryJumpRatio ≤ target ∧
        s.stepCap step unstable target ≤ truncate (target * recoveryJumpFrac) := by
  have hone : (s.lastAppliedKbps + 1) % 2 ^ 32 ≤ s.lastAppliedKbps + 1 := Nat.mod_le _ _
  rw [RulesState.stepCap]
  split_ifs with hjump hsmall hsmall
  · exact .inl (hone.trans (le_max_left _ _))
  · rcases le_total (truncate (s.lastAppliedKbps * (1 + step)))
      (truncate (target * recoveryJumpFrac)) with hle | hle
    · rw [max_eq_right hle]
      exact .inr ⟨by simpa using hjump.1, hjump.2, le_rfl⟩
    · rw [max_eq_left hle]
      exact .inl (le_max_right _ _)
  · exact .inl (hone.trans (le_max_left _ _))
  · exact .inl (le_max_right _ _)

/-- The step in force. -/
def RulesState.rampStep (cfg : RulesConfig) (s : RulesState) (now : ℕ) : ℚ :=
  if s.unstable cfg now ∧ 0 < cfg.unstableRampStep then cfg.unstableRampStep else cfg.rampStep

/-- An increase has waited, is one, and is capped. -/
theorem increase_spec {target kbps : ℕ} (h : s.increase cfg now target = some kbps) :
    (cfg.minIntervalMs ≤ now - s.lastIncreaseMs ∧ cfg.rampSettleMs ≤ now - s.lastBacklogMs ∧
      cfg.rampSettleMs ≤ now - s.lastCutMs) ∧
    s.lastAppliedKbps < kbps ∧ kbps ≤ target ∧
    (0 < s.rampStep cfg now →
      kbps ≤ s.stepCap (s.rampStep cfg now) (s.unstable cfg now) target) := by
  rw [RulesState.increase, Option.ite_none_left_eq_some] at h
  obtain ⟨hfree, h⟩ := h
  dsimp only at h
  rw [Option.ite_none_left_eq_some, ← RulesState.rampStep] at h
  obtain ⟨hlt, heq⟩ := h
  obtain rfl := Option.some.inj heq
  refine ⟨by omega, Nat.lt_of_not_le hlt, ?_, fun hstep => ?_⟩
  · split_ifs <;> omega
  · rw [if_pos hstep]
    split_ifs <;> omega

/-- An increase is permitted. -/
theorem RampAgrees.permitted_increase {h : RateHistory}
    (hagrees : RampAgrees cfg (s.rampView l) h) (hl : l = s.linkView.history)
    (happlied : s.haveApplied = true) {kbps : ℕ}
    (hkbps : s.increase cfg now (s.linkTarget cfg s.prevLinkKbps) = some kbps) :
    PermittedRate cfg h now kbps := by
  obtain ⟨⟨hraised, hbacklog, hcut⟩, hlt, hle, hcap⟩ := increase_spec hkbps
  obtain ⟨htarget, hunstable⟩ := hagrees.link_eq hl now
  have hstep : h.step cfg now = s.rampStep cfg now := by
    rw [RateHistory.step, RulesState.rampStep, hunstable]
  have hlast := hagrees.rate_ge _ (rampView_rate happlied)
  rw [← hagrees.floorKbps] at hlast
  refine ⟨hlast.trans hlt.le, ?_, fun hnone => ?_, fun last hrate _ => ?_⟩
  · rw [← htarget] at hle
    exact hle.trans (clampU32_le _ _ _)
  · rw [hagrees.rate, rampView_rate happlied] at hnone
    cases hnone
  rw [hagrees.rate, rampView_rate happlied] at hrate
  obtain rfl := Option.some.inj hrate
  refine ⟨fun t ht => ?_, fun t ht => ?_, fun t ht => ?_, htarget ▸ hle, fun hpos => ?_⟩
  · have hlater : t ≤ s.lastCutMs := hagrees.cut t ht
    omega
  · have hlater : t ≤ s.lastBacklogMs := hagrees.backlog t ht
    omega
  · have hlater : t ≤ s.lastIncreaseMs := hagrees.raised t ht
    omega
  · rw [hstep] at hpos ⊢
    rw [hunstable, htarget]
    rcases stepCap_le (s.unstable cfg now) with hone | ⟨hstable, hjump, hfrac⟩
    · exact .inl ((hcap hpos).trans hone)
    · exact .inr ⟨hstable, hjump, (hcap hpos).trans hfrac⟩

theorem RampsAt.followLink (h : RampsAt cfg l (s, x)) (hl : l = s.linkView.history) :
    RampsAt cfg l
      (s.followLink (sendLogged send now) cfg now (s.linkTarget cfg s.prevLinkKbps) x) := by
  obtain ⟨htarget, -⟩ := h.agrees.link_eq hl now
  rw [RulesState.followLink]
  split_ifs with hfirst hsmall hlt hsoon
  · -- the first rate
    have hnone : (s.rampView l).rate = none := if_neg (by simp [hfirst])
    refine h.sendRate ?_ fun last hlast => ?_
    · rw [← htarget]
      refine ⟨min_le_clampU32 _ _ _, clampU32_le _ _ _, fun _ => rfl, fun last hlast => ?_⟩
      rw [h.agrees.rate, hnone] at hlast
      cases hlast
    · rw [hnone] at hlast
      cases hlast
  · exact h
  · exact h
  · have happlied : s.haveApplied = true := eq_true_of_ne_false hfirst
    dsimp only
    rw [RampsAt, rampView_afterLinkCut happlied]
    exact Ramps.applyCut h (rampView_rate happlied) hlt (min_le_clampU32 _ _ _)
  · have happlied : s.haveApplied = true := eq_true_of_ne_false hfirst
    cases hkbps : s.increase cfg now (s.linkTarget cfg s.prevLinkKbps) with
    | none => exact h
    | some kbps =>
      refine h.sendRate (h.agrees.permitted_increase hl happlied hkbps) fun last hlast => ?_
      rw [rampView_rate happlied] at hlast
      exact Option.some.inj hlast ▸ (increase_spec hkbps).2.1

/-- The link's part of a pass, in which an observer has seen the reading. -/
theorem RampsAt.checkLink {inp : RulesInput} (h : RampsAt cfg (s.linkAfter cfg inp) (s, x)) :
    RampsAt cfg (s.checkLink (sendLogged send inp.now) cfg inp x).1.linkView.history
      (s.checkLink (sendLogged send inp.now) cfg inp x) := by
  rw [RulesState.linkAfter, RulesState.linkRead] at h
  rw [RulesState.checkLink]
  split_ifs at h ⊢ with hskip
  · exact h
  dsimp only
  cases hlink : inp.throughput with
  | none =>
    rw [hlink] at h
    exact h
  | some linkKbps =>
    rw [hlink] at h
    generalize hs : ({ s with
      lastSeenWake := inp.wake, lastMcsPollMs := inp.now } : RulesState) = s₁
    have hhistory : (s₁.seeLink cfg inp.now linkKbps).linkView.history =
        s.linkView.history.read cfg inp.now linkKbps := by
      rw [linkView_seeLink, ← hs]
      rfl
    have hprev : (s₁.seeLink cfg inp.now linkKbps).prevLinkKbps = linkKbps := by
      rw [RulesState.seeLink]
      split_ifs <;> rfl
    have hseen : RampsAt cfg (s.linkView.history.read cfg inp.now linkKbps)
        (s₁.seeLink cfg inp.now linkKbps, x) := by
      rw [RampsAt, rampView_seeLink, ← hs]
      exact h
    have hfollow := @RampsAt.followLink σ send cfg inp.now _ x _ hseen hhistory.symm
    rw [hprev] at hfollow
    dsimp only
    rw [history_followLink, hhistory]
    exact hfollow

end Requests

/-! ### Runs -/

section Runs

variable {σ : Type*} {cfg : RulesConfig}

end Runs

end Ar8030
