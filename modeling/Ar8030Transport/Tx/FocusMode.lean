import Mathlib.Tactic.SplitIfs
import Ar8030Transport.Library.Mealy
import Ar8030Transport.Library.Trace
import Ar8030Transport.Tx.PiControl

/-!
# When focus mode is switched

`pi_focus` runs once a pass and keeps three variables of its own: waybeam's state as last set,
since when the rate has been comfortable, and the time of the last request. Between two calls
the applied rate may become anything, and a restart of waybeam makes its state unknown.

`focusTick` is one call of `pi_focus` under such a change. Its runs cover those of `run_pi`:
`piTick_focus` says that a pass moves the three variables as a `focusTick` does, and
`piTick_focusRequests` that it makes the same requests for focus mode.
-/

namespace Ar8030

open Trace

/-- What one pass brings for `pi_focus`. -/
structure FocusTick where
  now : ℕ
  appliedKbps : ℕ
  /-- waybeam has restarted. -/
  restarted : Bool
  /-- The answer to a request, should there be one. -/
  status : ℤ
  deriving DecidableEq, Repr

/-- What one pass came to. -/
structure FocusEvent where
  tick : FocusTick
  /-- `focus` as `pi_focus` finds it. -/
  before : Option Bool
  /-- The requests made. -/
  asked : List LiveSet
  /-- `focus` afterwards. -/
  after : Option Bool
  deriving DecidableEq, Repr

/-- The state `pi_focus` is called in. -/
def FocusTick.enter (t : FocusTick) (s : PiState) : PiState :=
  { s with appliedKbps := t.appliedKbps, focus := if t.restarted then none else s.focus }

/-- One call of `pi_focus`, with the requests it makes as context. -/
def focusTick (cfg : PiConfig) (s : PiState) (t : FocusTick) : PiState × List FocusEvent :=
  let r := (t.enter s).piFocus (fun asked q => (t.status, asked ++ [q])) cfg t.now []
  (r.1, [⟨t, (t.enter s).focus, r.2, r.1.focus⟩])

/-- The calls of a run. -/
def focusLog (cfg : PiConfig) (s : PiState) (ticks : List FocusTick) : List FocusEvent :=
  (Mealy.run (focusTick cfg) s ticks).2

/-! ### What one call does -/

/-- From a pass at the time `since` up to the end of the log, the rate has been comfortable at
every pass that knew it. -/
def ComfortableSince (cfg : PiConfig) (log : List FocusEvent) (since : ℕ) : Prop :=
  ∃ pre x mid, log = pre ++ x :: mid ∧ x.tick.now = since ∧ x.tick.appliedKbps ≠ 0 ∧
    ∀ y ∈ x :: mid, y.tick.appliedKbps ≠ 0 → cfg.roiMaxKbps ≤ y.tick.appliedKbps

/-- What is said of the pass `e` after the passes `before`. -/
structure FocusDiscipline (cfg : PiConfig) (before : List FocusEvent) (e : FocusEvent) : Prop where
  /-- A pass makes one request at most. -/
  asked : e.asked = [] ∨ ∃ want, e.asked = [setRoi want]
  off : setRoi false ∈ e.asked → cfg.roiMaxKbps ≤ e.tick.appliedKbps ∧
    (e.before = some true → ∃ since, since + cfg.roiRecoveryMs ≤ e.tick.now ∧
      ComfortableSince cfg (before ++ [e]) since)
  on : setRoi true ∈ e.asked →
    0 < e.tick.appliedKbps ∧ e.tick.appliedKbps < cfg.roiMaxKbps
  apart : e.asked ≠ [] → ∀ x ∈ before, x.asked ≠ [] → x.tick.now + piFocusRetryMs ≤ e.tick.now
  /-- The state believed in front of a pass is the one behind the last, or unknown after a
  restart. -/
  carried : e.before = if e.tick.restarted then none else before.getLast?.bind FocusEvent.after
  changed : e.after ≠ e.before → isSuccess e.tick.status = true ∧
    ∃ want, e.asked = [setRoi want] ∧ e.after = some want

/-- The variables of `pi_focus` after the passes of the log. -/
structure FocusInv (cfg : PiConfig) (log : List FocusEvent) (s : PiState) : Prop where
  focus : s.focus = log.getLast?.bind FocusEvent.after
  since : s.focusAboveSinceMs ≠ 0 → ComfortableSince cfg log s.focusAboveSinceMs
  tried : ∀ x ∈ log, x.asked ≠ [] → x.tick.now ≤ s.focusTryMs

/-! ### One call -/

section Step

variable {cfg : PiConfig} {log : List FocusEvent} {s : PiState} {t : FocusTick} {e : FocusEvent}

theorem ComfortableSince.concat {since : ℕ} (h : ComfortableSince cfg log since)
    (he : e.tick.appliedKbps ≠ 0 → cfg.roiMaxKbps ≤ e.tick.appliedKbps) :
    ComfortableSince cfg (log ++ [e]) since := by
  obtain ⟨pre, x, mid, rfl, hx, hx0, hmid⟩ := h
  refine ⟨pre, x, mid ++ [e], by simp, hx, hx0, fun y hy => ?_⟩
  rw [← List.cons_append] at hy
  obtain hy | hy := List.mem_append.mp hy
  · exact hmid y hy
  · exact List.mem_singleton.mp hy ▸ he

theorem ComfortableSince.start (h0 : e.tick.appliedKbps ≠ 0)
    (he : cfg.roiMaxKbps ≤ e.tick.appliedKbps) :
    ComfortableSince cfg (log ++ [e]) e.tick.now := by
  refine ⟨log, e, [], rfl, rfl, h0, fun y hy _ => ?_⟩
  rw [List.mem_singleton.mp hy]
  exact he

/-- The time kept by a pass that knows the rate is the start of a comfortable stretch. -/
theorem FocusInv.aboveSince (h : FocusInv cfg log s) (happ : t.appliedKbps ≠ 0) (he : e.tick = t)
    (hne : (t.enter s).aboveSince cfg t.now ≠ 0) :
    ComfortableSince cfg (log ++ [e]) ((t.enter s).aboveSince cfg t.now) := by
  subst he
  have hge : ¬ (e.tick.enter s).appliedKbps < cfg.roiMaxKbps := fun hlt => hne (if_pos hlt)
  rw [PiState.aboveSince, if_neg hge]
  by_cases hold : (e.tick.enter s).focusAboveSinceMs = 0
  · rw [if_pos hold]
    exact ComfortableSince.start happ (Nat.le_of_not_lt hge)
  · rw [if_neg hold]
    exact (h.since hold).concat fun _ => Nat.le_of_not_lt hge

end Step

section Focus

variable {σ : Type*} {send : σ → LiveSet → ℤ × σ} {cfg : PiConfig} {s : PiState} {now : ℕ}
  {ctx : σ}

theorem piFocus_of_idle (h : cfg.roiMaxKbps = 0 ∨ s.appliedKbps = 0) :
    s.piFocus send cfg now ctx = (s, ctx) := by
  rw [PiState.piFocus, if_pos h]

theorem piFocus_of_held (h : ¬ (cfg.roiMaxKbps = 0 ∨ s.appliedKbps = 0))
    (hheld : s.focus = some (s.wantFocus cfg now) ∨ now - s.focusTryMs < piFocusRetryMs) :
    s.piFocus send cfg now ctx = ({ s with focusAboveSinceMs := s.aboveSince cfg now }, ctx) := by
  rw [PiState.piFocus, if_neg h]
  exact if_pos hheld

theorem piFocus_of_asked (h : ¬ (cfg.roiMaxKbps = 0 ∨ s.appliedKbps = 0))
    (hask : ¬ (s.focus = some (s.wantFocus cfg now) ∨ now - s.focusTryMs < piFocusRetryMs)) :
    s.piFocus send cfg now ctx =
      (({ s with focusAboveSinceMs := s.aboveSince cfg now } : PiState).afterFocus now
        (s.wantFocus cfg now) (send ctx (setRoi (s.wantFocus cfg now))).1,
        (send ctx (setRoi (s.wantFocus cfg now))).2) := by
  rw [PiState.piFocus, if_neg h]
  exact if_neg hask

theorem afterFocus_vars (want : Bool) (status : ℤ) :
    (s.afterFocus now want status).focusTryMs = now ∧
      (s.afterFocus now want status).focusAboveSinceMs = s.focusAboveSinceMs ∧
      (s.afterFocus now want status).focus =
        if isSuccess status then some want else s.focus := by
  rw [PiState.afterFocus]
  split_ifs <;> exact ⟨rfl, rfl, rfl⟩

/-- Focus mode is wanted on at a low rate, and kept on until the rate has recovered. -/
theorem wantFocus_eq_true_iff : s.wantFocus cfg now = true ↔
    s.appliedKbps < cfg.roiMaxKbps ∨
      s.focus = some true ∧ now - s.aboveSince cfg now < cfg.roiRecoveryMs := by
  rw [PiState.wantFocus, Bool.or_eq_true, decide_eq_true_iff, Bool.and_eq_true, beq_iff_eq,
    decide_eq_true_iff]

end Focus

section Step

variable {cfg : PiConfig} {log : List FocusEvent} {s : PiState} {t : FocusTick}

/-- A pass without a request is disciplined. -/
theorem FocusDiscipline.quiet {f : Option Bool}
    (hcarried : f = if t.restarted then none else log.getLast?.bind FocusEvent.after) :
    FocusDiscipline cfg log ⟨t, f, [], f⟩ where
  asked := .inl rfl
  off := nofun
  on := nofun
  apart := fun h => absurd rfl h
  carried := hcarried
  changed := fun h => absurd rfl h

theorem FocusInv.concat (h : FocusInv cfg log s) {e : FocusEvent} {s' : PiState}
    (hfocus : s'.focus = e.after)
    (hsince : s'.focusAboveSinceMs ≠ 0 → ComfortableSince cfg (log ++ [e]) s'.focusAboveSinceMs)
    (htry : s.focusTryMs ≤ s'.focusTryMs) (hasked : e.asked ≠ [] → e.tick.now ≤ s'.focusTryMs) :
    FocusInv cfg (log ++ [e]) s' where
  focus := by simp [hfocus]
  since := hsince
  tried := by
    intro x hx hxa
    obtain hx | hx := List.mem_append.mp hx
    · exact (h.tried x hx hxa).trans htry
    · rw [List.mem_singleton.mp hx] at hxa ⊢
      exact hasked hxa

/-- Since when the rate has been comfortable lies in the past. -/
theorem ComfortableSince.le {since now : ℕ} (h : ComfortableSince cfg log since)
    (hnow : ∀ x ∈ log, x.tick.now ≤ now) : since ≤ now := by
  obtain ⟨pre, x, mid, rfl, rfl, -⟩ := h
  exact hnow x (List.mem_append_right _ List.mem_cons_self)

/-- When focus mode is not wanted the rate is comfortable, and if it was on, it has been long
enough. -/
theorem FocusInv.comfortable (h : FocusInv cfg log s) (hpos : 0 < t.now)
    (hsorted : ∀ x ∈ log, x.tick.now ≤ t.now) (happ : t.appliedKbps ≠ 0) {e : FocusEvent}
    (he : e.tick = t) (hwant : ¬ (t.enter s).wantFocus cfg t.now = true) :
    cfg.roiMaxKbps ≤ t.appliedKbps ∧ ((t.enter s).focus = some true →
      ∃ since, since + cfg.roiRecoveryMs ≤ t.now ∧ ComfortableSince cfg (log ++ [e]) since) := by
  rw [wantFocus_eq_true_iff, not_or] at hwant
  obtain ⟨hge, hlong⟩ := hwant
  refine ⟨Nat.le_of_not_lt hge, fun hon => ?_⟩
  have hne : (t.enter s).aboveSince cfg t.now ≠ 0 := by
    rw [PiState.aboveSince, if_neg hge]
    split_ifs with hold
    · exact hpos.ne'
    · exact hold
  have hcomf := h.aboveSince happ he hne
  have hle : (t.enter s).aboveSince cfg t.now ≤ t.now := hcomf.le fun x hx =>
    (List.mem_append.mp hx).elim (hsorted x) fun hx => by rw [List.mem_singleton.mp hx, he]
  have hrecovered : ¬ t.now - (t.enter s).aboveSince cfg t.now < cfg.roiRecoveryMs :=
    fun hlt => hlong ⟨hon, hlt⟩
  exact ⟨_, by omega, hcomf⟩

/-- A pass with a request is disciplined. -/
theorem FocusInv.discipline (h : FocusInv cfg log s) (hpos : 0 < t.now)
    (hsorted : ∀ x ∈ log, x.tick.now ≤ t.now) {after : Option Bool}
    (happ : t.appliedKbps ≠ 0)
    (hask : ¬ ((t.enter s).focus = some ((t.enter s).wantFocus cfg t.now) ∨
      t.now - (t.enter s).focusTryMs < piFocusRetryMs))
    (hafter : after = if isSuccess t.status then some ((t.enter s).wantFocus cfg t.now)
      else (t.enter s).focus) :
    FocusDiscipline cfg log
      ⟨t, (t.enter s).focus, [setRoi ((t.enter s).wantFocus cfg t.now)], after⟩ := by
  obtain ⟨hnot, htry⟩ := not_or.mp hask
  generalize hwant : (t.enter s).wantFocus cfg t.now = want at hnot hafter ⊢
  refine ⟨.inr ⟨want, rfl⟩, fun hoff => ?_, fun hon => ?_, fun _ x hx hxa => ?_, ?_, fun hne => ?_⟩
  · obtain rfl : false = want :=
      Option.some.inj (congrArg LiveSet.roiEnabled (List.mem_singleton.mp hoff))
    refine h.comfortable hpos hsorted happ rfl ?_
    rw [hwant]
    exact Bool.false_ne_true
  · -- wanted, and not on: the rate is low
    obtain rfl : true = want :=
      Option.some.inj (congrArg LiveSet.roiEnabled (List.mem_singleton.mp hon))
    obtain hlow | ⟨hon, -⟩ := wantFocus_eq_true_iff.mp hwant
    · exact ⟨Nat.pos_of_ne_zero happ, hlow⟩
    · exact absurd hon hnot
  · have hx := h.tried x hx hxa
    have htry : ¬ t.now - s.focusTryMs < piFocusRetryMs := htry
    dsimp only
    unfold piFocusRetryMs at htry ⊢
    omega
  · rw [← h.focus]
    rfl
  · dsimp only at hne ⊢
    cases hok : isSuccess t.status with
    | true =>
      rw [hok, if_pos rfl] at hafter
      exact ⟨rfl, want, rfl, hafter⟩
    | false =>
      rw [hok, if_neg Bool.false_ne_true] at hafter
      exact absurd hafter hne

/-- **One pass** is disciplined and keeps the invariant. -/
theorem FocusInv.step (h : FocusInv cfg log s) (hpos : 0 < t.now)
    (hsorted : ∀ x ∈ log, x.tick.now ≤ t.now) :
    ∃ e, (focusTick cfg s t).2 = [e] ∧ e.tick = t ∧ FocusDiscipline cfg log e ∧
      FocusInv cfg (log ++ [e]) (focusTick cfg s t).1 := by
  have hcarried : (t.enter s).focus =
      if t.restarted then none else log.getLast?.bind FocusEvent.after := by
    rw [← h.focus]
    rfl
  rw [focusTick]
  by_cases hidle : cfg.roiMaxKbps = 0 ∨ t.appliedKbps = 0
  · rw [piFocus_of_idle hidle]
    refine ⟨_, rfl, rfl, .quiet hcarried, h.concat rfl (fun hne => ?_) le_rfl nofun⟩
    refine (h.since hne).concat fun hknown => ?_
    rw [hidle.resolve_right hknown]
    exact Nat.zero_le _
  have happ : t.appliedKbps ≠ 0 := (not_or.mp hidle).2
  by_cases hheld : (t.enter s).focus = some ((t.enter s).wantFocus cfg t.now) ∨
      t.now - (t.enter s).focusTryMs < piFocusRetryMs
  · rw [piFocus_of_held hidle hheld]
    exact ⟨_, rfl, rfl, .quiet hcarried, h.concat rfl (h.aboveSince happ rfl) le_rfl nofun⟩
  · rw [piFocus_of_asked hidle hheld]
    obtain ⟨htry, hsince, hfocus⟩ := @afterFocus_vars
      { t.enter s with focusAboveSinceMs := (t.enter s).aboveSince cfg t.now } t.now
      ((t.enter s).wantFocus cfg t.now) t.status
    refine ⟨_, rfl, rfl, h.discipline hpos hsorted happ hheld hfocus,
      h.concat rfl (fun hne => ?_) ?_ fun _ => htry.ge⟩
    · rw [hsince] at hne ⊢
      exact h.aboveSince happ rfl hne
    · have hlt : ¬ t.now - s.focusTryMs < piFocusRetryMs := (not_or.mp hheld).2
      rw [htry]
      unfold piFocusRetryMs at hlt
      omega

end Step

/-- **Focus mode is only switched off at a settled, comfortable rate**: over every run of
`pi_focus` with any applied rates, any answers and any restarts of waybeam in between. -/
theorem focusLog_disciplined (cfg : PiConfig) (start gen : ℕ) {ticks : List FocusTick}
    (hpos : ∀ t ∈ ticks, 0 < t.now) (hsorted : ticks.Pairwise fun t u => t.now ≤ u.now) :
    (focusLog cfg (.init cfg start gen) ticks).map FocusEvent.tick = ticks ∧
      Always (FocusDiscipline cfg) (focusLog cfg (.init cfg start gen) ticks) := by
  suffices hrun : (focusLog cfg (.init cfg start gen) ticks).map FocusEvent.tick = ticks ∧
      FocusInv cfg (focusLog cfg (.init cfg start gen) ticks)
        (Mealy.run (focusTick cfg) (.init cfg start gen) ticks).1 ∧
      Always (FocusDiscipline cfg) (focusLog cfg (.init cfg start gen) ticks) from
    ⟨hrun.1, hrun.2.2⟩
  revert hpos hsorted
  refine Mealy.run_induction (focusTick cfg) (motive := fun is s log => (∀ t ∈ is, 0 < t.now) →
    is.Pairwise (fun t u => t.now ≤ u.now) → log.map FocusEvent.tick = is ∧ FocusInv cfg log s ∧
      Always (FocusDiscipline cfg) log)
    (fun _ _ => ⟨rfl, ⟨rfl, fun h => absurd rfl h, nofun⟩, always_nil⟩)
    (fun is t s log ih hpos hsorted => ?_) ticks
  obtain ⟨hpast, -, hlast⟩ := List.pairwise_append.mp hsorted
  obtain ⟨hmap, hinv, halways⟩ := ih (fun u hu => hpos u (List.mem_append_left _ hu)) hpast
  have hnow : ∀ x ∈ log, x.tick.now ≤ t.now := fun x hx =>
    hlast x.tick (hmap ▸ List.mem_map_of_mem hx) t (List.mem_singleton_self t)
  obtain ⟨e, hout, htick, hdisc, hinv⟩ :=
    hinv.step (hpos t (List.mem_append_right _ (List.mem_singleton_self t))) hnow
  rw [hout]
  exact ⟨by rw [List.map_append, hmap, List.map_singleton, htick], hinv, halways.concat hdisc⟩

/-- A dip below 3000 kbps, and five seconds above it. -/
def dip : List FocusTick :=
  [⟨1000, 2000, false, 200⟩, ⟨2000, 4000, false, 200⟩, ⟨6999, 4000, false, 200⟩,
    ⟨7000, 4000, false, 200⟩]

/-- Focus mode below 3000 kbps. -/
def focusConfig : PiConfig := { PiConfig.shipped with roiMaxKbps := 3000 }

theorem focusLog_disciplined_dip :
    (focusLog focusConfig (.init focusConfig 0 0) dip).map FocusEvent.tick = dip ∧
      Always (FocusDiscipline focusConfig) (focusLog focusConfig (.init focusConfig 0 0) dip) :=
  focusLog_disciplined focusConfig 0 0 (by decide) (by decide)

example : (focusLog focusConfig (.init focusConfig 0 0) dip).map FocusEvent.asked =
    [[setRoi true], [], [], [setRoi false]] := by decide

/-! ### The passes of `run_pi` -/

/-- The three variables of `pi_focus`. -/
def PiState.focusVars (s : PiState) : Option Bool × ℕ × ℕ :=
  (s.focus, s.focusAboveSinceMs, s.focusTryMs)

section Pass

variable {σ : Type*} {send : σ → LiveSet → ℤ × σ} {cfg : PiConfig} {s : PiState} {ctx : σ}

theorem focusVars_seeGeneration (gen : ℕ) :
    (s.seeGeneration cfg gen).focusVars =
      (if gen ≠ s.ringGen then none else s.focus, s.focusAboveSinceMs, s.focusTryMs) := by
  rw [PiState.seeGeneration]
  split_ifs <;> rfl

theorem focusVars_startupDivisor (now : ℕ) (ctx : σ) :
    (s.startupDivisor send now ctx).1.focusVars = s.focusVars := by
  rw [PiState.startupDivisor]
  dsimp only [PiState.afterStartup]
  split_ifs <;> rfl

theorem focusVars_readCapacity (inp : PiInput) :
    (s.readCapacity cfg inp).focusVars = s.focusVars := by
  rw [PiState.readCapacity, apply_ite PiState.focusVars]
  exact ite_self _

theorem focusVars_begin (gen : ℕ) (inp : PiInput) :
    (s.begin send cfg gen inp ctx).1.focusVars =
      (if gen ≠ s.ringGen then none else s.focus, s.focusAboveSinceMs, s.focusTryMs) := by
  rw [PiState.begin]
  dsimp only
  rw [focusVars_readCapacity, focusVars_startupDivisor, focusVars_seeGeneration]

theorem focusVars_disturb (inp : PiInput) : (s.disturb cfg inp).1.focusVars = s.focusVars := by
  rw [PiState.disturb]
  simp only [apply_ite Prod.fst, apply_ite PiState.focusVars]
  simp only [PiState.focusVars, ite_self]

theorem focusVars_backstop (inp : PiInput) (why : Option Disturbance) :
    (s.backstop cfg inp why).1.focusVars = s.focusVars := by
  rw [PiState.backstop, apply_ite Prod.fst, apply_ite PiState.focusVars]
  exact ite_self _

theorem focusVars_observe (inp : PiInput) : (s.observe cfg inp).1.focusVars = s.focusVars :=
  (focusVars_backstop inp _).trans (focusVars_disturb inp)

theorem focusVars_sendTarget (now : ℕ) (dt : ℚ) (why : Option Disturbance) :
    (s.sendTarget send cfg now dt why ctx).1.focusVars = s.focusVars := by
  rw [PiState.sendTarget]
  split_ifs
  · rw [PiState.sendStage]
    dsimp only [PiState.afterStage]
    split_ifs <;> rfl
  · rfl
  · rw [PiState.sendRate]
    split_ifs <;> dsimp only [PiState.afterRate] <;> split_ifs <;> rfl

/-- What a pass brings for `pi_focus`; one that is over before `pi_focus` brings no rate. -/
def focusTickOf (send : σ → LiveSet → ℤ × σ) (cfg : PiConfig) (s : PiState) (gen : ℕ)
    (inp : PiInput) (ctx : σ) : FocusTick :=
  let r := s.begin send cfg gen inp ctx
  let o := (r.1.observe cfg inp).1
  { now := inp.now
    appliedKbps := if r.1.capKbps = 0 then 0 else o.appliedKbps
    restarted := gen ≠ s.ringGen
    status := (send r.2 (setRoi (o.wantFocus cfg inp.now))).1 }

theorem focusVars_eq_iff {s' : PiState} : s.focusVars = s'.focusVars ↔
    s.focus = s'.focus ∧ s.focusAboveSinceMs = s'.focusAboveSinceMs ∧
      s.focusTryMs = s'.focusTryMs := by
  rw [PiState.focusVars, PiState.focusVars, Prod.mk.injEq, Prod.mk.injEq]

/-- `pi_focus` reads its three variables and the applied rate. -/
theorem wantFocus_eq {s' : PiState} (happ : s.appliedKbps = s'.appliedKbps)
    (hvars : s.focusVars = s'.focusVars) (now : ℕ) :
    s.wantFocus cfg now = s'.wantFocus cfg now ∧ s.aboveSince cfg now = s'.aboveSince cfg now := by
  obtain ⟨hfocus, habove, -⟩ := focusVars_eq_iff.mp hvars
  have hsince : s.aboveSince cfg now = s'.aboveSince cfg now := by
    rw [PiState.aboveSince, PiState.aboveSince, happ, habove]
  refine ⟨?_, hsince⟩
  rw [PiState.wantFocus, PiState.wantFocus, happ, hfocus, hsince]

theorem focusHeld_iff {s' : PiState} (happ : s.appliedKbps = s'.appliedKbps)
    (hvars : s.focusVars = s'.focusVars) (now : ℕ) :
    s.focus = some (s.wantFocus cfg now) ∨ now - s.focusTryMs < piFocusRetryMs ↔
      s'.focus = some (s'.wantFocus cfg now) ∨ now - s'.focusTryMs < piFocusRetryMs := by
  obtain ⟨hfocus, -, htry⟩ := focusVars_eq_iff.mp hvars
  rw [hfocus, htry, (wantFocus_eq happ hvars now).1]

/-- It moves them by what it is answered. -/
theorem focusVars_piFocus {τ : Type*} {send' : τ → LiveSet → ℤ × τ} {s' : PiState} {ctx' : τ}
    {now : ℕ} (happ : s.appliedKbps = s'.appliedKbps) (hvars : s.focusVars = s'.focusVars)
    (hstatus : (send ctx (setRoi (s.wantFocus cfg now))).1 =
      (send' ctx' (setRoi (s.wantFocus cfg now))).1) :
    (s.piFocus send cfg now ctx).1.focusVars = (s'.piFocus send' cfg now ctx').1.focusVars := by
  obtain ⟨hfocus, -, htry⟩ := focusVars_eq_iff.mp hvars
  obtain ⟨hwant, hsince⟩ := @wantFocus_eq cfg s s' happ hvars now
  by_cases hidle : cfg.roiMaxKbps = 0 ∨ s.appliedKbps = 0
  · rw [piFocus_of_idle hidle, piFocus_of_idle (happ ▸ hidle)]
    exact hvars
  have hidle' : ¬ (cfg.roiMaxKbps = 0 ∨ s'.appliedKbps = 0) := happ ▸ hidle
  have hiff := @focusHeld_iff cfg s s' happ hvars now
  by_cases hheld : s.focus = some (s.wantFocus cfg now) ∨ now - s.focusTryMs < piFocusRetryMs
  · rw [piFocus_of_held hidle hheld, piFocus_of_held hidle' (hiff.mp hheld), PiState.focusVars,
      PiState.focusVars, hfocus, hsince, htry]
  · rw [piFocus_of_asked hidle hheld, piFocus_of_asked hidle' (mt hiff.mpr hheld),
      PiState.focusVars, PiState.focusVars]
    dsimp only
    obtain ⟨hT, hS, hF⟩ := @afterFocus_vars
      { s with focusAboveSinceMs := s.aboveSince cfg now } now (s.wantFocus cfg now)
      (send ctx (setRoi (s.wantFocus cfg now))).1
    obtain ⟨hT', hS', hF'⟩ := @afterFocus_vars
      { s' with focusAboveSinceMs := s'.aboveSince cfg now } now (s'.wantFocus cfg now)
      (send' ctx' (setRoi (s'.wantFocus cfg now))).1
    rw [hT, hS, hF, hT', hS', hF', hstatus, ← hwant]
    dsimp only
    rw [hfocus, hsince]

/-- In front of `pi_focus` the three variables are those after the beginning of the pass. -/
theorem focusVars_enter (gen : ℕ) (inp : PiInput) :
    ((focusTickOf send cfg s gen inp ctx).enter s).focusVars =
      (s.begin send cfg gen inp ctx).1.focusVars := by
  rw [focusVars_begin, PiState.focusVars, FocusTick.enter, focusTickOf]
  simp only [decide_eq_true_eq]

theorem appliedKbps_enter (gen : ℕ) (inp : PiInput) :
    ((focusTickOf send cfg s gen inp ctx).enter s).appliedKbps =
      if (s.begin send cfg gen inp ctx).1.capKbps = 0 then 0
      else ((s.begin send cfg gen inp ctx).1.observe cfg inp).1.appliedKbps := rfl

/-- **A pass of `run_pi`** moves the three variables as one call of `pi_focus` does. -/
theorem piTick_focus (gen : ℕ) (inp : PiInput) :
    (piTick send cfg s gen inp ctx).1.focusVars =
      (focusTick cfg s (focusTickOf send cfg s gen inp ctx)).1.focusVars := by
  rw [piTick, focusTick]
  dsimp only
  by_cases hcap : (s.begin send cfg gen inp ctx).1.capKbps = 0
  · rw [if_pos hcap, piFocus_of_idle (.inr ?_), focusVars_enter]
    rw [appliedKbps_enter, if_pos hcap]
  · rw [if_neg hcap, focusVars_sendTarget]
    refine focusVars_piFocus (s := ((s.begin send cfg gen inp ctx).1.observe cfg inp).1) ?_ ?_ ?_
    · rw [appliedKbps_enter, if_neg hcap]
    · rw [focusVars_observe, focusVars_enter]
    · rfl

/-! ### The requests of `run_pi` -/

/-- The send function, with a record of the requests. -/
def sendRecorded (send : σ → LiveSet → ℤ × σ) (x : σ × List LiveSet) (q : LiveSet) :
    ℤ × (σ × List LiveSet) :=
  ((send x.1 q).1, (send x.1 q).2, x.2 ++ [q])

/-- The requests that are about focus mode. -/
def focusRequests (asked : List LiveSet) : List LiveSet :=
  asked.filter fun q => q.roiEnabled.isSome

variable {x : σ × List LiveSet}

theorem focusRequests_concat (asked : List LiveSet) {q : LiveSet} (hq : q.roiEnabled = none) :
    focusRequests (asked ++ [q]) = focusRequests asked := by
  simp [focusRequests, hq]

theorem focusRequests_begin (gen : ℕ) (inp : PiInput) :
    focusRequests (s.begin (sendRecorded send) cfg gen inp x).2.2 = focusRequests x.2 := by
  rw [PiState.begin]
  dsimp only
  rw [PiState.startupDivisor]
  split_ifs
  · exact focusRequests_concat _ rfl
  · rfl

theorem focusRequests_cutLoop (currentKbps div attempts : ℕ) (status : ℤ) (kbps floorKbps : ℕ) :
    focusRequests
      (cutLoop (sendRecorded send) currentKbps div attempts status kbps floorKbps x).ctx.2 =
        focusRequests x.2 := by
  induction attempts generalizing status kbps floorKbps x with
  | zero => rfl
  | succ attempts ih =>
    have hone : focusRequests (sendRecorded send x (setBitrate kbps)).2.2 = focusRequests x.2 :=
      focusRequests_concat _ rfl
    rw [cutLoop]
    dsimp only
    split_ifs
    · exact hone
    · exact hone
    · exact (ih _ _ _).trans hone

theorem focusRequests_sendTarget (now : ℕ) (dt : ℚ) (why : Option Disturbance) :
    focusRequests (s.sendTarget (sendRecorded send) cfg now dt why x).2.2 =
      focusRequests x.2 := by
  rw [PiState.sendTarget]
  split_ifs
  · exact focusRequests_concat _ rfl
  · rfl
  · rw [PiState.sendRate]
    split_ifs
    · exact focusRequests_cutLoop _ _ _ _ _ _
    · exact focusRequests_concat _ rfl

/-- The request of `pi_focus` is the same whatever else was asked. -/
theorem focusRequests_piFocus {s' : PiState} {now : ℕ} {status : ℤ}
    (happ : s.appliedKbps = s'.appliedKbps) (hvars : s.focusVars = s'.focusVars) :
    focusRequests (s.piFocus (sendRecorded send) cfg now x).2.2 = focusRequests x.2 ++
      (s'.piFocus (fun asked q => (status, asked ++ [q])) cfg now []).2 := by
  obtain ⟨hwant, -⟩ := @wantFocus_eq cfg s s' happ hvars now
  by_cases hidle : cfg.roiMaxKbps = 0 ∨ s.appliedKbps = 0
  · rw [piFocus_of_idle hidle, piFocus_of_idle (happ ▸ hidle), List.append_nil]
  have hidle' : ¬ (cfg.roiMaxKbps = 0 ∨ s'.appliedKbps = 0) := happ ▸ hidle
  have hiff := @focusHeld_iff cfg s s' happ hvars now
  by_cases hheld : s.focus = some (s.wantFocus cfg now) ∨ now - s.focusTryMs < piFocusRetryMs
  · rw [piFocus_of_held hidle hheld, piFocus_of_held hidle' (hiff.mp hheld), List.append_nil]
  · rw [piFocus_of_asked hidle hheld, piFocus_of_asked hidle' (mt hiff.mpr hheld), ← hwant]
    simp [sendRecorded, focusRequests, setRoi]

/-- **The requests of a pass** that are about focus mode are those of one call of `pi_focus`. -/
theorem piTick_focusRequests (gen : ℕ) (inp : PiInput) :
    focusRequests (piTick (sendRecorded send) cfg s gen inp x).2.2 = focusRequests x.2 ++
      (focusTick cfg s (focusTickOf (sendRecorded send) cfg s gen inp x)).2.flatMap
        FocusEvent.asked := by
  rw [piTick, focusTick, List.flatMap_singleton]
  dsimp only
  by_cases hcap : (s.begin (sendRecorded send) cfg gen inp x).1.capKbps = 0
  · rw [if_pos hcap, piFocus_of_idle (.inr ?_), focusRequests_begin, List.append_nil]
    rw [appliedKbps_enter, if_pos hcap]
  · rw [if_neg hcap, focusRequests_sendTarget, ← @focusRequests_begin σ send cfg s x gen inp]
    refine focusRequests_piFocus ?_ ?_
    · rw [appliedKbps_enter, if_neg hcap]
    · rw [focusVars_observe, focusVars_enter]

end Pass

end Ar8030
