import Mathlib.Order.Lattice
import Ar8030Transport.Tx.RulesControl

/-!
# Learning waybeam's floor

waybeam refuses a rate below its own floor with a 409, and the controllers take that for a lower
bound of the floor (`learn_floor`). At a frame-rate divisor `d` the floor in force is `F / d`,
and what is learned is scaled back to the full frame rate.

`Raises F` is what any part of a pass does to the learned floor if waybeam refuses only what is
below: it does not fall, and does not rise above `F`. Over a run it follows that the floor stays
below the larger of `F` and the one configured.
-/

namespace Ar8030

/-! ### The floor -/

/-- Refusals by a waybeam with the floor `F` that is at the divisor `d`. -/
def HonestRefusals {σ : Type*} (F d : ℕ) (send : σ → LiveSet → ℤ × σ) : Prop :=
  ∀ ctx q, (send ctx q).1 = 409 → ∃ kbps ∈ q.bitrate, kbps < F / q.fpsDivisor.getD d

/-- From one floor to another without overshooting `F`. -/
def Raises (F before after : ℕ) : Prop := before ≤ after ∧ after ≤ max before F

variable {F : ℕ}

theorem Raises.refl (floorKbps : ℕ) : Raises F floorKbps floorKbps :=
  ⟨le_rfl, le_max_left _ _⟩

theorem Raises.trans {a b c : ℕ} (hab : Raises F a b) (hbc : Raises F b c) : Raises F a c :=
  ⟨hab.1.trans hbc.1, hbc.2.trans (max_le hab.2 (le_max_right _ _))⟩

/-- A refused rate, scaled back, is below the floor of the full frame rate. -/
theorem scaled_lt_of_refused {kbps d : ℕ} (h : kbps < F / d) : kbps * d % 2 ^ 32 + 1 ≤ F := by
  have hd : 0 < d := (Nat.div_pos_iff.mp (Nat.zero_lt_of_lt h)).1
  have hmul : (kbps + 1) * d ≤ F := (Nat.le_div_iff_mul_le hd).mp h
  have hmod : kbps * d % 2 ^ 32 ≤ kbps * d := Nat.mod_le _ _
  rw [Nat.add_mul] at hmul
  omega

theorem Raises.learnFloor {status : ℤ} {rejectedKbps : ℕ} (floorKbps : ℕ)
    (h : status = 409 → rejectedKbps + 1 ≤ F) :
    Raises F floorKbps (learnFloor floorKbps status rejectedKbps) := by
  rw [Ar8030.learnFloor]
  split_ifs with hlearn
  · refine ⟨hlearn.2.le, le_max_of_le_right ?_⟩
    exact (Nat.mod_le _ _).trans (h hlearn.1)
  · exact Raises.refl _

section Cut

variable {σ : Type*} {send : σ → LiveSet → ℤ × σ} {div : ℕ}

theorem Raises.cutLoop (h : HonestRefusals F div send) (currentKbps attempts : ℕ) (status : ℤ)
    (kbps floorKbps : ℕ) (ctx : σ) :
    Raises F floorKbps
      (cutLoop send currentKbps div attempts status kbps floorKbps ctx).floorKbps := by
  induction attempts generalizing status kbps floorKbps ctx with
  | zero => exact Raises.refl _
  | succ attempts ih =>
    have hlearn : Raises F floorKbps (Ar8030.learnFloor floorKbps (send ctx (setBitrate kbps)).1
        (kbps * div % 2 ^ 32)) := by
      refine Raises.learnFloor floorKbps fun h409 => ?_
      obtain ⟨_, hmem, hlt⟩ := h ctx (setBitrate kbps) h409
      obtain rfl : kbps = _ := by simpa [setBitrate] using hmem
      exact scaled_lt_of_refused hlt
    rw [Ar8030.cutLoop]
    dsimp only
    split_ifs
    · exact Raises.refl _
    · exact hlearn
    · exact hlearn.trans (ih _ _ _ _)

theorem Raises.applyCut (h : HonestRefusals F div send) (kbps currentKbps floorKbps : ℕ)
    (ctx : σ) : Raises F floorKbps (applyCut send kbps currentKbps floorKbps div ctx).floorKbps :=
  Raises.cutLoop h _ _ _ _ _ _

end Cut

/-! ### The PI controller -/

section Pi

variable {σ : Type*} {send : σ → LiveSet → ℤ × σ} (cfg : PiConfig) (s : PiState)

theorem afterStartup_floorKbps (now : ℕ) (status : ℤ) (hdiv : s.div = none) :
    (s.afterStartup now status).floorKbps = s.floorKbps ∧
      (s.afterStartup now status).curDiv = s.curDiv := by
  rw [PiState.afterStartup]
  split_ifs <;> simp [PiState.curDiv, hdiv]

theorem startupDivisor_floorKbps (now : ℕ) (ctx : σ) :
    (s.startupDivisor send now ctx).1.floorKbps = s.floorKbps ∧
      (s.startupDivisor send now ctx).1.curDiv = s.curDiv := by
  rw [PiState.startupDivisor]
  split_ifs with hdue
  · exact afterStartup_floorKbps s now _ hdue.1
  · exact ⟨rfl, rfl⟩

/-- The floor, the frame-rate stage and the rate are as before. -/
structure SameStage (s s' : PiState) : Prop where
  floorKbps : s'.floorKbps = s.floorKbps
  div : s'.div = s.div
  divMax : s'.divMax = s.divMax
  appliedKbps : s'.appliedKbps = s.appliedKbps

theorem SameStage.trans {s s' s'' : PiState} (h : SameStage s s') (h' : SameStage s' s'') :
    SameStage s s'' :=
  ⟨h'.floorKbps.trans h.floorKbps, h'.div.trans h.div, h'.divMax.trans h.divMax,
    h'.appliedKbps.trans h.appliedKbps⟩

theorem SameStage.curDiv {s s' : PiState} (h : SameStage s s') : s'.curDiv = s.curDiv := by
  rw [PiState.curDiv, PiState.curDiv, h.div]

theorem readCapacity_sameStage (inp : PiInput) : SameStage s (s.readCapacity cfg inp) := by
  rw [PiState.readCapacity]
  split_ifs <;> exact ⟨rfl, rfl, rfl, rfl⟩

theorem disturb_sameStage (inp : PiInput) : SameStage s (s.disturb cfg inp).1 := by
  rw [PiState.disturb]
  constructor
  · simp only [apply_ite Prod.fst, apply_ite PiState.floorKbps, ite_self]
  · simp only [apply_ite Prod.fst, apply_ite PiState.div, ite_self]
  · simp only [apply_ite Prod.fst, apply_ite PiState.divMax, ite_self]
  · simp only [apply_ite Prod.fst, apply_ite PiState.appliedKbps, ite_self]

theorem backstop_sameStage (inp : PiInput) (why : Option Disturbance) :
    SameStage s (s.backstop cfg inp why).1 := by
  rw [PiState.backstop]
  split <;> exact ⟨rfl, rfl, rfl, rfl⟩

theorem observe_sameStage (inp : PiInput) : SameStage s (s.observe cfg inp).1 := by
  have hcount : SameStage s (s.countRetx inp) := ⟨rfl, rfl, rfl, rfl⟩
  exact (hcount.trans (disturb_sameStage cfg _ inp)).trans (backstop_sameStage cfg _ inp _)

theorem piFocus_sameStage (now : ℕ) (ctx : σ) : SameStage s (s.piFocus send cfg now ctx).1 := by
  rw [PiState.piFocus]
  dsimp only
  split_ifs
  · exact ⟨rfl, rfl, rfl, rfl⟩
  · exact ⟨rfl, rfl, rfl, rfl⟩
  · rw [PiState.afterFocus]
    split_ifs <;> exact ⟨rfl, rfl, rfl, rfl⟩

/-- A stage is refused under the divisor it asks for. -/
theorem Raises.sendStage {d : ℕ} (h : HonestRefusals F d send) (now wantDiv t : ℕ) (ctx : σ) :
    Raises F s.floorKbps (s.sendStage send now wantDiv t ctx).1.floorKbps := by
  rw [PiState.sendStage, PiState.afterStage]
  split_ifs
  · exact Raises.refl _
  · exact Raises.refl _
  · refine Raises.learnFloor s.floorKbps fun h409 => ?_
    obtain ⟨kbps, hmem, hlt⟩ := h ctx (setFpsDiv wantDiv t) h409
    obtain rfl : t = kbps := by
      simp only [setFpsDiv, Option.mem_def] at hmem
      split_ifs at hmem
      exact Option.some.inj hmem
    exact scaled_lt_of_refused hlt

@[simp]
theorem afterRate_floorKbps (now kbps floorKbps : ℕ) (status : ℤ) :
    (s.afterRate now kbps floorKbps status).floorKbps = floorKbps := by
  rw [PiState.afterRate]
  split_ifs <;> rfl

theorem Raises.sendRate (h : HonestRefusals F s.curDiv send) (now t : ℕ) (ctx : σ) :
    Raises F s.floorKbps (s.sendRate send now t ctx).1.floorKbps := by
  rw [PiState.sendRate]
  split_ifs
  · simpa using Raises.applyCut h _ _ _ _
  · simpa using Raises.refl _

theorem Raises.sendTarget (h : HonestRefusals F s.curDiv send) (now : ℕ) (dt : ℚ)
    (why : Option Disturbance) (ctx : σ) :
    Raises F s.floorKbps (s.sendTarget send cfg now dt why ctx).1.floorKbps := by
  rw [PiState.sendTarget]
  split_ifs
  · exact Raises.sendStage { s with divUpSinceMs := (s.chooseDiv cfg now).2 } h _ _ _ _
  · exact Raises.refl _
  · exact Raises.sendRate { s with divUpSinceMs := (s.chooseDiv cfg now).2 } h _ _ _

/-- The seconds since the last pass. -/
def PiState.dt (s : PiState) (inp : PiInput) : ℚ := ((inp.now - s.lastTickMs : ℕ) : ℚ) / 1000

variable (send) in
/-- A pass up to the choice of a target. -/
def PiState.beforeTarget (gen : ℕ) (inp : PiInput) (ctx : σ) : PiState × Option Disturbance × σ :=
  let r := s.begin send cfg gen inp ctx
  let o := r.1.observe cfg inp
  let f := o.1.piFocus send cfg inp.now r.2
  (f.1.updateK cfg inp.delayMs (s.dt inp) inp.now, o.2, f.2)

theorem piTick_eq (gen : ℕ) (inp : PiInput) (ctx : σ) :
    piTick send cfg s gen inp ctx =
      if (s.begin send cfg gen inp ctx).1.capKbps = 0 then s.begin send cfg gen inp ctx
      else
        (s.beforeTarget send cfg gen inp ctx).1.sendTarget send cfg inp.now (s.dt inp)
          (s.beforeTarget send cfg gen inp ctx).2.1 (s.beforeTarget send cfg gen inp ctx).2.2 :=
  rfl

theorem begin_floorKbps (gen : ℕ) (inp : PiInput) (ctx : σ) :
    (s.begin send cfg gen inp ctx).1.floorKbps = s.floorKbps ∧
      (s.begin send cfg gen inp ctx).1.curDiv = (s.seeGeneration cfg gen).curDiv := by
  rw [PiState.begin]
  dsimp only
  rw [(readCapacity_sameStage cfg _ inp).floorKbps, (readCapacity_sameStage cfg _ inp).curDiv,
    (startupDivisor_floorKbps _ _ _).1, (startupDivisor_floorKbps _ _ _).2,
    PiState.seeGeneration, PiState.seeGeneration]
  dsimp only
  split_ifs <;> exact ⟨rfl, rfl⟩

theorem beforeTarget_sameStage (gen : ℕ) (inp : PiInput) (ctx : σ) :
    SameStage (s.begin send cfg gen inp ctx).1 (s.beforeTarget send cfg gen inp ctx).1 := by
  have hobserve := observe_sameStage cfg (s.begin send cfg gen inp ctx).1 inp
  have hfocus := @piFocus_sameStage σ send cfg ((s.begin send cfg gen inp ctx).1.observe cfg inp).1
    inp.now (s.begin send cfg gen inp ctx).2
  exact (hobserve.trans hfocus).trans ⟨rfl, rfl, rfl, rfl⟩

/-- **One pass** of `run_pi`, with a waybeam at the divisor the controller reckons with. -/
theorem Raises.piTick (gen : ℕ) (h : HonestRefusals F (s.seeGeneration cfg gen).curDiv send)
    (inp : PiInput) (ctx : σ) :
    Raises F s.floorKbps (piTick send cfg s gen inp ctx).1.floorKbps := by
  rw [piTick_eq]
  split_ifs
  · rw [(begin_floorKbps cfg s gen inp ctx).1]
    exact Raises.refl _
  · have hsame := @beforeTarget_sameStage σ send cfg s gen inp ctx
    have hfloor := hsame.floorKbps.trans (@begin_floorKbps σ send cfg s gen inp ctx).1
    rw [← (@begin_floorKbps σ send cfg s gen inp ctx).2, ← hsame.curDiv] at h
    have hsend := Raises.sendTarget cfg _ h inp.now (s.dt inp)
      (s.beforeTarget send cfg gen inp ctx).2.1 (s.beforeTarget send cfg gen inp ctx).2.2
    rwa [hfloor] at hsend

end Pi

/-! ### The rules -/

section Rules

variable {σ : Type*} {send : σ → LiveSet → ℤ × σ} (cfg : RulesConfig) (s : RulesState)

theorem abortRoi_floorKbps (now : ℕ) (ctx : σ) :
    (s.abortRoi send now ctx).1.floorKbps = s.floorKbps := by
  rw [RulesState.abortRoi]
  dsimp only
  split_ifs <;> rfl

/-- The only refusal of an urgent request that is learned from is that of a cut. -/
theorem Raises.afterUrgent {now target : ℕ} {cut roi : Bool} {status : ℤ}
    (h : status = 409 → cut = true → target + 1 ≤ F) :
    Raises F s.floorKbps (s.afterUrgent cfg now target cut roi status).floorKbps := by
  rw [RulesState.afterUrgent]
  cases isSuccess status with
  | true => cases cut <;> cases roi <;> exact Raises.refl _
  | false =>
    cases cut with
    | true => exact Raises.learnFloor _ fun h409 => h h409 rfl
    | false => exact Raises.refl _

theorem Raises.urgent (h : HonestRefusals F 1 send) (now : ℕ) (ctx : σ) :
    Raises F s.floorKbps (s.urgent send cfg now ctx).1.floorKbps := by
  rw [RulesState.urgent]
  dsimp only
  generalize hs : ({ s with
    lastBacklogMs := now, congestedUntilMs := now + congestedHoldMs } : RulesState) = s₁
  have hfloor : s.floorKbps = s₁.floorKbps := by
    rw [← hs]
  rw [hfloor, ← @abortRoi_floorKbps σ send s₁ now ctx]
  split
  · refine Raises.afterUrgent cfg _ fun h409 hcut => ?_
    obtain ⟨kbps, hmem, hlt⟩ := h _ _ h409
    obtain rfl : s₁.backoffTarget cfg cfg.ringBackoff = kbps := by
      simpa [urgentRequest, hcut] using hmem
    have hlt' : s₁.backoffTarget cfg cfg.ringBackoff < F := by simpa [urgentRequest] using hlt
    exact hlt'
  · exact Raises.refl _

theorem recoverRoi_floorKbps (now : ℕ) (ctx : σ) :
    (s.recoverRoi send cfg now ctx).1.floorKbps = s.floorKbps := by
  rw [RulesState.recoverRoi]
  dsimp only
  split_ifs <;> rfl

theorem Raises.checkRing (h : HonestRefusals F 1 send) (inp : RulesInput) (ctx : σ) :
    Raises F s.floorKbps (s.checkRing send cfg inp ctx).1.floorKbps := by
  rw [RulesState.checkRing]
  split
  · exact Raises.refl _
  · split_ifs
    · exact Raises.urgent cfg s h _ _
    · rw [recoverRoi_floorKbps]
      exact Raises.refl _
    · exact Raises.refl _

@[simp]
theorem afterCut_floorKbps (now kbps floorKbps : ℕ) (status : ℤ) :
    (s.afterCut now kbps floorKbps status).floorKbps = floorKbps := by
  rw [RulesState.afterCut]
  split_ifs <;> rfl

@[simp]
theorem afterLinkCut_floorKbps (now kbps floorKbps : ℕ) (status : ℤ) :
    (s.afterLinkCut now kbps floorKbps status).floorKbps = floorKbps := by
  rw [RulesState.afterLinkCut]
  split_ifs <;> exact afterCut_floorKbps s _ _ _ _

theorem Raises.fastCut (h : HonestRefusals F 1 send) (now : ℕ) (factor : ℚ) (ctx : σ) :
    Raises F s.floorKbps (s.fastCut send cfg now factor ctx).1.floorKbps := by
  rw [RulesState.fastCut]
  split_ifs
  · simpa using Raises.applyCut h _ _ _ _
  · exact Raises.refl _

theorem Raises.checkLdpc (h : HonestRefusals F 1 send) (inp : RulesInput) (ctx : σ) :
    Raises F s.floorKbps (s.checkLdpc send cfg inp ctx).1.floorKbps := by
  rw [RulesState.checkLdpc]
  split_ifs with hdue
  · dsimp only
    split
    · exact Raises.refl _
    · split
      · exact Raises.fastCut cfg { s with lastLdpcApplyMs := inp.now } h _ _ _
      · exact Raises.refl _
  · exact Raises.refl _

theorem Raises.checkRetx (h : HonestRefusals F 1 send) (inp : RulesInput) (ctx : σ) :
    Raises F s.floorKbps (s.checkRetx send cfg inp ctx).1.floorKbps := by
  rw [RulesState.checkRetx]
  split_ifs with hdue
  · exact Raises.fastCut cfg { s with
      lastSeenRetxTooMany := inp.retxTooManyNow, lastRetxEventApplyMs := inp.now } h _ _ _
  · exact Raises.refl _

theorem rulesSendRate_floorKbps (now kbps : ℕ) (ctx : σ) :
    (s.sendRate send now kbps ctx).1.floorKbps = s.floorKbps := by
  rw [RulesState.sendRate, RulesState.afterRate]
  dsimp only
  split_ifs <;> rfl

theorem seeLink_floorKbps (now linkKbps : ℕ) :
    (s.seeLink cfg now linkKbps).floorKbps = s.floorKbps := by
  rw [RulesState.seeLink]
  split_ifs <;> rfl

theorem Raises.followLink (h : HonestRefusals F 1 send) (now target : ℕ) (ctx : σ) :
    Raises F s.floorKbps (s.followLink send cfg now target ctx).1.floorKbps := by
  rw [RulesState.followLink]
  split_ifs
  · rw [rulesSendRate_floorKbps]
    exact Raises.refl _
  · exact Raises.refl _
  · exact Raises.refl _
  · simpa using Raises.applyCut h _ _ _ _
  · split
    · exact Raises.refl _
    · rw [rulesSendRate_floorKbps]
      exact Raises.refl _

theorem Raises.checkLink (h : HonestRefusals F 1 send) (inp : RulesInput) (ctx : σ) :
    Raises F s.floorKbps (s.checkLink send cfg inp ctx).1.floorKbps := by
  rw [RulesState.checkLink]
  split_ifs
  · exact Raises.refl _
  · dsimp only
    split
    · exact Raises.refl _
    · next linkKbps _ =>
      have hfollow := Raises.followLink cfg
        (RulesState.seeLink cfg
          { s with lastSeenWake := inp.wake, lastMcsPollMs := inp.now } inp.now linkKbps) h inp.now
        (RulesState.linkTarget cfg
          (RulesState.seeLink cfg
            { s with lastSeenWake := inp.wake, lastMcsPollMs := inp.now } inp.now linkKbps)
          linkKbps) ctx
      rwa [seeLink_floorKbps] at hfollow

/-- **One pass** of `run_rules`, which leaves waybeam at the full frame rate. -/
theorem Raises.rulesTick (h : HonestRefusals F 1 send) (inp : RulesInput) (ctx : σ) :
    Raises F s.floorKbps (rulesTick send cfg s inp ctx).1.floorKbps := by
  have hring := Raises.checkRing cfg s h inp ctx
  have hldpc := Raises.checkLdpc cfg (s.checkRing send cfg inp ctx).1 h inp
    (s.checkRing send cfg inp ctx).2
  refine (hring.trans hldpc).trans ?_
  rw [Ar8030.rulesTick]
  refine Raises.trans ?_ (Raises.checkLink cfg _ h _ _)
  exact Raises.checkRetx cfg (RulesState.countRetx _ inp) h inp _

end Rules

/-! ### Runs -/

section Runs

variable {σ : Type*} (send : ℕ → σ → LiveSet → ℤ × σ)

/-- A pass of `run_pi` with what it reads of `ring_generation`, and with waybeam at the divisor
the controller reckons with. -/
def piPass (cfg : PiConfig) (x : PiState × σ) (p : ℕ × PiInput) : PiState × σ :=
  piTick (send (x.1.seeGeneration cfg p.1).curDiv) cfg x.1 p.1 p.2 x.2

/-- A run of `run_pi`. -/
def piPasses (cfg : PiConfig) (now gen : ℕ) (ctx : σ) (ps : List (ℕ × PiInput)) : PiState × σ :=
  ps.foldl (piPass send cfg) (PiState.init cfg now gen, ctx)

/-- A run of `run_rules`, which never sets a divisor. -/
def rulesPasses (cfg : RulesConfig) (ctx : σ) (inps : List RulesInput) : RulesState × σ :=
  inps.foldl (fun x inp => rulesTick (send 1) cfg x.1 inp x.2) (RulesState.init cfg, ctx)

variable {send} (hsend : ∀ d, HonestRefusals F d (send d))
include hsend

theorem Raises.piPasses (cfg : PiConfig) (x : PiState × σ) (ps : List (ℕ × PiInput)) :
    Raises F x.1.floorKbps (ps.foldl (piPass send cfg) x).1.floorKbps := by
  induction ps generalizing x with
  | nil => exact Raises.refl _
  | cons p ps ih =>
    have hpass : Raises F x.1.floorKbps (piPass send cfg x p).1.floorKbps :=
      Raises.piTick cfg x.1 p.1 (hsend _) p.2 x.2
    exact hpass.trans (ih _)

theorem Raises.rulesPasses (cfg : RulesConfig) (x : RulesState × σ) (inps : List RulesInput) :
    Raises F x.1.floorKbps
      (inps.foldl (fun x inp => Ar8030.rulesTick (send 1) cfg x.1 inp x.2) x).1.floorKbps := by
  induction inps generalizing x with
  | nil => exact Raises.refl _
  | cons inp inps ih => exact (Raises.rulesTick cfg x.1 (hsend 1) inp x.2).trans (ih _)

end Runs

/-! ### What a cut asks for -/

section Record

variable {σ : Type*} (send : σ → LiveSet → ℤ × σ)

/-- The send function with a record of the requests and their answers. -/
def record (x : σ × List (LiveSet × ℤ)) (q : LiveSet) : ℤ × σ × List (LiveSet × ℤ) :=
  ((send x.1 q).1, (send x.1 q).2, x.2 ++ [(q, (send x.1 q).1)])

/-- The record of a cut: at most `attempts` rates, strictly increasing from `kbps` to at most
the current one. The last is the one the cut ended with if it was accepted. -/
structure CutRecord (attempts kbps currentKbps : ℕ) (result : CutResult σ)
    (entries : List (ℕ × ℤ)) : Prop where
  length_le : entries.length ≤ attempts
  ge : ∀ e ∈ entries, kbps ≤ e.1
  le : ∀ e ∈ entries, e.1 ≤ currentKbps
  increasing : entries.Pairwise fun a b => a.1 < b.1
  accepted : isSuccess result.status = true →
    entries.getLast? = some (result.kbps, result.status)

variable {send}

/-- The induction is on the attempts left: a refused rate is followed by a higher one, which is
what the rest of the record starts from. -/
theorem cutLoop_record {attempts kbps currentKbps div floorKbps : ℕ} {status : ℤ} {ctx : σ}
    (log : List (LiveSet × ℤ)) (hle : kbps ≤ currentKbps) (hstatus : isSuccess status = false) :
    ∃ entries : List (ℕ × ℤ),
      (cutLoop (record send) currentKbps div attempts status kbps floorKbps (ctx, log)).ctx.2 =
        log ++ entries.map (fun e => (setBitrate e.1, e.2)) ∧
      CutRecord attempts kbps currentKbps
        (cutLoop send currentKbps div attempts status kbps floorKbps ctx) entries := by
  induction attempts generalizing kbps floorKbps status ctx log with
  | zero =>
    refine ⟨[], by simp [cutLoop], ?_⟩
    constructor <;> simp [cutLoop, hstatus]
  | succ attempts ih =>
    -- a loop that ends here has asked once
    have hone (result : CutResult σ)
        (hresult : result.kbps = kbps ∧ result.status = (send ctx (setBitrate kbps)).1) :
        CutRecord (attempts + 1) kbps currentKbps result
          [(kbps, (send ctx (setBitrate kbps)).1)] := by
      constructor <;> simp [hle, hresult]
    have hsame : (record send (ctx, log) (setBitrate kbps)).1 = (send ctx (setBitrate kbps)).1 :=
      rfl
    by_cases h409 : (send ctx (setBitrate kbps)).1 = 409
    · by_cases hlast : currentKbps ≤ kbps ∨ currentKbps - kbps ≤ 32
      · rw [cutLoop_of_last (hsame.trans h409) hlast, cutLoop_of_last h409 hlast]
        exact ⟨_, rfl, hone _ ⟨rfl, h409.symm⟩⟩
      rw [cutLoop_of_refused (hsame.trans h409) hlast, cutLoop_of_refused h409 hlast]
      have hnext : kbps + (currentKbps - kbps) / 2 ≤ currentKbps := by omega
      obtain ⟨entries, hlog, hrec⟩ := @ih (kbps + (currentKbps - kbps) / 2)
        (learnFloor floorKbps 409 (kbps * div % 2 ^ 32)) 409 (send ctx (setBitrate kbps)).2
        (log ++ [(setBitrate kbps, 409)]) hnext (by decide)
      -- half of a cut by more than 32 is not 0
      have hgt (e : ℕ × ℤ) (he : e ∈ entries) : kbps < e.1 := by
        have := hrec.ge e he
        omega
      refine ⟨(kbps, 409) :: entries, ?_, ?_⟩
      · rw [record, h409, hlog, List.append_assoc]
        rfl
      constructor
      · simpa using hrec.length_le
      · simpa using fun a b h => (hgt (a, b) h).le
      · simpa [hle] using fun a b h => hrec.le (a, b) h
      · exact List.pairwise_cons.mpr ⟨hgt, hrec.increasing⟩
      · intro hok
        rw [List.getLast?_cons, hrec.accepted hok]
        rfl
    · rw [cutLoop_of_ne (ne_of_eq_of_ne hsame h409), cutLoop_of_ne h409]
      exact ⟨_, rfl, hone _ ⟨rfl, rfl⟩⟩

end Record

/-- The requests of a cut: at most five, at increasing rates up to the current one, and the
rate it ends with is the accepted one. -/
def CutsUpward {σ : Type*} (send : σ → LiveSet → ℤ × σ) : Prop :=
  ∀ kbps currentKbps floorKbps div ctx, kbps ≤ currentKbps → ∃ entries : List (ℕ × ℤ),
    (applyCut (record send) kbps currentKbps floorKbps div (ctx, [])).ctx.2 =
      entries.map (fun e => (setBitrate e.1, e.2)) ∧
    CutRecord 5 kbps currentKbps (applyCut send kbps currentKbps floorKbps div ctx) entries

/-- **The learned floor never overshoots waybeam's.** -/
theorem learned_floor_sound {σ : Type*} (F : ℕ) (send : ℕ → σ → LiveSet → ℤ × σ)
    (hsend : ∀ d, HonestRefusals F d (send d)) :
    (∀ cfg now gen ctx ps qs,
      (piPasses send cfg now gen ctx ps).1.floorKbps ≤
        (piPasses send cfg now gen ctx (ps ++ qs)).1.floorKbps ∧
      (piPasses send cfg now gen ctx ps).1.floorKbps ≤ max cfg.minKbps F) ∧
    (∀ cfg ctx inps inps',
      (rulesPasses send cfg ctx inps).1.floorKbps ≤
        (rulesPasses send cfg ctx (inps ++ inps')).1.floorKbps ∧
      (rulesPasses send cfg ctx inps).1.floorKbps ≤ max cfg.minKbps F) ∧
    ∀ d, CutsUpward (send d) := by
  refine ⟨fun cfg now gen ctx ps qs => ⟨?_, ?_⟩, fun cfg ctx inps inps' => ⟨?_, ?_⟩, ?_⟩
  · rw [piPasses, piPasses, List.foldl_append]
    exact (Raises.piPasses hsend cfg _ qs).1
  · exact (Raises.piPasses hsend cfg (PiState.init cfg now gen, ctx) ps).2
  · rw [rulesPasses, rulesPasses, List.foldl_append]
    exact (Raises.rulesPasses hsend cfg _ inps').1
  · exact (Raises.rulesPasses hsend cfg (RulesState.init cfg, ctx) inps).2
  · intro d kbps currentKbps floorKbps div ctx hle
    exact cutLoop_record [] hle (by decide)

/-- A waybeam that refuses exactly what is below its floor. -/
def flooredAt (F d : ℕ) (ctx : Unit) (q : LiveSet) : ℤ × Unit :=
  (match q.bitrate with
    | some kbps => if kbps < F / q.fpsDivisor.getD d then 409 else 200
    | none => 200, ctx)

theorem honestRefusals_flooredAt (F d : ℕ) : HonestRefusals F d (flooredAt F d) := by
  intro ctx q h409
  rw [flooredAt] at h409
  dsimp only at h409
  split at h409
  · next kbps hmem =>
    by_cases hlt : kbps < F / q.fpsDivisor.getD d
    · exact ⟨kbps, hmem, hlt⟩
    · simp [hlt] at h409
  · simp at h409

/-- A pass that only sees what the link carries. -/
def linkInput (now linkKbps : ℕ) : RulesInput := ⟨now, none, none, 0, 0, 0, some linkKbps⟩

/-- The link drops from 4000 to 1000 kbps: 545 is refused and learned from, 1362 accepted. -/
theorem learned_floor_sound_drop :
    (rulesPasses (flooredAt 1000) RulesConfig.shipped () [linkInput 1000 4000]).1.floorKbps ≤
        (rulesPasses (flooredAt 1000) RulesConfig.shipped ()
          [linkInput 1000 4000, linkInput 2000 1000]).1.floorKbps ∧
      (rulesPasses (flooredAt 1000) RulesConfig.shipped ()
        [linkInput 1000 4000, linkInput 2000 1000]).1.floorKbps = 546 ∧
      CutsUpward (flooredAt 1000 4) := by
  obtain ⟨-, hrules, hcut⟩ := learned_floor_sound 1000 (flooredAt 1000)
    (honestRefusals_flooredAt 1000)
  refine ⟨?_, by decide +kernel, hcut 4⟩
  exact (hrules RulesConfig.shipped () [linkInput 1000 4000] [linkInput 2000 1000]).1

end Ar8030
