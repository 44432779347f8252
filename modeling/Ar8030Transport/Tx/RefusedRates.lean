import Ar8030Transport.Library.Trace
import Ar8030Transport.Tx.FloorLearning
import Ar8030Transport.Tx.PiRamp

/-!
# Refused rates

A refused rate is to be asked for once: the floor learned from it keeps the later ones above.
Here waybeam refuses exactly the rates below its floor `F / d` at the divisor `d`, and what it
has been asked for is recorded.

Both controllers learn from every cut that is refused at the full frame rate. From other refusals
they do not: the startup reset, the first rate and a raised one are only tried again; the floor
`k * d + 1` learned from a rate `k` at a divisor `d ≥ 2` is divided back to `k`; and no floor is
above `max_kbps`. So there is a condition on the state before a pass (`PiKeepsOut`,
`RulesKeepsOut`): what was refused so far is below what the floor and the maximum let through.
Once waybeam has accepted a rate it need not be asked any more, unless there are frame-rate stages
or the maximum is below waybeam's floor.
-/

namespace Ar8030

open Trace

/-! ### A waybeam with a floor -/

/-- A rate waybeam was asked for, the divisor it was for, and whether it was refused. -/
structure RateRequest where
  kbps : ℕ
  div : ℕ
  refused : Bool
  deriving DecidableEq, Repr

/-- waybeam, and the rates it was asked for, the latest at the end. -/
structure FlooredWaybeam where
  waybeam : Waybeam
  asked : List RateRequest
  deriving DecidableEq, Repr

/-- The divisor a request is for. -/
def FlooredWaybeam.divFor (w : FlooredWaybeam) (q : LiveSet) : ℕ :=
  q.fpsDivisor.getD w.waybeam.fpsDivisor

/-- A rate below the floor of its divisor is refused, everything else accepted with the answer
`ok`. -/
def FlooredWaybeam.request (F : ℕ) (ok : FlooredWaybeam → LiveSet → ℤ) (w : FlooredWaybeam)
    (q : LiveSet) : ℤ × FlooredWaybeam :=
  match q.bitrate with
  | none => (ok w q, ⟨w.waybeam.apply q, w.asked⟩)
  | some kbps =>
    if kbps < F / w.divFor q then (409, ⟨w.waybeam, w.asked ++ [⟨kbps, w.divFor q, true⟩]⟩)
    else (ok w q, ⟨w.waybeam.apply q, w.asked ++ [⟨kbps, w.divFor q, false⟩]⟩)

/-- No rate that was refused is asked for again, nor one below it, under the same divisor. -/
def NeverAgain (asked : List RateRequest) : Prop :=
  asked.Pairwise fun a b => a.refused = true → b.div = a.div → a.kbps < b.kbps

instance (asked : List RateRequest) : Decidable (NeverAgain asked) :=
  inferInstanceAs (Decidable (List.Pairwise _ _))

section Request

variable {F : ℕ} {ok : FlooredWaybeam → LiveSet → ℤ} {w : FlooredWaybeam} {q : LiveSet} {kbps : ℕ}

theorem request_rateless (h : q.bitrate = none) :
    w.request F ok q = (ok w q, ⟨w.waybeam.apply q, w.asked⟩) := by
  rw [FlooredWaybeam.request, h]

theorem request_refused (h : q.bitrate = some kbps) (hlt : kbps < F / w.divFor q) :
    w.request F ok q = (409, ⟨w.waybeam, w.asked ++ [⟨kbps, w.divFor q, true⟩]⟩) := by
  rw [FlooredWaybeam.request, h]
  exact if_pos hlt

theorem request_accepted (h : q.bitrate = some kbps) (hge : F / w.divFor q ≤ kbps) :
    w.request F ok q =
      (ok w q, ⟨w.waybeam.apply q, w.asked ++ [⟨kbps, w.divFor q, false⟩]⟩) := by
  rw [FlooredWaybeam.request, h]
  exact if_neg (Nat.not_lt.mpr hge)

end Request

/-! ### What has been refused -/

/-- The divisor a controller reckons with for a request at the divisor `d`: it may not know
that waybeam is not at the full frame rate. -/
def reckoned (known : Bool) (d : ℕ) : ℕ := if known then d else 1

/-- The floor and the maximum let nothing through that was refused. -/
def KeptOut (known : Bool) (floorKbps maxKbps : ℕ) (asked : List RateRequest) : Prop :=
  ∀ e ∈ asked, e.refused = true → e.kbps < min (floorKbps / reckoned known e.div) maxKbps

instance (known : Bool) (floorKbps maxKbps : ℕ) (asked : List RateRequest) :
    Decidable (KeptOut known floorKbps maxKbps asked) :=
  inferInstanceAs (Decidable (∀ e ∈ asked, _))

/-- Only rates below waybeam's floor were refused, and none was asked for again. -/
structure RefusedOnce (F : ℕ) (asked : List RateRequest) : Prop where
  below : ∀ e ∈ asked, e.refused = true → e.kbps < F / e.div
  neverAgain : NeverAgain asked

section Refused

variable {F floorKbps maxKbps kbps d : ℕ} {known : Bool} {asked : List RateRequest}

theorem refusedOnce_nil : RefusedOnce F [] := by
  constructor <;> simp [NeverAgain]

theorem RefusedOnce.concat (h : RefusedOnce F asked) {e : RateRequest}
    (hbelow : e.refused = true → e.kbps < F / e.div)
    (habove : ∀ a ∈ asked, a.refused = true → e.div = a.div → a.kbps < e.kbps) :
    RefusedOnce F (asked ++ [e]) := by
  constructor
  · intro a ha
    rcases List.mem_append.mp ha with ha | ha
    · exact h.below a ha
    · obtain rfl := List.mem_singleton.mp ha
      exact hbelow
  · refine List.pairwise_append.mpr ⟨h.neverAgain, List.pairwise_singleton _ _, ?_⟩
    intro a ha b hb
    obtain rfl := List.mem_singleton.mp hb
    exact habove a ha

/-- An accepted rate is above all that were refused. -/
theorem RefusedOnce.accepted (h : RefusedOnce F asked) (hge : F / d ≤ kbps) :
    RefusedOnce F (asked ++ [⟨kbps, d, false⟩]) := by
  refine h.concat (fun href => absurd href Bool.false_ne_true) fun a ha href hdiv => ?_
  have hlt : a.kbps < F / a.div := h.below a ha href
  rw [← hdiv] at hlt
  exact hlt.trans_le hge

/-- A request for a rate above all that were refused at its divisor. -/
theorem RefusedOnce.refused (h : RefusedOnce F asked) (hlt : kbps < F / d)
    (habove : ∀ a ∈ asked, a.refused = true → a.div = d → a.kbps < kbps) :
    RefusedOnce F (asked ++ [⟨kbps, d, true⟩]) :=
  h.concat (fun _ => hlt) fun a ha href hdiv => habove a ha href hdiv.symm

theorem keptOut_of_not_refused (h : ∀ e ∈ asked, e.refused = false) :
    KeptOut known floorKbps maxKbps asked := fun e he href =>
  absurd ((h e he).symm.trans href) Bool.false_ne_true

theorem KeptOut.accepted (h : KeptOut known floorKbps maxKbps asked) :
    KeptOut known floorKbps maxKbps (asked ++ [⟨kbps, d, false⟩]) := by
  intro e he href
  rcases List.mem_append.mp he with he | he
  · exact h e he href
  · simp [List.mem_singleton.mp he] at href

/-- The floor learned from a rate refused at the full frame rate keeps it out. -/
theorem KeptOut.refused (h : KeptOut false floorKbps maxKbps asked) (hlt : kbps < F / d)
    (hmax : F / d ≤ maxKbps) (hge : floorKbps ≤ kbps) :
    KeptOut false (kbps + 1) maxKbps (asked ++ [⟨kbps, d, true⟩]) := by
  intro e he href
  rw [show reckoned false e.div = 1 from rfl, Nat.div_one]
  rcases List.mem_append.mp he with he | he
  · have hout : e.kbps < min (floorKbps / 1) maxKbps := h e he href
    rw [Nat.div_one] at hout
    omega
  · obtain rfl := List.mem_singleton.mp he
    dsimp only
    omega

/-- Nothing that was refused is as high as what is let through. -/
theorem KeptOut.above (h : KeptOut known floorKbps maxKbps asked)
    (hge : min (floorKbps / reckoned known d) maxKbps ≤ kbps) :
    ∀ a ∈ asked, a.refused = true → a.div = d → a.kbps < kbps := by
  intro a ha href hdiv
  have hout := h a ha href
  rw [hdiv] at hout
  exact hout.trans_le hge

/-- Knowing the divisor takes nothing back if the floor says nothing, or all. -/
theorem KeptOut.know (h : KeptOut false floorKbps maxKbps asked) (hasked : RefusedOnce F asked)
    (hfloor : floorKbps = 0 ∨ F ≤ floorKbps) (known : Bool) :
    KeptOut known floorKbps maxKbps asked := by
  intro e he href
  have hout : e.kbps < min (floorKbps / 1) maxKbps := h e he href
  rw [Nat.div_one] at hout
  rcases hfloor with rfl | hall
  · omega
  · have hbelow := (hasked.below e he href).trans_le (Nat.div_le_div_right hall)
    cases known with
    | true => exact lt_min hbelow (by omega)
    | false => exact h e he href

/-- What is learned from a refusal, without the wrap of 32 bits. -/
theorem learnFloor_409 {rejectedKbps : ℕ} (hsmall : rejectedKbps + 1 < 2 ^ 32)
    (hge : floorKbps ≤ rejectedKbps) :
    learnFloor floorKbps 409 rejectedKbps = rejectedKbps + 1 := by
  rw [learnFloor, Nat.mod_eq_of_lt hsmall]
  exact if_pos ⟨rfl, Nat.lt_succ_of_le hge⟩

end Refused

/-! ### Cuts -/

section Cut

variable {F : ℕ} {ok : FlooredWaybeam → LiveSet → ℤ} {w : FlooredWaybeam}
  {d currentKbps div attempts kbps floorKbps maxKbps : ℕ} {status : ℤ}

theorem ne_409_of_isSuccess {status : ℤ} (h : isSuccess status = true) : status ≠ 409 := by
  rintro rfl
  simp [isSuccess] at h

/-- One attempt of a cut. -/
theorem cutLoop_floored (hok : ∀ w q, isSuccess (ok w q) = true)
    (hd : w.waybeam.fpsDivisor = d) :
    cutLoop (FlooredWaybeam.request F ok) currentKbps div (attempts + 1) status kbps floorKbps w =
      if kbps < F / d then
        let floorKbps' := learnFloor floorKbps 409 (kbps * div % 2 ^ 32)
        let w' : FlooredWaybeam := ⟨w.waybeam, w.asked ++ [⟨kbps, d, true⟩]⟩
        if currentKbps ≤ kbps ∨ currentKbps - kbps ≤ 32 then ⟨409, kbps, floorKbps', w'⟩
        else
          cutLoop (FlooredWaybeam.request F ok) currentKbps div attempts 409
            (kbps + (currentKbps - kbps) / 2) floorKbps' w'
      else
        ⟨ok w (setBitrate kbps), kbps, floorKbps,
          ⟨w.waybeam.apply (setBitrate kbps), w.asked ++ [⟨kbps, d, false⟩]⟩⟩ := by
  have hdiv : w.divFor (setBitrate kbps) = d := hd
  rcases Nat.lt_or_ge kbps (F / d) with hlt | hge
  · have hreq := @request_refused F ok w (setBitrate kbps) kbps rfl (hdiv.symm ▸ hlt)
    have h409 : (w.request F ok (setBitrate kbps)).1 = 409 := by rw [hreq]
    rw [if_pos hlt]
    dsimp only
    split_ifs with hlast
    · rw [cutLoop_of_last h409 hlast, hreq, hdiv]
    · rw [cutLoop_of_refused h409 hlast, hreq, hdiv]
  · have hreq := @request_accepted F ok w (setBitrate kbps) kbps rfl (hdiv.symm ▸ hge)
    have hne : (w.request F ok (setBitrate kbps)).1 ≠ 409 := by
      rw [hreq]
      exact ne_409_of_isSuccess (hok _ _)
    rw [if_neg (Nat.not_lt.mpr hge), cutLoop_of_ne hne, hreq, hdiv]

/-- What there is after a cut, for a waybeam at the divisor `d`. -/
structure CutAsked (F d : ℕ) (r : CutResult FlooredWaybeam) : Prop where
  refusedOnce : RefusedOnce F r.ctx.asked
  div : r.ctx.waybeam.fpsDivisor = d
  accepted : isSuccess r.status = true → F / d ≤ r.kbps

/-- The induction is on the attempts left: a refused rate is below the next one. -/
theorem RefusedOnce.cutLoop (h : RefusedOnce F w.asked)
    (hok : ∀ w q, isSuccess (ok w q) = true) (hd : w.waybeam.fpsDivisor = d)
    (hstatus : isSuccess status = false)
    (habove : ∀ a ∈ w.asked, a.refused = true → a.div = d → a.kbps < kbps) :
    CutAsked F d (cutLoop (FlooredWaybeam.request F ok) currentKbps div attempts status kbps
      floorKbps w) := by
  induction attempts generalizing status kbps floorKbps w with
  | zero =>
    refine ⟨h, hd, fun hsuccess => ?_⟩
    exact absurd (hstatus.symm.trans hsuccess) (by decide)
  | succ attempts ih =>
    rw [cutLoop_floored hok hd]
    dsimp only
    split_ifs with hlt hlast
    · exact ⟨h.refused hlt habove, hd, fun hsuccess => absurd rfl (ne_409_of_isSuccess hsuccess)⟩
    · refine ih (h.refused hlt habove) hd (by decide) fun a ha href hdiv => ?_
      rcases List.mem_append.mp ha with ha | ha
      · have hlt' := habove a ha href hdiv
        omega
      · obtain rfl := List.mem_singleton.mp ha
        dsimp only
        omega
    · exact ⟨h.accepted (Nat.le_of_not_lt hlt), hd, fun _ => Nat.le_of_not_lt hlt⟩

/-- A cut at the full frame rate teaches: the floor learned is below the next rate. -/
theorem KeptOut.cutLoop (hF : F < 2 ^ 32) (hok : ∀ w q, isSuccess (ok w q) = true)
    (h : KeptOut false floorKbps maxKbps w.asked) (hd : w.waybeam.fpsDivisor = d)
    (hmax : F / d ≤ maxKbps) (hfirst : kbps < F / d → floorKbps ≤ kbps) :
    KeptOut false
      (cutLoop (FlooredWaybeam.request F ok) currentKbps 1 attempts status kbps floorKbps
        w).floorKbps maxKbps
      (cutLoop (FlooredWaybeam.request F ok) currentKbps 1 attempts status kbps floorKbps
        w).ctx.asked := by
  induction attempts generalizing status kbps floorKbps w with
  | zero => exact h
  | succ attempts ih =>
    rw [cutLoop_floored hok hd]
    dsimp only
    have hlearn (hlt : kbps < F / d) :
        learnFloor floorKbps 409 (kbps * 1 % 2 ^ 32) = kbps + 1 := by
      have hsmall : kbps < F := hlt.trans_le (Nat.div_le_self _ _)
      rw [Nat.mul_one, Nat.mod_eq_of_lt (by omega), learnFloor_409 (by omega) (hfirst hlt)]
    split_ifs with hlt hlast
    · rw [hlearn hlt]
      exact h.refused hlt hmax (hfirst hlt)
    · rw [hlearn hlt]
      exact ih (h.refused hlt hmax (hfirst hlt)) hd fun _ => by omega
    · exact h.accepted

end Cut

/-! ### The PI controller -/

/-- The controller knows waybeam's divisor: it has set it, and may set another. -/
def PiState.knows (s : PiState) : Bool := s.div.isSome && decide (1 < s.divMax)

section Pi

variable (F : ℕ) (ok : FlooredWaybeam → LiveSet → ℤ) (cfg : PiConfig)

/-- One pass of `run_pi`, in which waybeam does not restart. -/
def piFlooredPass (x : PiState × FlooredWaybeam) (inp : PiInput) : PiState × FlooredWaybeam :=
  piTick (FlooredWaybeam.request F ok) cfg x.1 x.1.ringGen inp x.2

/-- A run of `run_pi`. -/
def piFlooredRun (waybeam : Waybeam) (now gen : ℕ) (inps : List PiInput) :
    PiState × FlooredWaybeam :=
  inps.foldl (piFlooredPass F ok cfg) (PiState.init cfg now gen, ⟨waybeam, []⟩)

/-- Before a pass: a startup reset that is due is not refused; and as long as there is no rate, or
with frame-rate stages, or with a maximum below waybeam's floor, what was refused is kept out. -/
def PiKeepsOut (x : PiState × FlooredWaybeam) (inp : PiInput) : Prop :=
  (x.1.div = none → piFocusRetryMs ≤ inp.now - x.1.divTryMs →
    x.1.floorKbps = 0 ∨ F ≤ x.1.floorKbps) ∧
  (x.1.appliedKbps = 0 ∨ 1 < x.1.divMax ∨ cfg.maxKbps < F / x.2.waybeam.fpsDivisor →
    KeptOut x.1.knows x.1.floorKbps cfg.maxKbps x.2.asked)

instance (x : PiState × FlooredWaybeam) (inp : PiInput) : Decidable (PiKeepsOut F cfg x inp) :=
  inferInstanceAs (Decidable (_ ∧ _))

variable {F ok cfg} {s : PiState} {w : FlooredWaybeam}

/-- What always holds: the divisor the controller reckons with is waybeam's if it is known, no
rate was asked for again, and without stages waybeam takes the rate that is applied. -/
structure PiAsked (F : ℕ) (s : PiState) (w : FlooredWaybeam) : Prop where
  refusedOnce : RefusedOnce F w.asked
  curDiv : s.curDiv = reckoned s.knows w.waybeam.fpsDivisor
  unknown : s.div = none → 1 < s.divMax
  applied : s.appliedKbps ≠ 0 → ¬ 1 < s.divMax → F / w.waybeam.fpsDivisor ≤ s.appliedKbps

/-- What holds between the passes: there is nothing to keep out, or it was learned. -/
structure PiTaught (F : ℕ) (cfg : PiConfig) (s : PiState) (w : FlooredWaybeam) : Prop
    extends PiAsked F s w where
  keptOut : s.appliedKbps ≠ 0 → ¬ 1 < s.divMax → F / w.waybeam.fpsDivisor ≤ cfg.maxKbps →
    KeptOut s.knows s.floorKbps cfg.maxKbps w.asked

/-- What holds within a pass, up to its last request. -/
structure PiReady (F : ℕ) (cfg : PiConfig) (s : PiState) (w : FlooredWaybeam) : Prop
    extends PiAsked F s w where
  keptOut : KeptOut s.knows s.floorKbps cfg.maxKbps w.asked

theorem PiReady.piTaught (h : PiReady F cfg s w) : PiTaught F cfg s w :=
  ⟨h.toPiAsked, fun _ _ _ => h.keptOut⟩

theorem PiTaught.ready (h : PiTaught F cfg s w)
    (hkeeps : s.appliedKbps = 0 ∨ 1 < s.divMax ∨ cfg.maxKbps < F / w.waybeam.fpsDivisor →
      KeptOut s.knows s.floorKbps cfg.maxKbps w.asked) : PiReady F cfg s w := by
  refine ⟨h.toPiAsked, ?_⟩
  by_cases hask : s.appliedKbps = 0 ∨ 1 < s.divMax ∨ cfg.maxKbps < F / w.waybeam.fpsDivisor
  · exact hkeeps hask
  · simp only [not_or, not_lt] at hask
    exact h.keptOut hask.1 (not_lt.mpr hask.2.1) hask.2.2

theorem PiTaught.init (waybeam : Waybeam) (now gen : ℕ) :
    PiTaught F cfg (PiState.init cfg now gen) ⟨waybeam, []⟩ := by
  refine ⟨⟨refusedOnce_nil, ?_, ?_, fun happlied => absurd rfl happlied⟩,
    fun happlied => absurd rfl happlied⟩
  · rw [PiState.curDiv, PiState.knows, PiState.init]
    dsimp only
    split_ifs with hmax
    · rfl
    · simp [reckoned, hmax]
  · intro hdiv
    by_contra hmax
    simp [PiState.init] at hdiv hmax
    omega

/-- Parts of a pass that leave the stage, the rates and waybeam's divisor alone. -/
theorem PiReady.of_sameStage {s' : PiState} {w' : FlooredWaybeam} (h : PiReady F cfg s w)
    (hs : SameStage s s') (hasked : w'.asked = w.asked)
    (hdiv : w'.waybeam.fpsDivisor = w.waybeam.fpsDivisor) : PiReady F cfg s' w' := by
  have hknows : s'.knows = s.knows := by
    rw [PiState.knows, PiState.knows, hs.div, hs.divMax]
  refine ⟨⟨?_, ?_, ?_, ?_⟩, ?_⟩
  · rw [hasked]
    exact h.refusedOnce
  · rw [hknows, hs.curDiv, hdiv]
    exact h.curDiv
  · rw [hs.div, hs.divMax]
    exact h.unknown
  · rw [hs.appliedKbps, hs.divMax, hdiv]
    exact h.applied
  · rw [hknows, hs.floorKbps, hasked]
    exact h.keptOut

theorem not_isMissing_of_isSuccess {status : ℤ} (h : isSuccess status = true) :
    isMissing status = false := by
  simp only [isSuccess, decide_eq_true_eq] at h
  simp only [isMissing, decide_eq_false_iff_not]
  omega

/-- A startup reset that is not refused: waybeam is at the full frame rate. -/
theorem PiReady.startup (hok : ∀ w q, isSuccess (ok w q) = true) (h : PiReady F cfg s w) {now : ℕ}
    (hfloor : s.div = none → piFocusRetryMs ≤ now - s.divTryMs →
      s.floorKbps = 0 ∨ F ≤ s.floorKbps) :
    PiReady F cfg (s.startupDivisor (FlooredWaybeam.request F ok) now w).1
      (s.startupDivisor (FlooredWaybeam.request F ok) now w).2 := by
  rw [PiState.startupDivisor]
  split_ifs with hdue
  · have hask : s.floorKbps = 0 ∨ F ≤ s.floorKbps := hfloor hdue.1 hdue.2
    have hmax : 1 < s.divMax := h.unknown hdue.1
    have hunknown : s.knows = false := by simp [PiState.knows, hdue.1]
    have hout := h.keptOut
    rw [hunknown] at hout
    have hout' := hout.know h.refusedOnce hask true
    have hreq : ∃ asked, w.request F ok (setFpsDiv 1 s.floorKbps) =
        (ok w (setFpsDiv 1 s.floorKbps),
          ⟨w.waybeam.apply (setFpsDiv 1 s.floorKbps), asked⟩) ∧
        RefusedOnce F asked ∧ KeptOut true s.floorKbps cfg.maxKbps asked := by
      -- without a floor the request names no rate, and cannot be refused
      by_cases hzero : s.floorKbps = 0
      · refine ⟨w.asked, request_rateless ?_, h.refusedOnce, hout'⟩
        simp [setFpsDiv, hzero]
      · have hge : F / 1 ≤ s.floorKbps := by
          rw [Nat.div_one]
          exact hask.resolve_left hzero
        refine ⟨_, request_accepted ?_ hge, h.refusedOnce.accepted hge, hout'.accepted⟩
        simp [setFpsDiv, hzero]
    obtain ⟨asked, hreq, hasked, hkept⟩ := hreq
    dsimp only
    rw [hreq, PiState.afterStartup, if_neg (by simp [not_isMissing_of_isSuccess (hok _ _)]),
      if_pos (hok _ _)]
    refine ⟨⟨hasked, ?_, fun hnone => by simp at hnone, fun _ hnot => absurd hmax hnot⟩, ?_⟩
    · simp [PiState.knows, PiState.curDiv, reckoned, Waybeam.apply, setFpsDiv]
    · simpa [PiState.knows, hmax] using hkept
  · exact h

theorem PiReady.begin (hok : ∀ w q, isSuccess (ok w q) = true) (h : PiReady F cfg s w)
    {inp : PiInput} (hfloor : s.div = none → piFocusRetryMs ≤ inp.now - s.divTryMs →
      s.floorKbps = 0 ∨ F ≤ s.floorKbps) :
    PiReady F cfg (s.begin (FlooredWaybeam.request F ok) cfg s.ringGen inp w).1
      (s.begin (FlooredWaybeam.request F ok) cfg s.ringGen inp w).2 := by
  rw [PiState.begin, PiState.seeGeneration]
  dsimp only
  rw [if_neg (fun hne => hne rfl)]
  have hstart : PiReady F cfg { s with lastTickMs := inp.now } w :=
    h.of_sameStage ⟨rfl, rfl, rfl, rfl⟩ rfl rfl
  exact (hstart.startup hok hfloor).of_sameStage (readCapacity_sameStage cfg _ inp) rfl rfl

/-- A focus request sets no rate and no divisor. -/
theorem piFocus_asked (now : ℕ) :
    (s.piFocus (FlooredWaybeam.request F ok) cfg now w).2.asked = w.asked ∧
      (s.piFocus (FlooredWaybeam.request F ok) cfg now w).2.waybeam.fpsDivisor =
        w.waybeam.fpsDivisor := by
  rw [PiState.piFocus]
  dsimp only
  split_ifs <;> exact ⟨rfl, rfl⟩

theorem PiReady.beforeTarget (hok : ∀ w q, isSuccess (ok w q) = true) (h : PiReady F cfg s w)
    {inp : PiInput} (hfloor : s.div = none → piFocusRetryMs ≤ inp.now - s.divTryMs →
      s.floorKbps = 0 ∨ F ≤ s.floorKbps) :
    PiReady F cfg (s.beforeTarget (FlooredWaybeam.request F ok) cfg s.ringGen inp w).1
      (s.beforeTarget (FlooredWaybeam.request F ok) cfg s.ringGen inp w).2.2 := by
  obtain ⟨hasked, hdiv⟩ := @piFocus_asked F ok cfg
    ((s.begin (FlooredWaybeam.request F ok) cfg s.ringGen inp w).1.observe cfg inp).1
    (s.begin (FlooredWaybeam.request F ok) cfg s.ringGen inp w).2 inp.now
  exact (h.begin hok hfloor).of_sameStage (beforeTarget_sameStage cfg s _ inp w) hasked hdiv

theorem knows_of_chooseDiv_ne {now : ℕ} (h : (s.chooseDiv cfg now).1 ≠ s.curDiv) :
    s.knows = true := by
  rw [PiState.chooseDiv] at h
  split_ifs at h with hknows <;> simp_all [PiState.knows, Option.isSome_iff_ne_none]

/-- Another stage, at no less than its floor. -/
theorem PiReady.sendStage (hok : ∀ w q, isSuccess (ok w q) = true) (h : PiReady F cfg s w)
    (hknows : s.knows = true) {now wantDiv t : ℕ}
    (ht : min (s.floorKbps / wantDiv) cfg.maxKbps ≤ t) :
    PiTaught F cfg (s.sendStage (FlooredWaybeam.request F ok) now wantDiv t w).1
      (s.sendStage (FlooredWaybeam.request F ok) now wantDiv t w).2 := by
  have hmax : 1 < s.divMax := by
    simp only [PiState.knows, Bool.and_eq_true, decide_eq_true_eq] at hknows
    exact hknows.2
  have hout := h.keptOut
  rw [hknows] at hout
  rw [PiState.sendStage]
  dsimp only
  -- a stage without a rate ends like an accepted one
  have haccepted (asked : List RateRequest) (hasked : RefusedOnce F asked) :
      PiTaught F cfg (s.afterStage now wantDiv t (ok w (setFpsDiv wantDiv t)))
        ⟨w.waybeam.apply (setFpsDiv wantDiv t), asked⟩ := by
    rw [PiState.afterStage, if_neg (by simp [not_isMissing_of_isSuccess (hok _ _)]),
      if_pos (hok _ _)]
    refine ⟨⟨hasked, ?_, fun hnone => by simp at hnone, fun _ hnot => absurd hmax hnot⟩,
      fun _ hnot => absurd hmax hnot⟩
    simp [PiState.knows, PiState.curDiv, reckoned, Waybeam.apply, setFpsDiv, hmax]
  by_cases hzero : t = 0
  · rw [request_rateless (by simp [setFpsDiv, hzero])]
    exact haccepted _ h.refusedOnce
  have hrate : (setFpsDiv wantDiv t).bitrate = some t := by simp [setFpsDiv, hzero]
  rcases Nat.lt_or_ge t (F / wantDiv) with hlt | hge
  · rw [request_refused hrate hlt, PiState.afterStage,
      if_neg (show ¬ isMissing 409 = true by decide),
      if_neg (show ¬ isSuccess 409 = true by decide)]
    exact ⟨⟨h.refusedOnce.refused hlt (hout.above ht), h.curDiv, h.unknown,
      fun _ hnot => absurd hmax hnot⟩, fun _ hnot => absurd hmax hnot⟩
  · rw [request_accepted hrate hge]
    exact haccepted _ (h.refusedOnce.accepted hge)

/-- The state after a rate request with the answer `status`. -/
theorem PiAsked.afterRate {w' : FlooredWaybeam} (h : PiAsked F s w) {now kbps floorKbps : ℕ}
    {status : ℤ} (hasked : RefusedOnce F w'.asked)
    (hdiv : w'.waybeam.fpsDivisor = w.waybeam.fpsDivisor)
    (haccepted : isSuccess status = true → F / w.waybeam.fpsDivisor ≤ kbps)
    (hout : (s.appliedKbps ≠ 0 ∨ isSuccess status = true) → ¬ 1 < s.divMax →
      F / w.waybeam.fpsDivisor ≤ cfg.maxKbps → KeptOut s.knows floorKbps cfg.maxKbps w'.asked) :
    PiTaught F cfg (s.afterRate now kbps floorKbps status) w' := by
  rw [PiState.afterRate]
  split_ifs with hsuccess
  · refine ⟨⟨hasked, h.curDiv.trans (by rw [hdiv]; rfl), h.unknown, fun _ _ => ?_⟩,
      fun _ hmax hwithin => hout (.inr hsuccess) hmax (hdiv ▸ hwithin)⟩
    rw [hdiv]
    exact haccepted hsuccess
  · refine ⟨⟨hasked, h.curDiv.trans (by rw [hdiv]; rfl), h.unknown, fun happlied hmax => ?_⟩,
      fun happlied hmax hwithin => hout (.inl happlied) hmax (hdiv ▸ hwithin)⟩
    rw [hdiv]
    exact h.applied happlied hmax

/-- A rate, at no less than the floor in force. -/
theorem PiReady.sendRate (hF : F < 2 ^ 32) (hok : ∀ w q, isSuccess (ok w q) = true)
    (h : PiReady F cfg s w) {now t : ℕ} (ht : min (s.floorKbps / s.curDiv) cfg.maxKbps ≤ t) :
    PiTaught F cfg (s.sendRate (FlooredWaybeam.request F ok) now t w).1
      (s.sendRate (FlooredWaybeam.request F ok) now t w).2 := by
  have habove := h.keptOut.above (d := w.waybeam.fpsDivisor) (h.curDiv ▸ ht)
  rw [PiState.sendRate]
  split_ifs with hcut
  · have hloop := @RefusedOnce.cutLoop F ok w _ s.appliedKbps s.curDiv 5 t s.floorKbps 0
      h.refusedOnce hok rfl (by decide) habove
    refine h.toPiAsked.afterRate hloop.refusedOnce hloop.div hloop.accepted fun _ hmax hwithin => ?_
    -- without stages the controller reckons with the full frame rate
    have hknows : s.knows = false := by simp [PiState.knows, hmax]
    have hdiv : s.curDiv = 1 := by rw [h.curDiv, hknows]; rfl
    have hout := h.keptOut
    rw [hknows] at hout ⊢
    rw [hdiv, Nat.div_one] at ht
    rw [hdiv]
    exact hout.cutLoop hF hok rfl hwithin fun hlt => by omega
  · dsimp only
    rcases Nat.lt_or_ge t (F / w.waybeam.fpsDivisor) with hlt | hge
    · rw [@request_refused F ok w (setBitrate t) t rfl hlt]
      refine h.toPiAsked.afterRate (h.refusedOnce.refused hlt habove) rfl
        (fun hsuccess => absurd rfl (ne_409_of_isSuccess hsuccess)) fun happlied hmax _ => ?_
      -- a rate that is not lower than the one applied is not refused
      have hne := happlied.resolve_right fun hsuccess => ne_409_of_isSuccess hsuccess rfl
      have hge := h.applied hne hmax
      exact absurd ⟨hne, hlt.trans_le hge⟩ hcut
    · rw [@request_accepted F ok w (setBitrate t) t rfl hge]
      exact h.toPiAsked.afterRate (h.refusedOnce.accepted hge) rfl (fun _ => hge)
        fun _ _ _ => h.keptOut.accepted

theorem PiReady.sendTarget (hF : F < 2 ^ 32) (hok : ∀ w q, isSuccess (ok w q) = true)
    (h : PiReady F cfg s w) {now : ℕ} {dt : ℚ} {why : Option Disturbance} :
    PiTaught F cfg (s.sendTarget (FlooredWaybeam.request F ok) cfg now dt why w).1
      (s.sendTarget (FlooredWaybeam.request F ok) cfg now dt why w).2 := by
  have hsince : PiReady F cfg { s with divUpSinceMs := (s.chooseDiv cfg now).2 } w :=
    h.of_sameStage ⟨rfl, rfl, rfl, rfl⟩ rfl rfl
  have ht := @le_targetKbps cfg { s with divUpSinceMs := (s.chooseDiv cfg now).2 } dt
    (s.chooseDiv cfg now).1
  rw [PiState.sendTarget]
  split_ifs with hne hsmall
  · have hknows : s.knows = true := @knows_of_chooseDiv_ne cfg s now hne
    exact hsince.sendStage hok hknows ht
  · exact hsince.piTaught
  · rw [not_not.mp hne] at ht ⊢
    exact hsince.sendRate hF hok ht

/-- **One pass** of `run_pi`. -/
theorem PiTaught.piTick (hF : F < 2 ^ 32) (hok : ∀ w q, isSuccess (ok w q) = true)
    (h : PiTaught F cfg s w) {inp : PiInput} (hkeeps : PiKeepsOut F cfg (s, w) inp) :
    PiTaught F cfg (piTick (FlooredWaybeam.request F ok) cfg s s.ringGen inp w).1
      (piTick (FlooredWaybeam.request F ok) cfg s s.ringGen inp w).2 := by
  obtain ⟨hfloor, hout⟩ := hkeeps
  have hready := h.ready hout
  rw [piTick_eq]
  split_ifs with hcap
  · exact (hready.begin hok hfloor).piTaught
  · exact (hready.beforeTarget hok hfloor).sendTarget hF hok

/-- A run of `run_pi` that keeps out what was refused. -/
theorem PiTaught.run (hF : F < 2 ^ 32) (hok : ∀ w q, isSuccess (ok w q) = true)
    {waybeam : Waybeam} {now gen : ℕ} {inps : List PiInput}
    (hkeeps : Always (fun past inp =>
      PiKeepsOut F cfg (piFlooredRun F ok cfg waybeam now gen past) inp) inps) :
    PiTaught F cfg (piFlooredRun F ok cfg waybeam now gen inps).1
      (piFlooredRun F ok cfg waybeam now gen inps).2 := by
  induction inps using List.reverseRecOn with
  | nil => exact PiTaught.init waybeam now gen
  | append_singleton inps inp ih =>
    obtain ⟨hpast, hlast⟩ := always_concat_iff.mp hkeeps
    rw [piFlooredRun, List.foldl_append]
    exact PiTaught.piTick hF hok (ih hpast) hlast

end Pi

/-! ### The rules -/

/-- The factors of the cuts that do not follow the link. -/
def RulesConfig.backoffs (cfg : RulesConfig) : List ℚ :=
  [cfg.ringBackoff, cfg.ldpcBackoff, cfg.retxEventBackoff, cfg.severeBackoff]

section Rules

variable (F : ℕ) (ok : FlooredWaybeam → LiveSet → ℤ) (cfg : RulesConfig)

/-- A run of `run_rules`. -/
def rulesFlooredRun (waybeam : Waybeam) (inps : List RulesInput) : RulesState × FlooredWaybeam :=
  inps.foldl (fun x inp => rulesTick (FlooredWaybeam.request F ok) cfg x.1 inp x.2)
    (RulesState.init cfg, ⟨waybeam, []⟩)

/-- Before a pass: as long as there is no rate, or with a maximum below waybeam's floor, nothing
was refused, and no backoff comes out lower than the rate. -/
def RulesKeepsOut (x : RulesState × FlooredWaybeam) : Prop :=
  x.1.haveApplied = false ∨ cfg.maxKbps < F / x.2.waybeam.fpsDivisor →
    (∀ e ∈ x.2.asked, e.refused = false) ∧
      ∀ factor ∈ cfg.backoffs, x.1.lastAppliedKbps ≤ x.1.backoffTarget cfg factor

instance (x : RulesState × FlooredWaybeam) : Decidable (RulesKeepsOut F cfg x) :=
  inferInstanceAs (Decidable (_ → (∀ e ∈ _, _) ∧ ∀ factor ∈ _, _))

variable {F ok cfg} {s : RulesState} {w : FlooredWaybeam}

/-- What holds between the passes: waybeam takes the rate that is applied, and what was refused is
kept out. -/
structure RulesTaught (F : ℕ) (cfg : RulesConfig) (s : RulesState) (w : FlooredWaybeam) :
    Prop where
  refusedOnce : RefusedOnce F w.asked
  applied : s.haveApplied = true → F / w.waybeam.fpsDivisor ≤ s.lastAppliedKbps
  keptOut : s.haveApplied = true → F / w.waybeam.fpsDivisor ≤ cfg.maxKbps →
    KeptOut false s.floorKbps cfg.maxKbps w.asked

/-- What holds within a pass once there is a rate. A cut that waybeam may refuse is one from which
the controller can learn. -/
structure RulesReady (F : ℕ) (cfg : RulesConfig) (s : RulesState) (w : FlooredWaybeam) :
    Prop where
  haveApplied : s.haveApplied = true
  refusedOnce : RefusedOnce F w.asked
  applied : F / w.waybeam.fpsDivisor ≤ s.lastAppliedKbps
  keptOut : KeptOut false s.floorKbps cfg.maxKbps w.asked
  within : F / w.waybeam.fpsDivisor ≤ cfg.maxKbps ∨
    ∀ factor ∈ cfg.backoffs, s.lastAppliedKbps ≤ s.backoffTarget cfg factor

theorem RulesReady.rulesTaught (h : RulesReady F cfg s w) : RulesTaught F cfg s w :=
  ⟨h.refusedOnce, fun _ => h.applied, fun _ _ => h.keptOut⟩

/-- Without a rate there is nothing that waybeam must have taken. -/
theorem RulesTaught.of_not_applied (hasked : RefusedOnce F w.asked)
    (happlied : s.haveApplied = false) : RulesTaught F cfg s w :=
  ⟨hasked, fun h => absurd (happlied.symm.trans h) Bool.false_ne_true,
    fun h => absurd (happlied.symm.trans h) Bool.false_ne_true⟩

/-- Parts of a pass that leave the rates and waybeam's divisor alone. -/
theorem RulesReady.of_eq {s' : RulesState} {w' : FlooredWaybeam} (h : RulesReady F cfg s w)
    (happlied : s'.haveApplied = s.haveApplied) (hlast : s'.lastAppliedKbps = s.lastAppliedKbps)
    (hfloor : s'.floorKbps = s.floorKbps) (hasked : w'.asked = w.asked)
    (hdiv : w'.waybeam.fpsDivisor = w.waybeam.fpsDivisor) : RulesReady F cfg s' w' := by
  refine ⟨happlied.trans h.haveApplied, ?_, ?_, ?_, ?_⟩
  · rw [hasked]
    exact h.refusedOnce
  · rw [hdiv, hlast]
    exact h.applied
  · rw [hfloor, hasked]
    exact h.keptOut
  · simp only [RulesState.backoffTarget, hdiv, hlast, hfloor]
    exact h.within

/-- A backoff that comes out lower is one from which the controller can learn. -/
theorem RulesReady.le_maxKbps (h : RulesReady F cfg s w) {factor : ℚ}
    (hfactor : factor ∈ cfg.backoffs) (hlt : s.backoffTarget cfg factor < s.lastAppliedKbps) :
    F / w.waybeam.fpsDivisor ≤ cfg.maxKbps :=
  h.within.resolve_right fun hnone => absurd hlt (Nat.not_lt.mpr (hnone factor hfactor))

/-- A target is above all that was refused. -/
theorem RulesReady.above (h : RulesReady F cfg s w) (v : ℕ) :
    ∀ a ∈ w.asked, a.refused = true → a.div = w.waybeam.fpsDivisor →
      a.kbps < clampU32 v s.floorKbps cfg.maxKbps := by
  refine h.keptOut.above ?_
  rw [show reckoned false w.waybeam.fpsDivisor = 1 from rfl, Nat.div_one, clampU32]
  split_ifs <;> omega

/-- What waybeam refuses of a target is not below the learned floor. -/
theorem floorKbps_le_clampU32 {v floorKbps maxKbps d : ℕ} (hmax : F / d ≤ maxKbps)
    (hlt : clampU32 v floorKbps maxKbps < F / d) : floorKbps ≤ clampU32 v floorKbps maxKbps := by
  rw [clampU32] at hlt ⊢
  split_ifs at hlt ⊢ <;> omega

/-! ### Ring backlog -/

theorem RulesReady.abortRoi (h : RulesReady F cfg s w) (now : ℕ) :
    RulesReady F cfg (s.abortRoi (FlooredWaybeam.request F ok) now w).1
      (s.abortRoi (FlooredWaybeam.request F ok) now w).2 := by
  rw [RulesState.abortRoi]
  dsimp only
  split_ifs
  · exact h.of_eq rfl rfl rfl rfl rfl
  · exact h.of_eq rfl rfl rfl rfl rfl
  · exact h

/-- The urgent request, with a rate that waybeam may refuse if the controller can learn from it. -/
theorem RulesReady.afterUrgent (hF : F < 2 ^ 32) (hok : ∀ w q, isSuccess (ok w q) = true)
    (h : RulesReady F cfg s w) {now v : ℕ} {cut roi : Bool}
    (hwithin : cut = true → F / w.waybeam.fpsDivisor ≤ cfg.maxKbps) :
    let target := clampU32 v s.floorKbps cfg.maxKbps
    RulesReady F cfg
      (s.afterUrgent cfg now target cut roi (w.request F ok (urgentRequest target cut roi)).1)
      (w.request F ok (urgentRequest target cut roi)).2 := by
  have habove := h.above v
  intro target
  rw [RulesState.afterUrgent]
  cases cut with
  | false =>
    rw [@request_rateless F ok w (urgentRequest target false roi) rfl, if_pos (hok _ _)]
    cases roi <;> exact h.of_eq rfl rfl rfl rfl rfl
  | true =>
    have hmax := hwithin rfl
    rcases Nat.lt_or_ge target (F / w.waybeam.fpsDivisor) with hlt | hge
    · have hsmall : target < F := hlt.trans_le (Nat.div_le_self _ _)
      have hlearn : s.floorKbps ≤ target := floorKbps_le_clampU32 hmax hlt
      rw [@request_refused F ok w (urgentRequest target true roi) target rfl hlt,
        if_neg (show ¬ isSuccess 409 = true by decide), if_pos rfl,
        learnFloor_409 (by omega) hlearn]
      exact ⟨h.haveApplied, h.refusedOnce.refused hlt habove, h.applied,
        h.keptOut.refused hlt hmax hlearn, .inl hmax⟩
    · rw [@request_accepted F ok w (urgentRequest target true roi) target rfl hge,
        if_pos (hok _ _), if_pos rfl]
      cases roi <;>
        exact ⟨h.haveApplied, h.refusedOnce.accepted hge, hge, h.keptOut.accepted, .inl hmax⟩

theorem RulesReady.urgent (hF : F < 2 ^ 32) (hok : ∀ w q, isSuccess (ok w q) = true)
    (h : RulesReady F cfg s w) (now : ℕ) :
    RulesReady F cfg (s.urgent (FlooredWaybeam.request F ok) cfg now w).1
      (s.urgent (FlooredWaybeam.request F ok) cfg now w).2 := by
  rw [RulesState.urgent]
  dsimp only
  generalize hs : ({ s with
    lastBacklogMs := now, congestedUntilMs := now + congestedHoldMs } : RulesState) = s₁
  have h₁ : RulesReady F cfg s₁ w := by
    rw [← hs]
    exact h.of_eq rfl rfl rfl rfl rfl
  have habort := @RulesReady.abortRoi F ok cfg s₁ w h₁ now
  have hdiv : (s₁.abortRoi (FlooredWaybeam.request F ok) now w).2.waybeam.fpsDivisor =
      w.waybeam.fpsDivisor := by
    rw [RulesState.abortRoi]
    split_ifs <;> rfl
  have hfloor := @abortRoi_floorKbps FlooredWaybeam (FlooredWaybeam.request F ok) s₁ now w
  split
  · have hurgent := @RulesReady.afterUrgent F ok cfg _ _ hF hok habort now
      (truncate (s₁.lastAppliedKbps * cfg.ringBackoff)) (s₁.cutDue cfg now)
      ((s₁.abortRoi (FlooredWaybeam.request F ok) now w).1.turnsRoiOn cfg) fun hcut => by
        rw [RulesState.cutDue, decide_eq_true_eq] at hcut
        rw [hdiv]
        exact h₁.le_maxKbps (by simp [RulesConfig.backoffs]) hcut.1
    rwa [hfloor] at hurgent
  · exact habort

theorem RulesReady.recoverRoi (h : RulesReady F cfg s w) (now : ℕ) :
    RulesReady F cfg (s.recoverRoi (FlooredWaybeam.request F ok) cfg now w).1
      (s.recoverRoi (FlooredWaybeam.request F ok) cfg now w).2 := by
  rw [RulesState.recoverRoi]
  split_ifs
  · exact h.of_eq rfl rfl rfl rfl rfl
  · exact h

theorem RulesReady.checkRing (hF : F < 2 ^ 32) (hok : ∀ w q, isSuccess (ok w q) = true)
    (h : RulesReady F cfg s w) (inp : RulesInput) :
    RulesReady F cfg (s.checkRing (FlooredWaybeam.request F ok) cfg inp w).1
      (s.checkRing (FlooredWaybeam.request F ok) cfg inp w).2 := by
  rw [RulesState.checkRing]
  split
  · exact h
  · split_ifs
    · exact h.urgent hF hok _
    · exact h.recoverRoi _
    · exact h

/-! ### Lost blocks and retransmissions -/

/-- A cut to a target. -/
theorem RulesReady.cutAsked (hok : ∀ w q, isSuccess (ok w q) = true)
    (h : RulesReady F cfg s w) (v : ℕ) :
    CutAsked F w.waybeam.fpsDivisor (applyCut (FlooredWaybeam.request F ok)
      (clampU32 v s.floorKbps cfg.maxKbps) s.lastAppliedKbps s.floorKbps 1 w) :=
  h.refusedOnce.cutLoop hok rfl (by decide) (h.above v)

/-- A cut from which the controller can learn keeps out what is refused of it. -/
theorem RulesReady.cutKeptOut (hF : F < 2 ^ 32) (hok : ∀ w q, isSuccess (ok w q) = true)
    (h : RulesReady F cfg s w) (v : ℕ) (hmax : F / w.waybeam.fpsDivisor ≤ cfg.maxKbps) :
    let r := applyCut (FlooredWaybeam.request F ok) (clampU32 v s.floorKbps cfg.maxKbps)
      s.lastAppliedKbps s.floorKbps 1 w
    KeptOut false r.floorKbps cfg.maxKbps r.ctx.asked :=
  h.keptOut.cutLoop hF hok rfl hmax (floorKbps_le_clampU32 hmax)

theorem afterCut_rates {now kbps floorKbps : ℕ} {status : ℤ} :
    (s.afterCut now kbps floorKbps status).haveApplied = s.haveApplied ∧
      (s.afterCut now kbps floorKbps status).lastAppliedKbps =
        if isSuccess status then kbps else s.lastAppliedKbps := by
  rw [RulesState.afterCut]
  split_ifs <;> exact ⟨rfl, rfl⟩

/-- What waybeam takes after a cut. -/
theorem RulesReady.applied_afterCut (h : RulesReady F cfg s w) {r : CutResult FlooredWaybeam}
    (hr : CutAsked F w.waybeam.fpsDivisor r) (now : ℕ) :
    F / r.ctx.waybeam.fpsDivisor ≤
      (s.afterCut now r.kbps r.floorKbps r.status).lastAppliedKbps := by
  rw [hr.div, afterCut_rates.2]
  split_ifs with hsuccess
  · exact hr.accepted hsuccess
  · exact h.applied

theorem RulesReady.fastCut (hF : F < 2 ^ 32) (hok : ∀ w q, isSuccess (ok w q) = true)
    (h : RulesReady F cfg s w) (now : ℕ) {factor : ℚ} (hfactor : factor ∈ cfg.backoffs) :
    RulesReady F cfg (s.fastCut (FlooredWaybeam.request F ok) cfg now factor w).1
      (s.fastCut (FlooredWaybeam.request F ok) cfg now factor w).2 := by
  rw [RulesState.fastCut]
  split_ifs with hlt
  · have hmax := h.le_maxKbps hfactor hlt
    have hcut := h.cutAsked hok (truncate (s.lastAppliedKbps * factor))
    have hout := h.cutKeptOut hF hok (truncate (s.lastAppliedKbps * factor)) hmax
    refine ⟨afterCut_rates.1.trans h.haveApplied, hcut.refusedOnce, h.applied_afterCut hcut now, ?_,
      .inl (hcut.div.symm ▸ hmax)⟩
    dsimp only
    rw [afterCut_floorKbps]
    exact hout
  · exact h

theorem RulesReady.checkLdpc (hF : F < 2 ^ 32) (hok : ∀ w q, isSuccess (ok w q) = true)
    (h : RulesReady F cfg s w) (inp : RulesInput) :
    RulesReady F cfg (s.checkLdpc (FlooredWaybeam.request F ok) cfg inp w).1
      (s.checkLdpc (FlooredWaybeam.request F ok) cfg inp w).2 := by
  have hread : RulesReady F cfg { s with lastLdpcApplyMs := inp.now } w :=
    h.of_eq rfl rfl rfl rfl rfl
  rw [RulesState.checkLdpc]
  split_ifs
  · dsimp only
    split
    · exact hread
    · split
      · refine hread.fastCut hF hok _ ?_
        split_ifs <;> simp [RulesConfig.backoffs]
      · exact hread
  · exact h

theorem RulesReady.checkRetx (hF : F < 2 ^ 32) (hok : ∀ w q, isSuccess (ok w q) = true)
    (h : RulesReady F cfg s w) (inp : RulesInput) :
    RulesReady F cfg (s.checkRetx (FlooredWaybeam.request F ok) cfg inp w).1
      (s.checkRetx (FlooredWaybeam.request F ok) cfg inp w).2 := by
  have hseen : RulesReady F cfg { s with
      lastSeenRetxTooMany := inp.retxTooManyNow, lastRetxEventApplyMs := inp.now } w :=
    h.of_eq rfl rfl rfl rfl rfl
  rw [RulesState.checkRetx]
  split
  · refine hseen.fastCut hF hok _ ?_
    split_ifs <;> simp [RulesConfig.backoffs]
  · exact h

/-! ### The link -/

/-- A rate that waybeam takes. -/
theorem RulesTaught.sendRate (hok : ∀ w q, isSuccess (ok w q) = true) {now kbps : ℕ}
    (hasked : RefusedOnce F w.asked) (hge : F / w.waybeam.fpsDivisor ≤ kbps)
    (hout : KeptOut false s.floorKbps cfg.maxKbps w.asked) :
    RulesTaught F cfg (s.sendRate (FlooredWaybeam.request F ok) now kbps w).1
      (s.sendRate (FlooredWaybeam.request F ok) now kbps w).2 := by
  rw [RulesState.sendRate]
  dsimp only
  rw [@request_accepted F ok w (setBitrate kbps) kbps rfl hge, RulesState.afterRate,
    if_pos (hok _ _)]
  exact ⟨hasked.accepted hge, fun _ => hge, fun _ _ => hout.accepted⟩

theorem lt_of_increase {now target kbps : ℕ} (h : s.increase cfg now target = some kbps) :
    s.lastAppliedKbps < kbps := by
  rw [RulesState.increase, Option.ite_none_left_eq_some] at h
  obtain ⟨-, h⟩ := h
  dsimp only at h
  rw [Option.ite_none_left_eq_some] at h
  obtain ⟨hlt, heq⟩ := h
  rw [← Option.some.inj heq]
  exact Nat.lt_of_not_le hlt

theorem RulesReady.afterLinkCut (h : RulesReady F cfg s w) {r : CutResult FlooredWaybeam}
    (hr : CutAsked F w.waybeam.fpsDivisor r)
    (hout : F / w.waybeam.fpsDivisor ≤ cfg.maxKbps →
      KeptOut false r.floorKbps cfg.maxKbps r.ctx.asked) (now : ℕ) :
    RulesTaught F cfg (s.afterLinkCut now r.kbps r.floorKbps r.status) r.ctx := by
  have happlied := h.applied_afterCut hr now
  have hlast : (s.afterLinkCut now r.kbps r.floorKbps r.status).lastAppliedKbps =
      (s.afterCut now r.kbps r.floorKbps r.status).lastAppliedKbps := by
    rw [RulesState.afterLinkCut]
    split_ifs <;> rfl
  refine ⟨hr.refusedOnce, fun _ => hlast ▸ happlied, fun _ hmax => ?_⟩
  rw [afterLinkCut_floorKbps]
  exact hout (hr.div ▸ hmax)

theorem RulesReady.followLink (hF : F < 2 ^ 32) (hok : ∀ w q, isSuccess (ok w q) = true)
    (h : RulesReady F cfg s w) (now linkKbps : ℕ) :
    RulesTaught F cfg
      (s.followLink (FlooredWaybeam.request F ok) cfg now (s.linkTarget cfg linkKbps) w).1
      (s.followLink (FlooredWaybeam.request F ok) cfg now (s.linkTarget cfg linkKbps) w).2 := by
  rw [RulesState.followLink, if_neg (by simp [h.haveApplied])]
  split_ifs
  · exact h.rulesTaught
  · exact h.rulesTaught
  · exact h.afterLinkCut (h.cutAsked hok _) (h.cutKeptOut hF hok _) now
  · split
    · exact h.rulesTaught
    · next hincrease =>
      exact RulesTaught.sendRate hok h.refusedOnce
        (h.applied.trans (lt_of_increase hincrease).le) h.keptOut

theorem seeLink_rates (now linkKbps : ℕ) :
    (s.seeLink cfg now linkKbps).haveApplied = s.haveApplied ∧
      (s.seeLink cfg now linkKbps).lastAppliedKbps = s.lastAppliedKbps := by
  rw [RulesState.seeLink]
  split_ifs <;> exact ⟨rfl, rfl⟩

theorem RulesReady.checkLink (hF : F < 2 ^ 32) (hok : ∀ w q, isSuccess (ok w q) = true)
    (h : RulesReady F cfg s w) (inp : RulesInput) :
    RulesTaught F cfg (s.checkLink (FlooredWaybeam.request F ok) cfg inp w).1
      (s.checkLink (FlooredWaybeam.request F ok) cfg inp w).2 := by
  rw [RulesState.checkLink]
  split_ifs
  · exact h.rulesTaught
  · dsimp only
    split
    · exact ⟨h.refusedOnce, fun _ => h.applied, fun _ _ => h.keptOut⟩
    · next linkKbps _ =>
      refine RulesReady.followLink hF hok ?_ _ _
      exact h.of_eq (seeLink_rates _ _).1 (seeLink_rates _ _).2 (seeLink_floorKbps _ _ _ _) rfl rfl

/-- Without a rate there is nothing to cut: a pass only follows the link. -/
theorem rulesTick_of_not_applied {σ : Type*} {send : σ → LiveSet → ℤ × σ} {ctx : σ}
    (h : s.haveApplied = false) (inp : RulesInput) :
    rulesTick send cfg s inp ctx = (s.countRetx inp).checkLink send cfg inp ctx := by
  have hring : s.checkRing send cfg inp ctx = (s, ctx) := by
    rw [RulesState.checkRing]
    split
    · rfl
    · exact if_neg (by simp [h])
  have hldpc : s.checkLdpc send cfg inp ctx = (s, ctx) := if_neg (by simp [h])
  have hretx : (s.countRetx inp).checkRetx send cfg inp ctx = (s.countRetx inp, ctx) := by
    refine if_neg ?_
    simp [RulesState.countRetx, h]
  rw [rulesTick, hring]
  dsimp only
  rw [hldpc]
  dsimp only
  rw [hretx]

theorem RulesReady.countRetx (h : RulesReady F cfg s w) (inp : RulesInput) :
    RulesReady F cfg (s.countRetx inp) w :=
  h.of_eq rfl rfl rfl rfl rfl

/-- The first rate: if waybeam refuses it, there is still none. -/
theorem RulesTaught.firstRate (hok : ∀ w q, isSuccess (ok w q) = true)
    (hasked : RefusedOnce F w.asked) (happlied : s.haveApplied = false)
    (hnone : ∀ e ∈ w.asked, e.refused = false) (now kbps : ℕ) :
    RulesTaught F cfg (s.sendRate (FlooredWaybeam.request F ok) now kbps w).1
      (s.sendRate (FlooredWaybeam.request F ok) now kbps w).2 := by
  rcases Nat.lt_or_ge kbps (F / w.waybeam.fpsDivisor) with hlt | hge
  · rw [RulesState.sendRate]
    dsimp only
    rw [@request_refused F ok w (setBitrate kbps) kbps rfl hlt, RulesState.afterRate,
      if_neg (show ¬ isSuccess 409 = true by decide)]
    refine RulesTaught.of_not_applied (hasked.refused hlt fun a ha href => ?_) happlied
    exact absurd ((hnone a ha).symm.trans href) Bool.false_ne_true
  · exact RulesTaught.sendRate hok hasked hge (keptOut_of_not_refused hnone)

theorem RulesTaught.checkLink (hok : ∀ w q, isSuccess (ok w q) = true)
    (hasked : RefusedOnce F w.asked) (happlied : s.haveApplied = false)
    (hnone : ∀ e ∈ w.asked, e.refused = false) (inp : RulesInput) :
    RulesTaught F cfg (s.checkLink (FlooredWaybeam.request F ok) cfg inp w).1
      (s.checkLink (FlooredWaybeam.request F ok) cfg inp w).2 := by
  rw [RulesState.checkLink, if_neg (by simp [happlied])]
  dsimp only
  split
  · exact RulesTaught.of_not_applied hasked happlied
  · next linkKbps _ =>
    have hfirst := (@seeLink_rates cfg { s with
      lastSeenWake := inp.wake, lastMcsPollMs := inp.now } inp.now linkKbps).1.trans happlied
    rw [RulesState.followLink, if_pos hfirst]
    exact RulesTaught.firstRate hok hasked hfirst hnone _ _

/-! ### Runs -/

/-- **One pass** of `run_rules`. -/
theorem RulesTaught.rulesTick (hF : F < 2 ^ 32) (hok : ∀ w q, isSuccess (ok w q) = true)
    (h : RulesTaught F cfg s w) (hkeeps : RulesKeepsOut F cfg (s, w)) (inp : RulesInput) :
    RulesTaught F cfg (rulesTick (FlooredWaybeam.request F ok) cfg s inp w).1
      (rulesTick (FlooredWaybeam.request F ok) cfg s inp w).2 := by
  cases happlied : s.haveApplied with
  | false =>
    rw [rulesTick_of_not_applied happlied]
    exact @RulesTaught.checkLink F ok cfg (s.countRetx inp) w hok h.refusedOnce happlied
      (hkeeps (.inl happlied)).1 inp
  | true =>
    have hready : RulesReady F cfg s w := by
      by_cases hmax : F / w.waybeam.fpsDivisor ≤ cfg.maxKbps
      · exact ⟨happlied, h.refusedOnce, h.applied happlied, h.keptOut happlied hmax, .inl hmax⟩
      · obtain ⟨hnone, hbackoffs⟩ := hkeeps (.inr (Nat.lt_of_not_le hmax))
        exact ⟨happlied, h.refusedOnce, h.applied happlied, keptOut_of_not_refused hnone,
          .inr hbackoffs⟩
    have hldpc := (hready.checkRing hF hok inp).checkLdpc hF hok inp
    exact ((hldpc.countRetx inp).checkRetx hF hok inp).checkLink hF hok inp

/-- A run of `run_rules` that keeps out what was refused. -/
theorem RulesTaught.run (hF : F < 2 ^ 32) (hok : ∀ w q, isSuccess (ok w q) = true)
    {waybeam : Waybeam} {inps : List RulesInput}
    (hkeeps : Always (fun past _ =>
      RulesKeepsOut F cfg (rulesFlooredRun F ok cfg waybeam past)) inps) :
    RulesTaught F cfg (rulesFlooredRun F ok cfg waybeam inps).1
      (rulesFlooredRun F ok cfg waybeam inps).2 := by
  induction inps using List.reverseRecOn with
  | nil => exact RulesTaught.of_not_applied refusedOnce_nil rfl
  | append_singleton inps inp ih =>
    obtain ⟨hpast, hlast⟩ := always_concat_iff.mp hkeeps
    rw [rulesFlooredRun, List.foldl_append]
    exact RulesTaught.rulesTick hF hok (ih hpast) hlast inp

end Rules

/-- **A refused rate is not asked for again**, as long as the controller keeps out what was
refused. -/
theorem refused_never_again {F : ℕ} (hF : F < 2 ^ 32) {ok : FlooredWaybeam → LiveSet → ℤ}
    (hok : ∀ w q, isSuccess (ok w q) = true) :
    (∀ cfg waybeam now gen inps,
      Always (fun past inp =>
        PiKeepsOut F cfg (piFlooredRun F ok cfg waybeam now gen past) inp) inps →
      NeverAgain (piFlooredRun F ok cfg waybeam now gen inps).2.asked) ∧
    ∀ cfg waybeam inps,
      Always (fun past _ =>
        RulesKeepsOut F cfg (rulesFlooredRun F ok cfg waybeam past)) inps →
      NeverAgain (rulesFlooredRun F ok cfg waybeam inps).2.asked := by
  constructor
  · intro cfg waybeam now gen inps hkeeps
    exact (PiTaught.run hF hok hkeeps).refusedOnce.neverAgain
  · intro cfg waybeam inps hkeeps
    exact (RulesTaught.run hF hok hkeeps).refusedOnce.neverAgain

/-- A pass of `run_pi` that only sees what the link carries. -/
def piLinkInput (now linkKbps : ℕ) : PiInput := ⟨now, 0, 0, 0, some linkKbps, 0, none, none⟩

/-- A link that drops: both controllers cut to a rate that is refused, learn from it and go on
halfway up. -/
theorem refused_never_again_drop :
    NeverAgain (piFlooredRun 1000 (fun _ _ => 200) .shipped ⟨8000, false, 1⟩ 980 0
        [piLinkInput 1000 4000, piLinkInput 1600 1600, piLinkInput 2700 1500]).2.asked ∧
      NeverAgain (rulesFlooredRun 1000 (fun _ _ => 200) .shipped ⟨8000, false, 1⟩
        [linkInput 1000 4000, linkInput 2000 1700]).2.asked := by
  obtain ⟨hpi, hrules⟩ := @refused_never_again 1000 (by decide) (fun _ _ => 200)
    (fun _ _ => by decide)
  exact ⟨hpi _ _ _ _ _ (by decide +kernel), hrules _ _ _ (by decide +kernel)⟩

/-- Rates that are asked for again: the first rate of the rules; the startup reset; and, at a
waybeam with the floor 2001, half the frame rate at 835 kbps, which the learned 1671 gives
again. -/
theorem not_neverAgain_unlearned :
    ¬ NeverAgain (rulesFlooredRun 1000 (fun _ _ => 200) .shipped ⟨8000, false, 1⟩
        [linkInput 1000 1700, linkInput 2000 1700]).2.asked ∧
      ¬ NeverAgain (piFlooredRun 1000 (fun _ _ => 200) { PiConfig.shipped with fpsDivMax := 4 }
        ⟨8000, false, 1⟩ 980 0 [piLinkInput 1000 0, piLinkInput 2000 0]).2.asked ∧
      ¬ NeverAgain (piFlooredRun 2001 (fun _ _ => 200)
        { PiConfig.shipped with fpsDivMax := 4, minKbps := 0 } ⟨8000, false, 1⟩ 980 0
        [piLinkInput 1000 4000, piLinkInput 1600 1600, piLinkInput 3700 700,
          piLinkInput 4700 700]).2.asked := by
  decide +kernel

end Ar8030
