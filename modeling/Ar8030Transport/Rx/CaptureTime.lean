import Ar8030Transport.Rx.Forward
import Mathlib.Tactic.NormNum.Pow

/-!
# The capture time behind its low 32 bits

A frame's header carries its capture time modulo `2 ^ 32`. `unwrapAirPts` takes the upper
half from the estimated reading of the air clock and moves the candidate by one wrap when it
lies more than half a wrap away. Nothing is lost as long as the estimate is within half a
wrap of the true capture time, and then the ground time in the timing SEI is the true
capture time less the offset.
-/

namespace Ar8030

/-! ### Putting the halves together -/

/-- Clearing the low 32 bits of a 64-bit value. -/
theorem land_clear_low {x : ℕ} (hx : x < 2 ^ 64) :
    x &&& 0xffffffff00000000 = x / 2 ^ 32 * 2 ^ 32 := by
  have hmask : (0xffffffff00000000 : ℕ) = (2 ^ 32 - 1) * 2 ^ 32 := by norm_num
  rw [hmask]
  refine Nat.eq_of_testBit_eq fun i => ?_
  rw [Nat.testBit_and, Nat.testBit_mul_two_pow, Nat.testBit_mul_two_pow,
    Nat.testBit_two_pow_sub_one, Nat.testBit_div_two_pow]
  by_cases hlow : 32 ≤ i
  · have hback : i - 32 + 32 = i := by omega
    by_cases hhigh : i < 64
    · have hin : i - 32 < 32 := by omega
      simp [hlow, hback, hin]
    · -- above bit 63 both sides are zero
      have hpow : x < 2 ^ i := lt_of_lt_of_le hx (Nat.pow_le_pow_right (by omega) (by omega))
      simp [hback, Nat.testBit_lt_two_pow hpow]
  · simp [hlow]

/-- The candidate `unwrap_air_pts` starts from. -/
theorem toNat_candidate (airNowUs : UInt64) (pts : UInt32) :
    ((airNowUs &&& ~~~(0xffffffff : UInt64)) ||| pts.toUInt64).toNat =
      airNowUs.toNat / 2 ^ 32 * 2 ^ 32 + pts.toNat := by
  have hmask : (~~~(0xffffffff : UInt64)).toNat = 0xffffffff00000000 := by decide
  rw [UInt64.toNat_or, UInt64.toNat_and, hmask, land_clear_low airNowUs.toNat_lt,
    UInt32.toNat_toUInt64, ← Nat.shiftLeft_eq, Nat.shiftLeft_add_eq_or_of_lt pts.toNat_lt]

/-! ### The nearest candidate -/

/-- The capture time lies within half a wrap of the air clock's reading. -/
def NearAir (captureUs airNowUs : ℕ) : Prop :=
  captureUs < 2 ^ 63 ∧ airNowUs < 2 ^ 63 ∧ |(captureUs : ℤ) - airNowUs| < 2 ^ 31

theorem unwrapAirPts_framePtsOf {captureUs airNowUs : ℕ} (h : NearAir captureUs airNowUs) :
    unwrapAirPts (framePtsOf captureUs) (UInt64.ofNat airNowUs) = UInt64.ofNat captureUs := by
  obtain ⟨hT, hair, hnear⟩ := h
  rw [abs_lt] at hnear
  have hnow : (UInt64.ofNat airNowUs).toNat = airNowUs := by
    rw [UInt64.toNat_ofNat']
    exact Nat.mod_eq_of_lt (by omega)
  have hcand := toNat_candidate (UInt64.ofNat airNowUs) (framePtsOf captureUs)
  rw [hnow, toNat_framePtsOf] at hcand
  unfold unwrapAirPts
  generalize (UInt64.ofNat airNowUs &&& ~~~(0xffffffff : UInt64)) |||
    (framePtsOf captureUs).toUInt64 = cand at hcand ⊢
  rw [← UInt64.toNat_inj]
  simp only [UInt64.lt_iff_toNat_lt, UInt64.le_iff_toNat_le, UInt64.toNat_add, hnow,
    UInt64.toNat_ofNat, UInt64.toNat_ofNat']
  -- the candidate is in the wrap of the reading; the true time in it, behind it or ahead
  split
  · rename_i hahead
    rw [UInt64.toNat_sub_of_le]
    · simp only [UInt64.toNat_ofNat]
      omega
    · simp only [UInt64.le_iff_toNat_le, UInt64.toNat_ofNat]
      omega
  · rename_i hahead
    split
    · simp only [UInt64.toNat_add, UInt64.toNat_ofNat]
      omega
    · omega

/-! ### The ground time of a frame -/

theorem uint64_ofInt_natCast (n : ℕ) : UInt64.ofInt n = UInt64.ofNat n := by
  rw [← UInt64.toNat_inj, UInt64.ofInt, UInt64.toNat_ofNat', UInt64.toNat_ofNat']
  omega

theorem uint64_ofInt_sub (x y : ℤ) : UInt64.ofInt (x - y) = UInt64.ofInt x - UInt64.ofInt y := by
  rw [Int.sub_eq_add_neg, UInt64.ofInt_add, UInt64.ofInt_neg, UInt64.sub_eq_add_neg]

/-- The loop holds a frame captured at `captureUs`, and by the estimate `offset` the air
clock reads `airNowUs`. -/
structure FrameAt (s : RxState) (env : RxEnv) (offset : ℤ) (captureUs airNowUs : ℕ) : Prop where
  framePts_eq : s.reasm.framePts = framePtsOf captureUs
  airNow_eq : (airNowUs : ℤ) = env.rxDoneUs.toNat + offset
  near : NearAir captureUs airNowUs

theorem FrameAt.captureGroundUs_eq {s : RxState} {env : RxEnv} {offset : ℤ}
    {captureUs airNowUs : ℕ} (h : FrameAt s env offset captureUs airNowUs) (unc : UInt32) :
    (s.timing env offset unc).captureGroundUs = UInt64.ofInt (captureUs - offset) := by
  have hair : env.rxDoneUs + UInt64.ofInt offset = UInt64.ofNat airNowUs := by
    rw [← uint64_ofInt_natCast, h.airNow_eq, UInt64.ofInt_add, uint64_ofInt_natCast,
      UInt64.ofNat_toNat]
  simp only [RxState.timing]
  rw [hair, h.framePts_eq, unwrapAirPts_framePtsOf h.near, uint64_ofInt_sub,
    uint64_ofInt_natCast]

/-- **Capture times survive the truncation.** From the low 32 bits of a capture time and a
reading of the air clock within half a wrap of it the full time is found again. The ground
time of the frame is then the capture time less the offset, and two frames handled with the
same offset are as far apart on the ground as they were on the air. -/
theorem capture_times_survive {captureUs airNowUs : ℕ} (h : NearAir captureUs airNowUs) :
    unwrapAirPts (framePtsOf captureUs) (UInt64.ofNat airNowUs) = UInt64.ofNat captureUs ∧
    ∀ (s : RxState) (env : RxEnv) (offset : ℤ) (unc : UInt32),
      FrameAt s env offset captureUs airNowUs →
      (s.timing env offset unc).captureGroundUs = UInt64.ofInt (captureUs - offset) ∧
      (∀ groundUs : ℕ, (groundUs : ℤ) = captureUs - offset → groundUs < 2 ^ 64 →
        (s.timing env offset unc).captureGroundUs.toNat = groundUs) ∧
      ∀ (s' : RxState) (env' : RxEnv) (unc' : UInt32) (captureUs' airNowUs' : ℕ),
        FrameAt s' env' offset captureUs' airNowUs' →
        (s'.timing env' offset unc').captureGroundUs - (s.timing env offset unc).captureGroundUs =
          UInt64.ofInt ((captureUs' : ℤ) - captureUs) := by
  refine ⟨unwrapAirPts_framePtsOf h, fun s env offset unc hs => ?_⟩
  have hground := hs.captureGroundUs_eq unc
  refine ⟨hground, ?_, ?_⟩
  · intro groundUs heq hlt
    rw [hground, ← heq, uint64_ofInt_natCast, UInt64.toNat_ofNat']
    exact Nat.mod_eq_of_lt hlt
  · intro s' env' unc' captureUs' airNowUs' hs'
    rw [hground, hs'.captureGroundUs_eq unc', ← uint64_ofInt_sub]
    congr 1
    omega

/-- A frame captured 20 ms before the air clock wraps and complete 2 ms after, while the
ground clock is ten seconds old. -/
def lateFrame : RxState :=
  { RxState.init 100 with
    reasm := { Reassembly.init 100 with framePts := framePtsOf (2 ^ 33 - 20000) } }

/-- The clock's readings when that frame is complete. -/
def lateEnv : RxEnv := { rxDoneUs := 10000000, estimate := some (8579936592, 50), encodeUs := 0 }

theorem capture_times_survive_wrap :
    (lateFrame.timing lateEnv 8579936592 50).captureGroundUs.toNat = 9978000 := by
  have hnear : NearAir (2 ^ 33 - 20000) (2 ^ 33 + 2000) := by
    refine ⟨by omega, by omega, ?_⟩
    rw [abs_lt]
    omega
  refine ((capture_times_survive hnear).2 lateFrame lateEnv 8579936592 50 ?_).2.1 9978000 ?_ ?_
  · exact ⟨rfl, by decide, hnear⟩
  · norm_num
  · omega

end Ar8030
