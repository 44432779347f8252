import Mathlib.Algebra.Group.Nat.Defs
import Mathlib.Algebra.Order.Group.Abs
import Mathlib.Algebra.Order.Group.Int

/-!
# Timestamps on the ground

The chunk header carries the low 32 bits of the air's capture time in microseconds.
`rx/main.c` turns it into a 90 kHz RTP timestamp (`rtpTs`) and, for the timing SEI, back
into the full capture time (`unwrapAirPts`).

The scaling to 90 kHz is done on the truncated value. `2 ^ 32` microseconds are
`386547056.64` ticks and not a multiple of `2 ^ 32` ticks, so the RTP clock follows the
capture time inside one wrap of the microsecond counter and jumps at its end. `TicksFollow`
says of two frames that their distance is right.
-/

namespace Ar8030

/-- The `frame_pts` a frame captured at `captureUs` carries: the low 32 bits. -/
def framePtsOf (captureUs : ℕ) : UInt32 := UInt32.ofNat captureUs

/-- `rtp_ts` in `rx/main.c`. The product is taken in 64 bits, where it does not wrap. -/
def rtpTs (framePts : UInt32) : UInt32 := UInt32.ofNat (framePts.toNat * 90 / 1000)

/-- `unwrap_air_pts`: the capture time nearest `airNowUs` with the given low 32 bits. -/
def unwrapAirPts (pts : UInt32) (airNowUs : UInt64) : UInt64 :=
  let cand := (airNowUs &&& ~~~(0xffffffff : UInt64)) ||| pts.toUInt64
  if airNowUs + 0x80000000 < cand ∧ 0x100000000 ≤ cand then cand - 0x100000000
  else if cand + 0x80000000 < airNowUs then cand + 0x100000000
  else cand

/-- The RTP clock advances by as much as the capture time, up to one tick. -/
def TicksFollow (t₁ t₂ : ℕ) : Prop :=
  |((rtpTs (framePtsOf t₂) - rtpTs (framePtsOf t₁)).toNat : ℤ) - ((t₂ - t₁) * 90 / 1000 : ℕ)| ≤ 1

theorem toNat_framePtsOf (t : ℕ) : (framePtsOf t).toNat = t % 2 ^ 32 := by
  simp [framePtsOf]

theorem toNat_rtpTs (pts : UInt32) : (rtpTs pts).toNat = pts.toNat * 90 / 1000 := by
  have hlt := pts.toNat_lt
  rw [rtpTs, UInt32.toNat_ofNat']
  exact Nat.mod_eq_of_lt (by omega)

/-- The distance of two RTP timestamps, as a 32-bit difference. -/
theorem toNat_rtpTs_sub (t₁ t₂ : ℕ) :
    (rtpTs (framePtsOf t₂) - rtpTs (framePtsOf t₁)).toNat =
      (2 ^ 32 - t₁ % 2 ^ 32 * 90 / 1000 + t₂ % 2 ^ 32 * 90 / 1000) % 2 ^ 32 := by
  rw [UInt32.toNat_sub, toNat_rtpTs, toNat_rtpTs, toNat_framePtsOf, toNat_framePtsOf]

/-- **The RTP clock within one wrap.** Of two frames less than `2 ^ 31` microseconds apart
the timestamps have the right distance exactly when no wrap of the 32-bit capture time lies
between them. -/
theorem ticksFollow_iff {t₁ t₂ : ℕ} (hle : t₁ ≤ t₂) (hnear : t₂ - t₁ < 2 ^ 31) :
    TicksFollow t₁ t₂ ↔ t₁ / 2 ^ 32 = t₂ / 2 ^ 32 := by
  have hd := toNat_rtpTs_sub t₁ t₂
  rw [TicksFollow, abs_le]
  by_cases hsame : t₁ / 2 ^ 32 = t₂ / 2 ^ 32
  · -- inside one wrap the difference does not borrow
    have hmono : t₁ % 2 ^ 32 * 90 / 1000 ≤ t₂ % 2 ^ 32 * 90 / 1000 := by omega
    have hborrow : 2 ^ 32 - t₁ % 2 ^ 32 * 90 / 1000 + t₂ % 2 ^ 32 * 90 / 1000 =
        (t₂ % 2 ^ 32 * 90 / 1000 - t₁ % 2 ^ 32 * 90 / 1000) + 2 ^ 32 := by omega
    rw [hborrow, Nat.add_mod_right, Nat.mod_eq_of_lt (by omega)] at hd
    rw [hd]
    refine ⟨fun _ => hsame, fun _ => ?_⟩
    omega
  · -- across it the later timestamp falls behind the earlier one
    have hback : t₂ % 2 ^ 32 + 2 ^ 31 < t₁ % 2 ^ 32 := by omega
    have hlt : t₂ % 2 ^ 32 * 90 / 1000 + 193273528 ≤ t₁ % 2 ^ 32 * 90 / 1000 := by omega
    rw [Nat.mod_eq_of_lt (by omega)] at hd
    rw [hd]
    refine ⟨fun h => ?_, fun h => absurd h hsame⟩
    omega

/-- Two frames one second apart in the middle of a session. -/
theorem ticksFollow_iff_second :
    TicksFollow 5000000000 5001000000 ↔ 5000000000 / 2 ^ 32 = 5001000000 / 2 ^ 32 :=
  ticksFollow_iff (by decide) (by decide)

/-- Two frames a sixtieth of a second apart, the second behind the wrap of the 32-bit
capture time. -/
theorem not_ticksFollow_wrap : ¬ TicksFollow (2 ^ 32 - 8000) (2 ^ 32 + 8667) := by
  rw [TicksFollow, toNat_rtpTs_sub]
  decide

end Ar8030
