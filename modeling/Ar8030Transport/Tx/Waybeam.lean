import Mathlib.Algebra.Group.Nat.Defs
import Mathlib.Data.Int.Notation
import Mathlib.Data.Nat.Notation
import Mathlib.Order.Lattice
import Mathlib.Tactic.SplitIfs

/-!
# Talking to waybeam

The requests `tx/bitrate_ctl.c` sends to the encoder process, and what it learns from the
answers. A request goes through a send function with a context of its own, which answers with
an HTTP status, so that the same controller can be run against any waybeam.
-/

namespace Ar8030

/-- `/api/v1/live/set` with the fields it sets. -/
structure LiveSet where
  /-- `video0.bitrate`. -/
  bitrate : Option ℕ
  /-- `fpv.roiEnabled`. -/
  roiEnabled : Option Bool
  /-- `video0.fpsDivisor`. -/
  fpsDivisor : Option ℕ
  deriving DecidableEq, Repr

/-- The settings of a waybeam. -/
structure Waybeam where
  bitrate : ℕ
  roiEnabled : Bool
  fpsDivisor : ℕ
  deriving DecidableEq, Repr

/-- The settings once a request has been accepted. -/
def Waybeam.apply (w : Waybeam) (q : LiveSet) : Waybeam where
  bitrate := q.bitrate.getD w.bitrate
  roiEnabled := q.roiEnabled.getD w.roiEnabled
  fpsDivisor := q.fpsDivisor.getD w.fpsDivisor

/-- A 2xx answer. -/
def isSuccess (status : ℤ) : Bool := decide (200 ≤ status ∧ status < 300)

/-- This waybeam has no such field. -/
def isMissing (status : ℤ) : Bool := decide (status = 404 ∨ status = 501)

/-- Set the bitrate. -/
def setBitrate (kbps : ℕ) : LiveSet := ⟨some kbps, none, none⟩

/-- Set the region of interest. -/
def setRoi (enabled : Bool) : LiveSet := ⟨none, some enabled, none⟩

/-- Set the divisor, with the bitrate in the same request unless it is 0. -/
def setFpsDiv (div kbps : ℕ) : LiveSet := ⟨if kbps ≠ 0 then some kbps else none, none, some div⟩

/-- `learn_floor`: a refused rate is below the floor. -/
def learnFloor (floorKbps : ℕ) (status : ℤ) (rejectedKbps : ℕ) : ℕ :=
  if status = 409 ∧ floorKbps < (rejectedKbps + 1) % 2 ^ 32 then (rejectedKbps + 1) % 2 ^ 32
  else floorKbps

/-- What is learned from a refusal. -/
theorem learnFloor_bounds (floorKbps : ℕ) (status : ℤ) {rejected kbps : ℕ} (h : rejected ≤ kbps) :
    floorKbps ≤ learnFloor floorKbps status rejected ∧
      learnFloor floorKbps status rejected ≤
        if status = 409 then max floorKbps (kbps + 1) else floorKbps := by
  have hmod : (rejected + 1) % 2 ^ 32 ≤ rejected + 1 := Nat.mod_le _ _
  rw [learnFloor]
  split_ifs with hlearn h409 h409
  · exact ⟨hlearn.2.le, by omega⟩
  · exact absurd hlearn.1 h409
  · exact ⟨le_rfl, le_max_left _ _⟩
  · exact ⟨le_rfl, le_rfl⟩

/-- What `apply_cut` returns: the last status, the rate it ended with, the floor, and the send
function's context. -/
structure CutResult (σ : Type*) where
  status : ℤ
  kbps : ℕ
  floorKbps : ℕ
  ctx : σ

/-- The loop of `apply_cut`: a refused rate is raised halfway to the current one and tried
again, at most so many times. -/
def cutLoop {σ : Type*} (send : σ → LiveSet → ℤ × σ) (currentKbps div : ℕ) :
    ℕ → ℤ → ℕ → ℕ → σ → CutResult σ
  | 0, status, kbps, floorKbps, ctx => ⟨status, kbps, floorKbps, ctx⟩
  | attempts + 1, _, kbps, floorKbps, ctx =>
    let r := send ctx (setBitrate kbps)
    if r.1 ≠ 409 then ⟨r.1, kbps, floorKbps, r.2⟩
    else
      let floorKbps' := learnFloor floorKbps r.1 (kbps * div % 2 ^ 32)
      if currentKbps ≤ kbps ∨ currentKbps - kbps ≤ 32 then ⟨r.1, kbps, floorKbps', r.2⟩
      else
        cutLoop send currentKbps div attempts r.1 (kbps + (currentKbps - kbps) / 2) floorKbps' r.2

section Cut

variable {σ : Type*} {send : σ → LiveSet → ℤ × σ} {currentKbps div attempts kbps floorKbps : ℕ}
  {status : ℤ} {ctx : σ}

/-- Anything but a refusal ends the loop. -/
theorem cutLoop_of_ne (h : (send ctx (setBitrate kbps)).1 ≠ 409) :
    cutLoop send currentKbps div (attempts + 1) status kbps floorKbps ctx =
      ⟨(send ctx (setBitrate kbps)).1, kbps, floorKbps, (send ctx (setBitrate kbps)).2⟩ := by
  rw [cutLoop]
  exact if_pos h

/-- Close to the current rate, a refusal is the last. -/
theorem cutLoop_of_last (h : (send ctx (setBitrate kbps)).1 = 409)
    (hlast : currentKbps ≤ kbps ∨ currentKbps - kbps ≤ 32) :
    cutLoop send currentKbps div (attempts + 1) status kbps floorKbps ctx =
      ⟨409, kbps, learnFloor floorKbps 409 (kbps * div % 2 ^ 32),
        (send ctx (setBitrate kbps)).2⟩ := by
  rw [cutLoop]
  dsimp only
  rw [if_neg (Decidable.not_not.mpr h), if_pos hlast, h]

theorem cutLoop_of_refused (h : (send ctx (setBitrate kbps)).1 = 409)
    (hnext : ¬ (currentKbps ≤ kbps ∨ currentKbps - kbps ≤ 32)) :
    cutLoop send currentKbps div (attempts + 1) status kbps floorKbps ctx =
      cutLoop send currentKbps div attempts 409 (kbps + (currentKbps - kbps) / 2)
        (learnFloor floorKbps 409 (kbps * div % 2 ^ 32)) (send ctx (setBitrate kbps)).2 := by
  rw [cutLoop]
  dsimp only
  rw [if_neg (Decidable.not_not.mpr h), if_neg hnext, h]

end Cut

/-- `apply_cut`. -/
def applyCut {σ : Type*} (send : σ → LiveSet → ℤ × σ) (kbps currentKbps floorKbps div : ℕ)
    (ctx : σ) : CutResult σ :=
  cutLoop send currentKbps div 5 0 kbps floorKbps ctx

end Ar8030
