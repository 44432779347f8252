import Ar8030Transport.Tx.RulesRamp

/-!
# The backlog that the producer measures

waybeam measures how full the frame ring stays: `venc_ring_low_water_observe` after every write
keeps the lowest occupancy, and `venc_ring_low_water_tick` publishes it once 200 ms have passed
(`venc_frame_ring.h`). Both controllers of `tx/bitrate_ctl.c` cut the rate when the published
value is high, but not for 400 ms after `flush_ring` has emptied the ring (`ring_low_water`).

The value is up to a window old when it is read. As long as waybeam goes on writing, a controller
that finds the ring backlogged has nevertheless seen a real backlog: the ring was that full after
every write of a whole window, the last of them after the flush (`backlog_is_real`).
-/

namespace Ar8030

/-! ### The tracker -/

/-- `VENC_RING_LOW_WATER_WINDOW_US`. -/
def vencRingLowWaterWindowUs : ℕ := 200000

/-- `VencRingLowWater`. -/
structure VencRingLowWater where
  lowSlots : ℕ
  slotCount : ℕ
  windowUs : ℕ
  slots : ℕ
  seen : Bool
  deriving DecidableEq, Repr

namespace VencRingLowWater

/-- `venc_ring_low_water_reset`. -/
def reset (nowUs : ℕ) : VencRingLowWater where
  lowSlots := 0
  slotCount := 0
  windowUs := nowUs
  slots := 0
  seen := false

/-- `venc_ring_low_water_observe`. -/
def observe (t : VencRingLowWater) (usedSlots slotCount : ℕ) : VencRingLowWater :=
  if ¬ t.seen ∨ usedSlots < t.lowSlots then
    { t with lowSlots := usedSlots, seen := true, slotCount := slotCount }
  else { t with slotCount := slotCount }

/-- `venc_ring_low_water_tick`; the answer says whether there is a new result. -/
def tick (t : VencRingLowWater) (nowUs : ℕ) : VencRingLowWater × Bool :=
  if nowUs - t.windowUs < vencRingLowWaterWindowUs then (t, false)
  else
    let low := if t.seen then t.lowSlots else 0
    let low := if t.slotCount < low then t.slotCount else low
    ({ t with slots := low % 2 ^ 16, windowUs := nowUs, lowSlots := 0, seen := false }, true)

end VencRingLowWater

/-- A write of the producer: when, and how many of the slots were used just after it. -/
structure RingWrite where
  nowUs : ℕ
  usedSlots : ℕ
  slotCount : ℕ
  deriving DecidableEq, Repr

/-- The tracker, and `low_water_slots` in the header of the ring. -/
structure LowWater where
  tracker : VencRingLowWater
  lowWaterSlots : ℕ
  deriving DecidableEq, Repr

/-- After a write the producer takes a sample and publishes what is new
(`venc_frame_ring_set_low_water`). -/
def LowWater.afterWrite (p : LowWater) (w : RingWrite) : LowWater :=
  let r := (p.tracker.observe w.usedSlots w.slotCount).tick w.nowUs
  { tracker := r.1, lowWaterSlots := if r.2 then r.1.slots else p.lowWaterSlots }

/-- The producer since it has created the ring. -/
def lowWaterRun (startUs : ℕ) (ws : List RingWrite) : LowWater :=
  ws.foldl LowWater.afterWrite ⟨.reset startUs, 0⟩

theorem lowWaterRun_concat (startUs : ℕ) (ws : List RingWrite) (w : RingWrite) :
    lowWaterRun startUs (ws ++ [w]) = (lowWaterRun startUs ws).afterWrite w :=
  List.foldl_concat _ _ _ _

/-! ### Windows -/

/-- When the window behind these writes was opened. -/
def openedUs (startUs : ℕ) (past : List RingWrite) : ℕ :=
  (past.getLast?.map RingWrite.nowUs).getD startUs

/-- The writes are those before the last closed window, those in it, and those since. -/
structure Windows (startUs : ℕ) (past window since : List RingWrite) (p : LowWater) : Prop where
  windowUs : p.tracker.windowUs = openedUs startUs (past ++ window)
  /-- Nothing was published before a window was closed. -/
  none : window = [] → p.lowWaterSlots = 0
  le : ∀ w ∈ window, p.lowWaterSlots ≤ w.usedSlots
  long : window ≠ [] → openedUs startUs past + vencRingLowWaterWindowUs ≤ p.tracker.windowUs
  seen : p.tracker.seen = true ↔ since ≠ []
  lowSlots_le : ∀ w ∈ since, p.tracker.lowSlots ≤ w.usedSlots
  short : ∀ w ∈ since, w.nowUs < p.tracker.windowUs + vencRingLowWaterWindowUs

theorem openedUs_concat (startUs : ℕ) (past : List RingWrite) (w : RingWrite) :
    openedUs startUs (past ++ [w]) = w.nowUs := by
  rw [openedUs, List.getLast?_concat]
  rfl

/-- A sample is the lowest of the window so far, or does not lower it. -/
theorem VencRingLowWater.observe_spec {t : VencRingLowWater} {since : List RingWrite}
    (hseen : t.seen = true ↔ since ≠ []) (hle : ∀ w ∈ since, t.lowSlots ≤ w.usedSlots)
    (w : RingWrite) :
    (t.observe w.usedSlots w.slotCount).seen = true ∧
      (t.observe w.usedSlots w.slotCount).windowUs = t.windowUs ∧
      ∀ x ∈ since ++ [w], (t.observe w.usedSlots w.slotCount).lowSlots ≤ x.usedSlots := by
  rw [observe]
  split_ifs with hlow
  · refine ⟨rfl, rfl, fun x hx => ?_⟩
    rcases List.mem_append.mp hx with hx | hx
    · have hlt := hlow.resolve_left (not_not.mpr (hseen.mpr (List.ne_nil_of_mem hx)))
      exact hlt.le.trans (hle x hx)
    · rw [List.mem_singleton.mp hx]
  · rw [not_or, not_not, not_lt] at hlow
    refine ⟨hlow.1, rfl, fun x hx => ?_⟩
    rcases List.mem_append.mp hx with hx | hx
    · exact hle x hx
    · rw [List.mem_singleton.mp hx]
      exact hlow.2

/-- What closes a window is at most its lowest sample. -/
theorem VencRingLowWater.tick_of_le {t : VencRingLowWater} (hseen : t.seen = true) {nowUs : ℕ}
    (h : ¬ nowUs - t.windowUs < vencRingLowWaterWindowUs) :
    ∃ slots ≤ t.lowSlots, t.tick nowUs =
      ({ t with slots := slots, windowUs := nowUs, lowSlots := 0, seen := false }, true) := by
  rw [tick, if_neg h, if_pos hseen]
  refine ⟨_, (Nat.mod_le _ _).trans ?_, rfl⟩
  split_ifs with hclamp
  · exact hclamp.le
  · exact le_rfl

/-- **One write** goes into the window that is open, and may close it. -/
theorem Windows.afterWrite {startUs : ℕ} {past window since : List RingWrite} {p : LowWater}
    (h : Windows startUs past window since p) (w : RingWrite) :
    Windows startUs past window (since ++ [w]) (p.afterWrite w) ∨
      Windows startUs (past ++ window) (since ++ [w]) [] (p.afterWrite w) := by
  obtain ⟨hseen, hwindow, hlow⟩ := VencRingLowWater.observe_spec h.seen h.lowSlots_le w
  rw [LowWater.afterWrite]
  generalize p.tracker.observe w.usedSlots w.slotCount = t at hseen hwindow hlow ⊢
  by_cases hopen : w.nowUs - t.windowUs < vencRingLowWaterWindowUs
  · left
    rw [VencRingLowWater.tick, if_pos hopen]
    refine ⟨hwindow.trans h.windowUs, h.none, h.le, fun hne => hwindow ▸ h.long hne,
      iff_of_true hseen (by simp), hlow, fun x hx => ?_⟩
    rw [hwindow] at hopen
    show x.nowUs < t.windowUs + vencRingLowWaterWindowUs
    rw [hwindow]
    rcases List.mem_append.mp hx with hx | hx
    · exact h.short x hx
    · rw [List.mem_singleton.mp hx]
      omega
  · right
    obtain ⟨slots, hslots, htick⟩ := VencRingLowWater.tick_of_le hseen hopen
    rw [htick]
    have hlast : openedUs startUs (past ++ window ++ (since ++ [w])) = w.nowUs := by
      rw [← List.append_assoc, openedUs_concat]
    refine ⟨hlast.symm, fun hnil => absurd hnil (by simp), fun x hx => hslots.trans (hlow x hx),
      fun _ => ?_, iff_of_false Bool.false_ne_true (by simp),
      fun x hx => absurd hx List.not_mem_nil, fun x hx => absurd hx List.not_mem_nil⟩
    rw [← h.windowUs, ← hwindow]
    show t.windowUs + vencRingLowWaterWindowUs ≤ w.nowUs
    rw [vencRingLowWaterWindowUs] at hopen ⊢
    omega

/-- **Every run** of the producer falls into windows. -/
theorem windows_run (startUs : ℕ) (ws : List RingWrite) :
    ∃ past window since, ws = past ++ window ++ since ∧
      Windows startUs past window since (lowWaterRun startUs ws) := by
  induction ws using List.reverseRecOn with
  | nil =>
    refine ⟨[], [], [], rfl, rfl, fun _ => rfl, ?_, fun hne => absurd rfl hne, ?_, ?_, ?_⟩
    · exact fun x hx => absurd hx List.not_mem_nil
    · exact iff_of_false Bool.false_ne_true (by simp)
    · exact fun x hx => absurd hx List.not_mem_nil
    · exact fun x hx => absurd hx List.not_mem_nil
  | append_singleton ws w ih =>
    obtain ⟨past, window, since, rfl, h⟩ := ih
    rw [lowWaterRun_concat]
    rcases h.afterWrite w with h | h
    · exact ⟨past, window, since ++ [w], by simp, h⟩
    · exact ⟨past ++ window, since ++ [w], [], by simp, h⟩

/-! ### What the controllers see -/

/-- The ring held at least so many slots after every write of a whole window, which was closed
after `flushUs` and less than 399 ms before `nowUs`. -/
def RealBacklog (startUs : ℕ) (ws : List RingWrite) (flushUs nowUs slots : ℕ) : Prop :=
  ∃ past window since closing, ws = past ++ (window ++ [closing]) ++ since ∧
    (∀ w ∈ window ++ [closing], slots ≤ w.usedSlots) ∧
    openedUs startUs past + vencRingLowWaterWindowUs ≤ closing.nowUs ∧
    flushUs < closing.nowUs ∧ nowUs < closing.nowUs + 399000

/-- The frame ring at a time, since a flush; the controllers count in milliseconds. -/
structure Sees (startUs : ℕ) (ws : List RingWrite) (flushUs : ℕ) (v : RingView) : Prop where
  slots : v.lowWaterSlots = (lowWaterRun startUs ws).lowWaterSlots
  flushed : v.flushedMs = flushUs / 1000
  /-- No flush at all is told by a zero. -/
  flushed_pos : 0 < v.flushedMs

theorem Sees.realBacklog {startUs flushUs nowUs high : ℕ} {ws : List RingWrite} {v : RingView}
    (h : Sees startUs ws flushUs v) (hwrites : ∀ w ∈ ws.getLast?, nowUs ≤ w.nowUs + 199000)
    (hhigh : 0 < high) (hsees : high ≤ v.lowWater (nowUs / 1000)) :
    RealBacklog startUs ws flushUs nowUs (high * max 1 v.entriesPerFrame) := by
  obtain ⟨past, window, since, rfl, hw⟩ := windows_run startUs ws
  rw [RingView.lowWater] at hsees
  have hflushed := h.flushed
  have hpos := h.flushed_pos
  -- the flush is at least 400 ms ago, on a clock that drops the microseconds
  have hsettled : ¬ (v.flushedMs ≠ 0 ∧ nowUs / 1000 < v.flushedMs + 400) := by
    intro hsettling
    rw [if_pos hsettling] at hsees
    omega
  rw [if_neg hsettled] at hsees
  have hpublished : high * max 1 v.entriesPerFrame ≤ v.lowWaterSlots := by
    split_ifs at hsees with hper
    · rw [max_eq_right hper.le]
      exact (Nat.le_div_iff_mul_le (by omega)).mp (hsees.trans (Nat.mod_le _ _))
    · rwa [max_eq_left (by omega), Nat.mul_one]
  have hone : 0 < high * max 1 v.entriesPerFrame :=
    Nat.mul_pos hhigh (lt_of_lt_of_le Nat.one_pos (le_max_left _ _))
  rw [h.slots] at hpublished
  have hne : window ≠ [] := by
    intro hnil
    rw [hw.none hnil] at hpublished
    omega
  obtain ⟨window, closing, rfl⟩ : ∃ l x, window = l ++ [x] :=
    ⟨_, _, (List.dropLast_append_getLast hne).symm⟩
  have hclosed : (lowWaterRun startUs (past ++ (window ++ [closing]) ++ since)).tracker.windowUs =
      closing.nowUs := by
    rw [hw.windowUs, ← List.append_assoc, openedUs_concat]
  have hlong := hw.long hne
  have hshort := hw.short
  rw [hclosed] at hlong hshort
  -- the last write did not close another window
  have hnow : nowUs < closing.nowUs + 399000 := by
    rw [vencRingLowWaterWindowUs] at hshort
    rcases List.eq_nil_or_concat' since with rfl | ⟨since, last, rfl⟩
    · have := hwrites closing (by simp)
      omega
    · have := hwrites last (by rw [← List.append_assoc, List.getLast?_concat]; rfl)
      have := hshort last (by simp)
      omega
  refine ⟨past, window, since, closing, rfl, fun w hmem => hpublished.trans (hw.le w hmem), hlong,
    ?_, hnow⟩
  omega

/-- **A backlog that is acted on is real**, for both controllers: while waybeam goes on writing at
least every 199 ms, a pass that finds the ring backlogged proves that the ring held that many
frames after every write of a whole window, of which the last came after the flush. -/
theorem backlog_is_real {startUs flushUs nowUs : ℕ} {ws : List RingWrite} {v : RingView}
    (h : Sees startUs ws flushUs v) (hwrites : ∀ w ∈ ws.getLast?, nowUs ≤ w.nowUs + 199000) :
    (∀ (cfg : PiConfig) (s : PiState) (inp : PiInput), inp.ring = some v →
      inp.now = nowUs / 1000 → 0 < cfg.ringBacklogHighSlots → s.backlogged cfg inp = true →
        RealBacklog startUs ws flushUs nowUs
          (cfg.ringBacklogHighSlots * max 1 v.entriesPerFrame)) ∧
    ∀ (cfg : RulesConfig) (s : RulesState) (inp : RulesInput), inp.ring = some v →
      inp.now = nowUs / 1000 → 0 < cfg.ringBacklogHighSlots → s.seesBacklog cfg inp = true →
        RealBacklog startUs ws flushUs nowUs
          (cfg.ringBacklogHighSlots * max 1 v.entriesPerFrame) := by
  constructor
  · intro cfg s inp hring hnow hhigh hsees
    rw [PiState.backlogged, hring] at hsees
    have hle := (of_decide_eq_true hsees).1
    rw [hnow] at hle
    exact h.realBacklog hwrites hhigh hle
  · intro cfg s inp hring hnow hhigh hsees
    rw [RulesState.seesBacklog, hring, Option.any_some] at hsees
    have hle := (of_decide_eq_true hsees).2.2
    rw [hnow] at hle
    exact h.realBacklog hwrites hhigh hle

/-- A ring that fills up after a flush. -/
def fillingRing : List RingWrite :=
  [⟨2010000, 6, 8⟩, ⟨2110000, 7, 8⟩, ⟨2210000, 8, 8⟩, ⟨2310000, 8, 8⟩, ⟨2400000, 8, 8⟩]

theorem backlog_is_real_filling : RealBacklog 2000000 fillingRing 2005000 2405000 6 := by
  have hsees : Sees 2000000 fillingRing 2005000 ⟨2005, 1, 6⟩ := ⟨by decide, rfl, by decide⟩
  exact (backlog_is_real hsees (by decide)).1 PiConfig.shipped (PiState.init .shipped 0 0)
    { now := 2405, delayUs := 0, lastTxDoneMs := 0, wake := 0, throughput := none,
      retxTooMany := 0, ldpc := none, ring := some ⟨2005, 1, 6⟩ }
    rfl rfl (by decide) (by decide)

end Ar8030
