import Ar8030Transport.Library.LittleEndian
import Ar8030Transport.Library.Trace
import Mathlib.Data.Fintype.Prod
import Mathlib.Data.List.GetD

/-!
# Retransmission events

The chip raises `BB_EVENT_RETX_TOO_MANY` whenever one of its two pressure flags goes on or off, so
a recovery raises the same event as a fade. The payload says which (`common/ar8030_retx_event.h`),
and `on_retx_too_many_event` of `tx/bitrate_ctl.c` counts the events at which pressure rose. Both
controllers cut the rate by this count.

Events get lost, and the chip is reset without one. The count never exceeds the number of times
pressure rose, and is exactly that number as long as neither happens at the wrong moment
(`retx_counts_rises`).
-/

namespace Ar8030

open Trace LittleEndian

/-! ### The payload -/

/-- `AR8030_RETX_EVENT_LEN`. -/
def retxEventLen : ℕ := 0x88

/-- `ar8030_retx_state_t`. -/
structure RetxState where
  bits : ℕ
  pos : UInt8
  busyOn : UInt8
  contiOn : UInt8
  win : UInt8
  busy : UInt8
  idle : UInt8
  contiBusy : UInt8
  contiIdle : UInt8
  deriving DecidableEq, Repr

/-- The state before the first event. -/
def RetxState.zero : RetxState := ⟨0, 0, 0, 0, 0, 0, 0, 0, 0⟩

/-- A record that does not look like the firmware's. -/
def RetxState.isOdd (st : RetxState) : Prop :=
  1 < st.busyOn ∨ 1 < st.contiOn ∨ st.win = 0 ∨ st.win ≤ st.pos

instance (st : RetxState) : Decidable st.isOdd := inferInstanceAs (Decidable (_ ∨ _))

/-- `ar8030_retx_event_decode`, for a payload of `retxEventLen` bytes if there is one. -/
def ar8030RetxEventDecode (arg : Option (List UInt8)) : Option RetxState :=
  arg.bind fun p =>
    let st : RetxState := {
      bits := decode (p.take 4)
      pos := p.getD 4 0
      busyOn := p.getD 5 0
      contiOn := p.getD 6 0
      win := p.getD 8 0
      busy := p.getD 9 0
      idle := p.getD 10 0
      contiBusy := p.getD 11 0
      contiIdle := p.getD 12 0 }
    if st.isOdd then none else some st

/-- `ar8030_retx_event_rising`. -/
def ar8030RetxEventRising (prev cur : RetxState) : Bool :=
  if cur.busyOn = prev.busyOn ∧ cur.contiOn = prev.contiOn then
    cur.busyOn != 0 || cur.contiOn != 0
  else (cur.busyOn != 0 && prev.busyOn == 0) || (cur.contiOn != 0 && prev.contiOn == 0)

/-- `g_retx_prev`, `g_retx_too_many` and `g_retx_undecoded`. -/
structure RetxCounter where
  prev : RetxState
  tooMany : ℕ
  undecoded : Bool
  deriving DecidableEq, Repr

def RetxCounter.init : RetxCounter := ⟨.zero, 0, false⟩

/-- `on_retx_too_many_event`. -/
def onRetxTooManyEvent (c : RetxCounter) (arg : Option (List UInt8)) : RetxCounter :=
  match ar8030RetxEventDecode arg with
  | none =>
    { c with undecoded := c.undecoded || arg.isSome, tooMany := c.tooMany + 1 }
  | some st =>
    { c with
      tooMany := if ar8030RetxEventRising c.prev st then c.tooMany + 1 else c.tooMany
      prev := st }

/-! ### The chip -/

/-- The record of the firmware: what `ar8030_retx_state_t` has of it, and bytes that are none of
its business. -/
structure RetxRecord where
  st : RetxState
  other : UInt8
  rest : List UInt8
  bits_lt : st.bits < 2 ^ 32
  not_odd : ¬ st.isOdd
  length_rest : rest.length = retxEventLen - 13

/-- The payload of an event. -/
def RetxRecord.payload (r : RetxRecord) : List UInt8 :=
  encode 4 r.st.bits ++ ([r.st.pos, r.st.busyOn, r.st.contiOn, r.other, r.st.win, r.st.busy,
    r.st.idle, r.st.contiBusy, r.st.contiIdle] ++ r.rest)

/-- The two flags. -/
def RetxState.flags (st : RetxState) : Bool × Bool := (st.busyOn != 0, st.contiOn != 0)

/-- From one pair of flags to another, some go on and none off. -/
def Rises (before after : Bool × Bool) : Prop :=
  before ≠ after ∧ (before.1 → after.1) ∧ (before.2 → after.2)

instance (before after : Bool × Bool) : Decidable (Rises before after) :=
  inferInstanceAs (Decidable (_ ∧ _))

/-- An edge: flags go on, or flags go off, never both. -/
def IsEdge (before after : Bool × Bool) : Prop := Rises before after ∨ Rises after before

instance (before after : Bool × Bool) : Decidable (IsEdge before after) :=
  inferInstanceAs (Decidable (_ ∨ _))

/-- What happens at the chip. -/
inductive RetxAction where
  /-- An edge to the flags of this record, and whether the event arrives. -/
  | edge (record : RetxRecord) (arrives : Bool)
  | reset

/-- The chip's flags, how often pressure has risen, and the counter of the transmitter. -/
structure RetxWorld where
  flags : Bool × Bool
  rises : ℕ
  counter : RetxCounter

/-- One action. What is no edge does not happen. -/
def RetxWorld.step (w : RetxWorld) : RetxAction → RetxWorld
  | .edge record arrives =>
    if IsEdge w.flags record.st.flags then
      { flags := record.st.flags
        rises := if Rises w.flags record.st.flags then w.rises + 1 else w.rises
        counter :=
          if arrives then onRetxTooManyEvent w.counter (some record.payload) else w.counter }
    else w
  | .reset => { w with flags := (false, false) }

/-- A run. -/
def retxRun (actions : List RetxAction) : RetxWorld :=
  actions.foldl RetxWorld.step ⟨(false, false), 0, .init⟩

theorem retxRun_concat (actions : List RetxAction) (a : RetxAction) :
    retxRun (actions ++ [a]) = (retxRun actions).step a :=
  List.foldl_concat _ _ _ _

/-! ### Reading a record -/

/-- **A record is read back.** -/
theorem RetxRecord.decode_payload (r : RetxRecord) :
    ar8030RetxEventDecode (some r.payload) = some r.st := by
  obtain ⟨st, other, rest, hbits, hodd, -⟩ := r
  have hlen : (encode 4 st.bits).length = 4 := length_encode 4 st.bits
  have htake : ∀ tail : List UInt8, (encode 4 st.bits ++ tail).take 4 = encode 4 st.bits :=
    fun tail => List.take_left' hlen
  have hdrop : ∀ (tail : List UInt8) (i : ℕ),
      (encode 4 st.bits ++ tail).getD (4 + i) 0 = tail.getD i 0 := by
    intro tail i
    rw [List.getD_append_right _ _ _ _ (by omega), hlen, Nat.add_sub_cancel_left]
  rw [ar8030RetxEventDecode, Option.bind_some, payload]
  dsimp only
  rw [htake, decode_encode_of_lt hbits, hdrop _ 0, hdrop _ 1, hdrop _ 2, hdrop _ 4, hdrop _ 5,
    hdrop _ 6, hdrop _ 7, hdrop _ 8]
  exact if_neg hodd

/-! ### Counting -/

/-- Both flags are flags. -/
def RetxState.IsFlagged (st : RetxState) : Prop := st.busyOn ≤ 1 ∧ st.contiOn ≤ 1

theorem RetxState.isFlagged_zero : RetxState.zero.IsFlagged := ⟨by decide, by decide⟩

theorem RetxRecord.isFlagged (r : RetxRecord) : r.st.IsFlagged := by
  have hodd := r.not_odd
  rw [RetxState.isOdd, not_or, not_or] at hodd
  exact ⟨UInt8.not_lt.mp hodd.1, UInt8.not_lt.mp hodd.2.1⟩

/-- The test, on the flags. -/
def flagsRising (before after : Bool × Bool) : Bool :=
  if after = before then after.1 || after.2
  else (after.1 && !before.1) || (after.2 && !before.2)

theorem rising_eq {prev cur : RetxState} (hprev : prev.IsFlagged) (hcur : cur.IsFlagged) :
    ar8030RetxEventRising prev cur = flagsRising prev.flags cur.flags := by
  have hbit : ∀ b : UInt8, b ≤ 1 → b = 0 ∨ b = 1 := by
    intro b hb
    rw [UInt8.le_iff_toNat_le] at hb
    have hone : b.toNat ≤ 1 := hb
    rw [← UInt8.toNat_inj, ← UInt8.toNat_inj]
    exact Nat.le_one_iff_eq_zero_or_eq_one.mp hone
  rw [ar8030RetxEventRising, flagsRising, RetxState.flags, RetxState.flags]
  rcases hbit _ hprev.1 with hpb | hpb <;> rcases hbit _ hprev.2 with hpc | hpc <;>
    rcases hbit _ hcur.1 with hcb | hcb <;> rcases hbit _ hcur.2 with hcc | hcc <;>
      rw [hpb, hpc, hcb, hcc] <;> decide

/-- An event that arrives. -/
theorem onRetxTooManyEvent_payload (c : RetxCounter) (hprev : c.prev.IsFlagged) (r : RetxRecord) :
    onRetxTooManyEvent c (some r.payload) =
      { c with
        tooMany := if flagsRising c.prev.flags r.st.flags then c.tooMany + 1 else c.tooMany
        prev := r.st } := by
  rw [onRetxTooManyEvent, r.decode_payload]
  dsimp only
  rw [rising_eq hprev r.isFlagged]

/-- What the counter has to do with the chip. Some rises may not have been told (`untold`); if
there are none, no flag is on that the counter does not know to be on. -/
structure RisesCounted (w : RetxWorld) (untold : Bool) : Prop where
  flagged : w.counter.prev.IsFlagged
  decoded : w.counter.undecoded = false
  known : untold = false →
    (w.flags.1 → w.counter.prev.flags.1) ∧ (w.flags.2 → w.counter.prev.flags.2)
  le : w.counter.tooMany + untold.toNat ≤ w.rises

/-- A fall is not counted if every flag that was on is known to be on. -/
theorem flagsRising_of_fall {prev before after : Bool × Bool} (hfall : Rises after before)
    (hknown : (before.1 → prev.1) ∧ (before.2 → prev.2)) : flagsRising prev after = false := by
  have hall : ∀ prev before after : Bool × Bool, Rises after before →
      (before.1 → prev.1) ∧ (before.2 → prev.2) → flagsRising prev after = false := by decide
  exact hall prev before after hfall hknown

/-- **One action**: what is counted has risen. -/
theorem RisesCounted.step {w : RetxWorld} {untold : Bool} (h : RisesCounted w untold)
    (a : RetxAction) : ∃ untold', RisesCounted (w.step a) untold' := by
  obtain ⟨hflagged, hdecoded, hknown, hle⟩ := h
  cases a with
  | reset =>
    exact ⟨untold, hflagged, hdecoded, fun _ => ⟨fun hon => absurd hon Bool.false_ne_true,
      fun hon => absurd hon Bool.false_ne_true⟩, hle⟩
  | edge record arrives =>
    rw [RetxWorld.step]
    by_cases hedge : IsEdge w.flags record.st.flags
    swap
    · rw [if_neg hedge]
      exact ⟨untold, hflagged, hdecoded, hknown, hle⟩
    rw [if_pos hedge]
    cases arrives with
    | true =>
      -- now the counter knows the flags
      rw [onRetxTooManyEvent_payload _ hflagged]
      refine ⟨false, record.isFlagged, hdecoded, fun _ => ⟨id, id⟩, ?_⟩
      by_cases hrise : Rises w.flags record.st.flags
      · simp only [hrise, if_true, Bool.toNat_false]
        split_ifs <;> omega
      · simp only [hrise, if_true, if_false, Bool.toNat_false]
        cases untold with
        | true =>
          rw [Bool.toNat_true] at hle
          split_ifs <;> omega
        | false =>
          rw [flagsRising_of_fall (hedge.resolve_left hrise) (hknown rfl)]
          exact hle
    | false =>
      by_cases hrise : Rises w.flags record.st.flags
      · refine ⟨true, hflagged, hdecoded, fun hfalse => by simp at hfalse, ?_⟩
        simp only [hrise, if_true, Bool.toNat_true]
        exact Nat.succ_le_succ (le_of_add_le_left hle)
      · obtain ⟨-, hfall⟩ := hedge.resolve_left hrise
        refine ⟨untold, hflagged, hdecoded, fun hall => ?_, ?_⟩
        · exact ⟨fun hon => (hknown hall).1 (hfall.1 hon), fun hon => (hknown hall).2 (hfall.2 hon)⟩
        · simp only [hrise, if_false]
          exact hle

theorem risesCounted_run (actions : List RetxAction) :
    ∃ untold, RisesCounted (retxRun actions) untold := by
  induction actions using List.reverseRecOn with
  | nil => exact ⟨false, RetxState.isFlagged_zero, rfl, fun _ => ⟨id, id⟩, le_rfl⟩
  | append_singleton actions a ih =>
    obtain ⟨untold, h⟩ := ih
    rw [retxRun_concat]
    exact h.step a

/-! ### When the count is exact -/

/-- The event arrives, and no reset takes both flags off at once. -/
def RetxAction.IsTold (w : RetxWorld) : RetxAction → Prop
  | .edge _ arrives => arrives = true
  | .reset => w.flags ≠ (true, true)

/-- Every rise is counted. The counter knows the flags, or one that a reset has taken off. -/
structure EveryRiseCounted (w : RetxWorld) : Prop where
  flagged : w.counter.prev.IsFlagged
  known : w.counter.prev.flags = w.flags ∨
    w.flags = (false, false) ∧ w.counter.prev.flags ≠ (true, true)
  eq : w.counter.tooMany = w.rises

theorem flagsRising_iff {prev before after : Bool × Bool} (hedge : IsEdge before after)
    (hknown : prev = before ∨ before = (false, false) ∧ prev ≠ (true, true)) :
    flagsRising prev after = true ↔ Rises before after := by
  have hall : ∀ prev before after : Bool × Bool, IsEdge before after →
      prev = before ∨ before = (false, false) ∧ prev ≠ (true, true) →
        (flagsRising prev after = true ↔ Rises before after) := by decide
  exact hall prev before after hedge hknown

theorem EveryRiseCounted.step {w : RetxWorld} (h : EveryRiseCounted w) {a : RetxAction}
    (htold : a.IsTold w) : EveryRiseCounted (w.step a) := by
  obtain ⟨hflagged, hknown, heq⟩ := h
  cases a with
  | reset =>
    refine ⟨hflagged, Or.inr ⟨rfl, ?_⟩, heq⟩
    rcases hknown with hsame | ⟨-, hprev⟩
    · exact hsame ▸ htold
    · exact hprev
  | edge record arrives =>
    obtain rfl : arrives = true := htold
    rw [RetxWorld.step]
    by_cases hedge : IsEdge w.flags record.st.flags
    · rw [if_pos hedge, onRetxTooManyEvent_payload _ hflagged]
      refine ⟨record.isFlagged, Or.inl rfl, ?_⟩
      have hiff := flagsRising_iff hedge hknown
      by_cases hrise : Rises w.flags record.st.flags
      · simp only [hrise, hiff.mpr hrise, if_true, heq]
      · simp only [hrise, mt hiff.mp hrise, if_true, if_false, Bool.false_eq_true, heq]
    · rw [if_neg hedge]
      exact ⟨hflagged, hknown, heq⟩

/-- **Only rises are counted**, whatever events are lost and however often the chip is reset; and
every rise is, if all events arrive and no reset takes both flags off at once. No payload of the
chip fails to decode. -/
theorem retx_counts_rises (actions : List RetxAction) :
    (retxRun actions).counter.tooMany ≤ (retxRun actions).rises ∧
      (retxRun actions).counter.undecoded = false ∧
      (Always (fun past a => a.IsTold (retxRun past)) actions →
        (retxRun actions).counter.tooMany = (retxRun actions).rises) := by
  obtain ⟨untold, h⟩ := risesCounted_run actions
  refine ⟨le_of_add_le_left h.le, h.decoded, fun htold => ?_⟩
  have hall : EveryRiseCounted (retxRun actions) := by
    clear h untold
    induction actions using List.reverseRecOn with
    | nil => exact ⟨RetxState.isFlagged_zero, Or.inl rfl, rfl⟩
    | append_singleton actions a ih =>
      obtain ⟨hpast, hlast⟩ := always_concat_iff.mp htold
      rw [retxRun_concat]
      exact (ih hpast).step hlast
  exact hall.eq

/-- A record of the configuration that is sent on every connect, with `conti_on` or without. -/
def burstRecord (contiOn : Bool) : RetxRecord where
  st := ⟨3, 2, 0, if contiOn then 1 else 0, 10, 6, 4, 2, 0⟩
  other := 0
  rest := List.replicate (retxEventLen - 13) 0
  bits_lt := (by decide : 3 < 2 ^ 32)
  not_odd := by cases contiOn <;> decide
  length_rest := List.length_replicate

/-- A burst of two, a reset, and another burst. -/
def twoBursts : List RetxAction :=
  [.edge (burstRecord true) true, .edge (burstRecord false) true, .reset,
    .edge (burstRecord true) true]

theorem retx_counts_rises_bursts : (retxRun twoBursts).counter.tooMany = 2 := by
  have htold : Always (fun past a => a.IsTold (retxRun past)) twoBursts := by
    refine (((always_nil.concat ?_).concat ?_).concat ?_).concat ?_
    · rfl
    · rfl
    · exact (by decide : (retxRun (twoBursts.take 2)).flags ≠ (true, true))
    · rfl
  exact (retx_counts_rises twoBursts).2.2 htold

end Ar8030
