import Mathlib.Algebra.Order.Group.Abs
import Mathlib.Algebra.Order.Group.Int
import Mathlib.Data.List.Chain
import Mathlib.Data.List.DropRight
import Ar8030Transport.Library.Mealy
import Ar8030Transport.Library.Window

/-!
# Clock synchronisation

`onReply` and `get` are `clock_sync_on_reply` and `clock_sync_get` (`rx/clock_sync.c`): the
ground keeps the last sixteen probe replies and trusts the one with the shortest round
trip. Times are 64-bit microseconds; the signed arithmetic of the offset wraps at 64 bits
(`int64`), everything else is guarded against wrapping by the tests in front of it.

The mutex makes each call atomic, so a run is a list of replies.

`GenuineReply` is a reply that was really exchanged: a probe that took `up` to reach the
air, `turn` to be answered and `down` to come back, while the air clock was `offset` ahead
of the ground's. The result at the end is what the estimate is worth after any run of such
replies.
-/

namespace Ar8030

/-- `CLOCK_SYNC_WINDOW`. -/
def clockSyncWindow : ℕ := 16

/-- `CLOCK_SYNC_MAX_RTT_US`. -/
def clockSyncMaxRttUs : ℕ := 250000

/-- One sample of the window. -/
structure Sample where
  offsetUs : ℤ
  rttUs : ℕ
  deriving DecidableEq, Repr

/-- The four times of a probe: sent and received on the ground, received and answered on
the air. -/
structure ProbeTimes where
  t1 : ℕ
  t2 : ℕ
  t3 : ℕ
  t4 : ℕ
  deriving DecidableEq, Repr

/-- The part of `clock_sync_t` that replies read and write. -/
structure ClockSync where
  samples : Window Sample
  replies : ℕ
  stale : ℕ
  staleUntilUs : ℕ
  deriving DecidableEq, Repr

/-- A value as a signed 64-bit integer holds it. -/
def int64 (x : ℤ) : ℤ := Int.bmod x (2 ^ 64)

namespace ProbeTimes

/-- A turnaround longer than the whole round trip, or times that run backwards. -/
def isGarbage (t : ProbeTimes) : Prop := t.t4 < t.t1 ∨ t.t3 < t.t2 ∨ t.t4 - t.t1 < t.t3 - t.t2

instance (t : ProbeTimes) : Decidable t.isGarbage := inferInstanceAs (Decidable (_ ∨ _ ∨ _))

/-- The round trip without the turnaround. -/
def rtt (t : ProbeTimes) : ℕ := (t.t4 - t.t1) - (t.t3 - t.t2)

/-- The offset, by C's division that rounds towards zero. -/
def offset (t : ProbeTimes) : ℤ :=
  Int.tdiv (int64 (int64 ((t.t2 : ℤ) - t.t1) + int64 ((t.t3 : ℤ) - t.t4))) 2

/-- The sample the probe contributes. -/
def sample (t : ProbeTimes) : Sample where
  offsetUs := t.offset
  rttUs := t.rtt

/-- An offset that the round trips of the two samples cannot explain. -/
def isOutlier (t : ProbeTimes) (s : Sample) : Prop :=
  ((t.rtt + s.rttUs + 5000 : ℕ) : ℤ) < |t.offset - s.offsetUs|

instance (t : ProbeTimes) (s : Sample) : Decidable (t.isOutlier s) :=
  inferInstanceAs (Decidable (_ < _))

end ProbeTimes

namespace ClockSync

/-- `clock_sync_init`. -/
def init : ClockSync where
  samples := { slots := List.replicate clockSyncWindow ⟨0, 0⟩, n := 0, next := 0 }
  replies := 0
  stale := 0
  staleUntilUs := 0

/-- The reply took too long, or its probe was sent before the last such reply came in. -/
def isStale (cs : ClockSync) (t : ProbeTimes) : Prop :=
  clockSyncMaxRttUs < t.rtt ∨ t.t1 < cs.staleUntilUs

instance (cs : ClockSync) (t : ProbeTimes) : Decidable (cs.isStale t) :=
  inferInstanceAs (Decidable (_ ∨ _))

/-- Some sample of the window says that the air clock has jumped. -/
def jumped (cs : ClockSync) (t : ProbeTimes) : Bool :=
  cs.samples.held.any fun s => t.isOutlier s

/-- `clock_sync_on_reply`. -/
def onReply (cs : ClockSync) (t : ProbeTimes) : ClockSync :=
  if t.isGarbage then cs
  else if cs.isStale t then
    { cs with
      staleUntilUs :=
        if clockSyncMaxRttUs < t.rtt ∧ cs.staleUntilUs < t.t4 then t.t4 else cs.staleUntilUs
      stale := cs.stale + 1 }
  else
    { cs with
      samples :=
        (if cs.jumped t then cs.samples.clear else cs.samples).push clockSyncWindow t.sample
      replies := cs.replies + 1 }

/-- The search for the shortest round trip; the first one wins a tie. -/
def bestOf : List Sample → Option Sample
  | [] => none
  | s :: ss => some (ss.foldl (fun best s => if s.rttUs < best.rttUs then s else best) s)

/-- `clock_sync_get`: the offset and its uncertainty, once there is a sample. -/
def get (cs : ClockSync) : Option (ℤ × ℕ) :=
  (bestOf cs.samples.held).map fun s => (s.offsetUs, min (s.rttUs / 2) (2 ^ 32 - 1))

end ClockSync

/-! ### Replies that were really exchanged -/

/-- A probe that was really exchanged with an air unit whose clock was `offset` ahead. -/
structure GenuineReply extends ProbeTimes where
  up : ℕ
  turn : ℕ
  down : ℕ
  /-- The true offset. -/
  offset : ℤ
  t2_eq : (t2 : ℤ) = t1 + up + offset
  t3_eq : t3 = t2 + turn
  t4_eq : (t4 : ℤ) = t3 + down - offset
  t1_lt : t1 < 2 ^ 62
  t2_lt : t2 < 2 ^ 62
  t3_lt : t3 < 2 ^ 62
  t4_lt : t4 < 2 ^ 62

/-- What the ground has heard so far: how long ago the last reply that took too long came
in, and the replies that count. -/
structure Ledger where
  horizon : ℕ
  accepted : List GenuineReply

/-- One more reply. -/
def Ledger.next (l : Ledger) (r : GenuineReply) : Ledger :=
  if clockSyncMaxRttUs < r.rtt then { l with horizon := max l.horizon r.t4 }
  else if r.t1 < l.horizon then l
  else { l with accepted := l.accepted ++ [r] }

/-- The ledger of a run. -/
def ledger (rs : List GenuineReply) : Ledger := rs.foldl Ledger.next ⟨0, []⟩

/-- The replies a run accepts, in order. -/
def acceptedReplies (rs : List GenuineReply) : List GenuineReply := (ledger rs).accepted

/-- The state of the code after a run. -/
def clockSyncRun (rs : List GenuineReply) : ClockSync :=
  rs.foldl (fun cs r => cs.onReply r.toProbeTimes) ClockSync.init

/-- Of the accepted replies, those since the air clock last jumped. -/
def currentEpoch (acc : List GenuineReply) : List GenuineReply :=
  acc.rtakeWhile fun r => acc.getLast?.map GenuineReply.offset == some r.offset

/-- Between two accepted replies the true offset stays or moves by more than 760000 µs. -/
def Steady (acc : List GenuineReply) : Prop :=
  acc.IsChain fun a b => a.offset = b.offset ∨ 760000 < |b.offset - a.offset|

/-! ### One genuine reply -/

theorem int64_of_lt {x : ℤ} (hlow : -2 ^ 63 ≤ x) (hhigh : x < 2 ^ 63) : int64 x = x :=
  Int.bmod_eq_of_le (by simpa using hlow) (by simpa using hhigh)

/-- Halving towards zero loses at most a half. -/
theorem abs_two_mul_tdiv_two_sub_le (x : ℤ) : |2 * x.tdiv 2 - x| ≤ 1 := by
  rcases le_total 0 x with hx | hx
  · rw [Int.tdiv_eq_ediv_of_nonneg hx, abs_le]
    omega
  · have hneg : x.tdiv 2 = -((-x) / 2) := by
      rw [← Int.tdiv_eq_ediv_of_nonneg (by omega), Int.neg_tdiv, neg_neg]
    rw [hneg, abs_le]
    omega

namespace GenuineReply

variable (r : GenuineReply)

theorem not_isGarbage : ¬ r.isGarbage := by
  have h2 := r.t2_eq
  have h3 := r.t3_eq
  have h4 := r.t4_eq
  rw [ProbeTimes.isGarbage]
  omega

theorem rtt_eq : r.rtt = r.up + r.down := by
  have h2 := r.t2_eq
  have h3 := r.t3_eq
  have h4 := r.t4_eq
  rw [ProbeTimes.rtt]
  omega

/-- **The error of one sample**: half the asymmetry of the two ways, plus rounding. -/
theorem two_mul_offset_error : |2 * r.toProbeTimes.offset - 2 * r.offset| ≤ r.rtt + 1 := by
  have h2 := r.t2_eq
  have h3 := r.t3_eq
  have h4 := r.t4_eq
  have hlt1 := r.t1_lt
  have hlt2 := r.t2_lt
  have hlt3 := r.t3_lt
  have hlt4 := r.t4_lt
  have hoff : r.toProbeTimes.offset = Int.tdiv (((r.t2 : ℤ) - r.t1) + ((r.t3 : ℤ) - r.t4)) 2 := by
    rw [ProbeTimes.offset, int64_of_lt (x := (r.t2 : ℤ) - r.t1) (by omega) (by omega),
      int64_of_lt (x := (r.t3 : ℤ) - r.t4) (by omega) (by omega), int64_of_lt (by omega) (by omega)]
  have hhalf := abs_le.mp (abs_two_mul_tdiv_two_sub_le (((r.t2 : ℤ) - r.t1) + ((r.t3 : ℤ) - r.t4)))
  rw [← hoff] at hhalf
  rw [r.rtt_eq, abs_le]
  push_cast
  omega

end GenuineReply

/-! ### The epoch -/

/-- Every reply of the current epoch was exchanged at the last one's offset. -/
theorem offset_of_mem_currentEpoch {acc : List GenuineReply} {r last : GenuineReply}
    (hlast : acc.getLast? = some last) (hr : r ∈ currentEpoch acc) : r.offset = last.offset := by
  have h := List.mem_rtakeWhile_imp hr
  rw [hlast, Option.map_some, beq_iff_eq, Option.some.injEq] at h
  exact h.symm

theorem mem_of_mem_currentEpoch {acc : List GenuineReply} {r : GenuineReply}
    (hr : r ∈ currentEpoch acc) : r ∈ acc :=
  (List.rtakeWhile_suffix _ acc).subset hr

/-- One more accepted reply stays in the epoch or starts a new one. -/
theorem currentEpoch_concat (acc : List GenuineReply) (r : GenuineReply) :
    currentEpoch (acc ++ [r]) =
      if acc.getLast?.map GenuineReply.offset = some r.offset then currentEpoch acc ++ [r]
      else [r] := by
  rw [currentEpoch, List.getLast?_concat]
  split_ifs with hsame
  · rw [List.rtakeWhile_concat_pos _ _ _ (by simp), currentEpoch, hsame, Option.map_some]
  · rw [List.rtakeWhile_concat_pos _ _ _ (by simp)]
    have hnil :
        acc.rtakeWhile (fun x => (some r).map GenuineReply.offset == some x.offset) = [] := by
      rw [List.rtakeWhile_eq_nil_iff]
      intro hne heq
      rw [Option.map_some, beq_iff_eq] at heq
      exact hsame (by rw [List.getLast?_eq_some_getLast hne, Option.map_some, heq])
    rw [hnil, List.nil_append]

theorem currentEpoch_ne_nil {acc : List GenuineReply} (h : acc ≠ []) : currentEpoch acc ≠ [] := by
  rw [currentEpoch, ne_eq, List.rtakeWhile_eq_nil_iff, not_forall]
  refine ⟨h, ?_⟩
  simp [List.getLast?_eq_some_getLast h]

/-! ### The invariant -/

/-- What the code's state has to do with the run so far. -/
structure Synced (cs : ClockSync) (l : Ledger) : Prop where
  horizon : cs.staleUntilUs = l.horizon
  window : cs.samples.Holds clockSyncWindow ((currentEpoch l.accepted).map fun r => r.sample)
  rtt_le : ∀ r ∈ l.accepted, r.rtt ≤ clockSyncMaxRttUs

theorem synced_init : Synced ClockSync.init ⟨0, []⟩ where
  horizon := rfl
  window := ⟨rfl, rfl, rfl, by simp [currentEpoch]⟩
  rtt_le := by simp

section Step

variable {cs : ClockSync} {l : Ledger}

/-- The samples of the window are those of the last replies of the epoch. -/
theorem Synced.mem_held_iff (h : Synced cs l) {s : Sample} :
    s ∈ cs.samples.held ↔
      s ∈ Window.lastOf clockSyncWindow ((currentEpoch l.accepted).map fun r => r.sample) :=
  (h.window.perm (by decide)).mem_iff

/-- A sample of the window comes from an accepted reply of the epoch. -/
theorem Synced.exists_of_mem_held (h : Synced cs l) {s : Sample} (hs : s ∈ cs.samples.held) :
    ∃ r ∈ currentEpoch l.accepted, s = r.sample ∧ r.rtt ≤ clockSyncMaxRttUs := by
  obtain ⟨r, hr, rfl⟩ := List.mem_map.mp (List.mem_of_mem_drop (h.mem_held_iff.mp hs))
  exact ⟨r, hr, rfl, h.rtt_le r (mem_of_mem_currentEpoch hr)⟩

theorem Synced.held_eq_nil_iff (h : Synced cs l) : cs.samples.held = [] ↔ l.accepted = [] := by
  have hlen := (h.window.perm (by decide)).length_eq
  rw [Window.lastOf, List.length_drop, List.length_map] at hlen
  have hpos : 0 < clockSyncWindow := by decide
  refine ⟨fun hnil => ?_, fun hnil => ?_⟩
  · by_contra hne
    have := List.length_pos_of_ne_nil (currentEpoch_ne_nil hne)
    rw [hnil, List.length_nil] at hlen
    omega
  · have hepoch : currentEpoch l.accepted = [] := by simp [currentEpoch, hnil]
    rw [hepoch] at hlen
    exact List.length_eq_zero_iff.mp (by simpa using hlen)

/-- Two replies of one epoch explain each other's offsets, and two whose true offsets are
more than 760000 µs apart never do. -/
theorem isOutlier_iff {a b : GenuineReply} (ha : a.rtt ≤ clockSyncMaxRttUs)
    (hb : b.rtt ≤ clockSyncMaxRttUs)
    (hstep : a.offset = b.offset ∨ 760000 < |b.offset - a.offset|) :
    b.isOutlier a.sample ↔ a.offset ≠ b.offset := by
  have hea := abs_le.mp a.two_mul_offset_error
  have heb := abs_le.mp b.two_mul_offset_error
  rw [clockSyncMaxRttUs] at ha hb
  rw [lt_abs] at hstep
  have hdef : b.isOutlier a.sample ↔
      ((b.rtt + a.rtt + 5000 : ℕ) : ℤ) < |b.toProbeTimes.offset - a.toProbeTimes.offset| := Iff.rfl
  rw [hdef, lt_abs]
  refine ⟨fun hout => ?_, fun hne => ?_⟩
  · omega
  · have hfar := hstep.resolve_left hne
    omega

/-- The code takes the air clock to have jumped exactly when it has. -/
theorem Synced.jumped_iff (h : Synced cs l) {r : GenuineReply} (hr : r.rtt ≤ clockSyncMaxRttUs)
    (hsteady : Steady (l.accepted ++ [r])) :
    cs.jumped r.toProbeTimes = true ↔ ∃ last, l.accepted.getLast? = some last ∧
      last.offset ≠ r.offset := by
  have hall : ∀ last, l.accepted.getLast? = some last → ∀ s ∈ cs.samples.held,
      (r.isOutlier s ↔ last.offset ≠ r.offset) := by
    intro last hlast s hs
    obtain ⟨a, ha, rfl, hrtt⟩ := h.exists_of_mem_held hs
    have hstep := (List.isChain_append.mp hsteady).2.2 last (by simpa using hlast) r (by simp)
    rw [← offset_of_mem_currentEpoch hlast ha] at hstep ⊢
    exact isOutlier_iff hrtt hr hstep
  rw [ClockSync.jumped, List.any_eq_true]
  constructor
  · rintro ⟨s, hs, hout⟩
    have hne : l.accepted ≠ [] := fun hnil => by
      rw [h.held_eq_nil_iff.mpr hnil] at hs
      simp at hs
    have hlast := List.getLast?_eq_some_getLast hne
    exact ⟨_, hlast, (hall _ hlast s hs).mp (by simpa using hout)⟩
  · rintro ⟨last, hlast, hne⟩
    have hheld : cs.samples.held ≠ [] := fun hnil => by
      rw [h.held_eq_nil_iff.mp hnil] at hlast
      simp at hlast
    obtain ⟨s, hs⟩ := List.exists_mem_of_ne_nil _ hheld
    exact ⟨s, hs, by simpa using (hall last hlast s hs).mpr hne⟩

/-- A genuine reply is stale for the code exactly when the ledger does not accept it. -/
theorem Synced.isStale_iff (h : Synced cs l) (r : GenuineReply) :
    cs.isStale r.toProbeTimes ↔ clockSyncMaxRttUs < r.rtt ∨ r.t1 < l.horizon := by
  rw [ClockSync.isStale, h.horizon]

/-- **One reply** keeps the invariant. -/
theorem Synced.onReply (h : Synced cs l) (r : GenuineReply)
    (hsteady : Steady (l.next r).accepted) : Synced (cs.onReply r.toProbeTimes) (l.next r) := by
  have hstale := h.isStale_iff r
  rw [ClockSync.onReply, if_neg r.not_isGarbage]
  rw [Ledger.next] at hsteady ⊢
  by_cases hslow : clockSyncMaxRttUs < r.rtt
  · -- too slow: only the horizon moves
    rw [if_pos (hstale.mpr (Or.inl hslow)), if_pos hslow]
    refine ⟨?_, h.window, h.rtt_le⟩
    simp only [hslow, true_and, h.horizon]
    split_ifs <;> omega
  rw [if_neg hslow] at hsteady ⊢
  by_cases hearly : r.t1 < l.horizon
  · -- sent before the horizon: nothing moves
    rw [if_pos (hstale.mpr (Or.inr hearly)), if_pos hearly]
    refine ⟨?_, h.window, h.rtt_le⟩
    simp only [hslow, false_and, if_false]
    exact h.horizon
  rw [if_neg hearly] at hsteady ⊢
  rw [if_neg (by rw [hstale]; omega)]
  have hrtt : r.rtt ≤ clockSyncMaxRttUs := by omega
  refine ⟨h.horizon, ?_, ?_⟩
  · have hjump := h.jumped_iff hrtt hsteady
    simp only [currentEpoch_concat]
    -- the window is cleared where the ledger begins a new epoch
    split_ifs with hj hsame hsame
    · obtain ⟨last, hlast, hne⟩ := hjump.mp hj
      rw [hlast, Option.map_some, Option.some.injEq] at hsame
      exact absurd hsame hne
    · exact h.window.clear.push (by decide) _
    · rw [List.map_append]
      exact h.window.push (by decide) _
    · -- no jump and another offset: this is the first accepted reply
      have hnil : l.accepted = [] := by
        by_contra hne
        have hlast := List.getLast?_eq_some_getLast hne
        rw [hlast, Option.map_some, Option.some.injEq] at hsame
        exact hj (hjump.mpr ⟨_, hlast, hsame⟩)
      have hwin := h.window
      rw [hnil] at hwin
      exact hwin.push (by decide) _
  · intro a ha
    rcases List.mem_append.mp ha with ha | ha
    · exact h.rtt_le a ha
    · rw [List.mem_singleton.mp ha]
      exact hrtt

end Step

/-- The accepted replies before the last reply. -/
theorem accepted_next_isPrefix (l : Ledger) (r : GenuineReply) :
    l.accepted <+: (l.next r).accepted := by
  rw [Ledger.next]
  split_ifs
  · exact List.prefix_rfl
  · exact List.prefix_rfl
  · exact List.prefix_append _ _

/-- **Every run** keeps the invariant. -/
theorem synced_run (rs : List GenuineReply) (hsteady : Steady (acceptedReplies rs)) :
    Synced (clockSyncRun rs) (ledger rs) := by
  induction rs using List.reverseRecOn with
  | nil => exact synced_init
  | append_singleton rs r ih =>
    simp only [acceptedReplies, ledger, clockSyncRun, List.foldl_concat] at hsteady ih ⊢
    have hbefore := hsteady
    obtain ⟨tail, htail⟩ := accepted_next_isPrefix (rs.foldl Ledger.next ⟨0, []⟩) r
    rw [← htail] at hbefore
    exact (ih hbefore.left_of_append).onReply r hsteady

/-! ### What the estimate is worth -/

theorem bestOf_spec {ss : List Sample} {best : Sample} (h : ClockSync.bestOf ss = some best) :
    best ∈ ss ∧ ∀ s ∈ ss, best.rttUs ≤ s.rttUs := by
  cases ss with
  | nil => simp [ClockSync.bestOf] at h
  | cons s ss =>
    obtain rfl := Option.some.inj h
    clear h
    induction ss generalizing s with
    | nil => simp
    | cons a ss ih =>
      simp only [List.foldl_cons]
      split_ifs with hlt
      · obtain ⟨hmem, hmin⟩ := ih a
        refine ⟨List.mem_cons_of_mem s hmem, ?_⟩
        rintro x (_ | ⟨_, hx⟩)
        · exact (hmin a (by simp)).trans hlt.le
        · exact hmin x hx
      · obtain ⟨hmem, hmin⟩ := ih s
        have hs := hmin s (by simp)
        refine ⟨?_, fun x hx => ?_⟩
        · rcases List.mem_cons.mp hmem with heq | hmem
          · rw [heq]
            simp
          · simp [hmem]
        · rcases List.mem_cons.mp hx with rfl | hx
          · exact hs
          rcases List.mem_cons.mp hx with rfl | hx
          · omega
          · exact hmin x (by simp [hx])

theorem horizon_le_iff (rs : List GenuineReply) (t : ℕ) :
    (ledger rs).horizon ≤ t ↔ ∀ r ∈ rs, clockSyncMaxRttUs < r.rtt → r.t4 ≤ t := by
  induction rs using List.reverseRecOn with
  | nil => simp [ledger]
  | append_singleton rs r ih =>
    simp only [ledger, List.foldl_concat, List.mem_append, List.mem_singleton, or_imp,
      forall_and, forall_eq] at ih ⊢
    rw [← ih, Ledger.next]
    split_ifs with hslow hearly
    · simp [hslow]
    · simp [hslow]
    · simp [hslow]

/-- A reply is accepted exactly when it was fast enough and its probe went out after the
last slow reply came in. -/
theorem Synced.replies_onReply_iff {cs : ClockSync} {rs : List GenuineReply}
    (h : Synced cs (ledger rs)) (r : GenuineReply) :
    (cs.onReply r.toProbeTimes).replies = cs.replies + 1 ↔
      r.rtt ≤ clockSyncMaxRttUs ∧ ∀ r' ∈ rs, clockSyncMaxRttUs < r'.rtt → r'.t4 ≤ r.t1 := by
  rw [← horizon_le_iff, ClockSync.onReply, if_neg r.not_isGarbage]
  have hstale := h.isStale_iff r
  by_cases hs : cs.isStale r.toProbeTimes
  · rw [if_pos hs]
    refine ⟨fun heq => absurd heq (by simp), fun hok => ?_⟩
    rw [hstale] at hs
    omega
  · rw [if_neg hs]
    rw [hstale, not_or] at hs
    exact ⟨fun _ => by omega, fun _ => rfl⟩

/-- The best sample of the window is within its uncertainty of the true offset. -/
theorem Synced.get_sound {cs : ClockSync} {l : Ledger} (h : Synced cs l) {off : ℤ} {unc : ℕ}
    (hget : cs.get = some (off, unc)) :
    ∃ last, l.accepted.getLast? = some last ∧ |off - last.offset| ≤ unc + 1 ∧ unc ≤ 125000 ∧
      ∃ best ∈ cs.samples.held, best.offsetUs = off ∧ best.rttUs / 2 = unc ∧
        ∀ s ∈ cs.samples.held, best.rttUs ≤ s.rttUs := by
  obtain ⟨best, hbest, hpair⟩ := Option.map_eq_some_iff.mp hget
  obtain ⟨hoff, hunc⟩ := Prod.mk.inj hpair
  obtain ⟨hmem, hmin⟩ := bestOf_spec hbest
  obtain ⟨r, hr, rfl, hrtt⟩ := h.exists_of_mem_held hmem
  have hne : l.accepted ≠ [] := List.ne_nil_of_mem (mem_of_mem_currentEpoch hr)
  have hlast := List.getLast?_eq_some_getLast hne
  have herr := abs_le.mp r.two_mul_offset_error
  have hsame := offset_of_mem_currentEpoch hlast hr
  have hhalf : r.rtt / 2 = unc := by
    rw [clockSyncMaxRttUs] at hrtt
    have hfits : r.rtt / 2 ≤ 2 ^ 32 - 1 := by omega
    exact (Nat.min_eq_left hfits).symm.trans hunc
  have hoff : r.toProbeTimes.offset = off := hoff
  refine ⟨_, hlast, ?_, ?_, _, hmem, hoff, hhalf, hmin⟩
  · rw [← hsame, abs_le]
    omega
  · rw [clockSyncMaxRttUs] at hrtt
    omega

/-- **The clock estimate over whole runs.** Take any run of genuine replies in which the
true offset, from one accepted reply to the next, stays or moves by more than 760000 µs.
At its end: an estimate, if there is one, is within its uncertainty of the true offset of
the last accepted reply; the next reply is accepted exactly when it was fast enough and
sent after the last slow one came in; if accepted it resets the window exactly when the
true offset has moved; the window holds the last sixteen accepted replies since the last
move; and the estimate is the one of them with the shortest round trip. -/
theorem clockSync_estimate (rs : List GenuineReply) (hsteady : Steady (acceptedReplies rs)) :
    (∀ off unc, (clockSyncRun rs).get = some (off, unc) →
      ∃ last, (acceptedReplies rs).getLast? = some last ∧ |off - last.offset| ≤ unc + 1 ∧
        unc ≤ 125000 ∧
        ∃ best ∈ (clockSyncRun rs).samples.held, best.offsetUs = off ∧ best.rttUs / 2 = unc ∧
          ∀ s ∈ (clockSyncRun rs).samples.held, best.rttUs ≤ s.rttUs) ∧
    ((clockSyncRun rs).get = none ↔ acceptedReplies rs = []) ∧
    (∀ r : GenuineReply,
      (((clockSyncRun rs).onReply r.toProbeTimes).replies = (clockSyncRun rs).replies + 1 ↔
        r.rtt ≤ clockSyncMaxRttUs ∧ ∀ r' ∈ rs, clockSyncMaxRttUs < r'.rtt → r'.t4 ≤ r.t1) ∧
      (r.rtt ≤ clockSyncMaxRttUs → Steady (acceptedReplies rs ++ [r]) →
        ((clockSyncRun rs).jumped r.toProbeTimes = true ↔
          ∃ last, (acceptedReplies rs).getLast? = some last ∧ last.offset ≠ r.offset))) ∧
    (clockSyncRun rs).samples.held.Perm
      (Window.lastOf clockSyncWindow
        ((currentEpoch (acceptedReplies rs)).map fun r => r.sample)) := by
  have h := synced_run rs hsteady
  refine ⟨fun off unc hget => h.get_sound hget, ?_, fun r => ⟨h.replies_onReply_iff r, ?_⟩,
    h.window.perm (by decide)⟩
  · rw [acceptedReplies, ← h.held_eq_nil_iff, ClockSync.get, Option.map_eq_none_iff]
    cases (clockSyncRun rs).samples.held <;> simp [ClockSync.bestOf]
  · exact fun hrtt hs => h.jumped_iff hrtt hs

/-- A reply with 5 ms each way. -/
def promptReply : GenuineReply where
  t1 := 1000000
  t2 := 1005000
  t3 := 1005000
  t4 := 1010000
  up := 5000
  turn := 0
  down := 5000
  offset := 0
  t2_eq := by decide
  t3_eq := by decide
  t4_eq := by decide
  t1_lt := by decide
  t2_lt := by decide
  t3_lt := by decide
  t4_lt := by decide

/-- A reply that took 250 ms on the way up, from an air unit that is 100 ms ahead. -/
def lopsidedReply : GenuineReply where
  t1 := 2000000
  t2 := 2350000
  t3 := 2350000
  t4 := 2250000
  up := 250000
  turn := 0
  down := 0
  offset := 100000
  t2_eq := by decide
  t3_eq := by decide
  t4_eq := by decide
  t1_lt := by decide
  t2_lt := by decide
  t3_lt := by decide
  t4_lt := by decide

/-- The same probe answered with the air clock 1 s ahead. -/
def rebootedReply : GenuineReply where
  t1 := 2000000
  t2 := 3250000
  t3 := 3250000
  t4 := 2250000
  up := 250000
  turn := 0
  down := 0
  offset := 1000000
  t2_eq := by decide
  t3_eq := by decide
  t4_eq := by decide
  t1_lt := by decide
  t2_lt := by decide
  t3_lt := by decide
  t4_lt := by decide

/-- A reboot seen by an accepted reply starts the window over. -/
theorem clockSync_estimate_reboot :
    acceptedReplies [promptReply, rebootedReply] = [promptReply, rebootedReply] ∧
      (clockSyncRun [promptReply, rebootedReply]).samples.held.Perm
        (Window.lastOf clockSyncWindow [rebootedReply.sample]) := by
  have hacc : acceptedReplies [promptReply, rebootedReply] = [promptReply, rebootedReply] := rfl
  have hsteady : Steady (acceptedReplies [promptReply, rebootedReply]) := by
    rw [hacc, Steady, List.isChain_pair]
    exact Or.inr (by decide)
  refine ⟨hacc, ?_⟩
  have hperm := (clockSync_estimate [promptReply, rebootedReply] hsteady).2.2.2
  have hepoch : currentEpoch (acceptedReplies [promptReply, rebootedReply]) = [rebootedReply] := rfl
  rwa [hepoch] at hperm

/-- The true offsets of the epochs of a run: each reboot moves the clock by more than
760000 µs, and the replies come in the order of their epochs. -/
structure EpochRun (offsets : List ℤ) (rs : List GenuineReply) : Prop where
  jumps : offsets.IsChain fun a b => 760000 < |b - a|
  epochs : ∃ es : List ℕ, es.IsChain (· ≤ ·) ∧
    List.Forall₂ (fun e r => offsets[e]? = some r.offset) es rs

/-- Two reboots that nearly cancel, with no reply accepted in between, go unnoticed: the
prompt reply from before them stays the best sample, and its uncertainty does not cover
what the clock has moved. -/
theorem cancelling_reboots_unnoticed :
    EpochRun [0, 1000000, 100000] [promptReply, lopsidedReply] ∧
      (clockSyncRun [promptReply, lopsidedReply]).get = some (0, 5000) ∧
      (acceptedReplies [promptReply, lopsidedReply]).getLast? = some lopsidedReply ∧
      ¬ |(0 : ℤ) - lopsidedReply.offset| ≤ (5000 : ℕ) + 1 := by
  refine ⟨⟨?_, [0, 2], ?_, ?_⟩, ?_, rfl, ?_⟩
  · rw [List.isChain_cons_cons, List.isChain_pair]
    exact ⟨by decide, by decide⟩
  · exact List.isChain_pair.mpr (by decide)
  · exact .cons rfl (.cons rfl .nil)
  · decide +kernel
  · decide

end Ar8030
