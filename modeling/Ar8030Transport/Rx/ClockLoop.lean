import Ar8030Transport.Library.Trace
import Ar8030Transport.Rx.CaptureTime
import Ar8030Transport.Rx.ClockSync
import Ar8030Transport.Tx.Outq

/-!
# The clocks of the two units

The ground asks for the air's time with `SYNC` lines (`idr_relay_thread_main`), the air queues an
answer to each (`idr_ctrl_thread_main`) that goes out with its next write (`stage_outq`), and the
ground reads the answers (`handle_air_ctrl`). Keyframe requests and sidecar datagrams go the same
ways. Lines get lost, the queue drops its oldest item, and the air unit reboots, which puts its
clock back to zero.

`ClockLoop` is both units and what is under way between them. Whatever happens, the offset that
the ground believes in is right to within the uncertainty it gives, and so are the capture times
it computes (`clock_loop`).
-/

namespace Ar8030

open Trace

/-! ### The two units -/

/-- `AR8030_CHUNK_CODEC_SIDECAR`. -/
def chunkCodecSidecar : UInt8 := 0x04

/-- `CLOCK_SYNC_FAST_PERIOD_MS`. -/
def clockSyncFastPeriodMs : ℕ := 100

/-- `CLOCK_SYNC_PERIOD_MS`. -/
def clockSyncPeriodMs : ℕ := 500

/-- The part of `clock_sync_t` that is about sending. -/
structure ProbeClock where
  seq : ℕ
  lastSentUs : ℕ
  deriving DecidableEq, Repr

/-- `clock_sync_due`: the sequence number and time of a probe, if one is due. -/
def clockSyncDue (cs : ClockSync) (p : ProbeClock) (nowUs : ℕ) : Option (ℕ × ℕ) × ProbeClock :=
  let periodUs := 1000 *
    (if cs.samples.n < clockSyncWindow then clockSyncFastPeriodMs else clockSyncPeriodMs)
  if p.lastSentUs = 0 ∨ periodUs ≤ nowUs - p.lastSentUs then
    (some (p.seq, nowUs), ⟨(p.seq + 1) % 2 ^ 32, nowUs⟩)
  else (none, p)

/-- A probe takes the next number and the time. -/
theorem clockSyncDue_cases (cs : ClockSync) (p : ProbeClock) (nowUs : ℕ) :
    clockSyncDue cs p nowUs = (some (p.seq, nowUs), ⟨(p.seq + 1) % 2 ^ 32, nowUs⟩) ∨
      clockSyncDue cs p nowUs = (none, p) :=
  ite_eq_or_eq _ _ _

/-- Both units, and the lines under way. -/
structure ClockLoop where
  groundUs : ℕ
  airUs : ℕ
  sync : ClockSync
  probes : ProbeClock
  /-- From the ground to the air. -/
  up : List (List UInt8)
  outq : TxOutq
  /-- From the air to the ground, each with its codec. -/
  down : List (UInt8 × List UInt8)

/-- What happens. -/
inductive LoopAction where
  | tick (us : ℕ)
  /-- The air unit reboots. -/
  | reboot
  /-- The transmitter alone is started anew. -/
  | restart
  /-- The relay looks whether a probe is due. -/
  | probe
  /-- It gets a keyframe request. -/
  | request (datagram : List UInt8)
  /-- The air reads a line. -/
  | airRead
  /-- It gets a sidecar datagram. -/
  | sidecar (datagram : List UInt8)
  /-- It sends one item of its queue. -/
  | stage
  /-- The ground reads a line. -/
  | groundRead
  | loseUp (i : ℕ)
  | loseDown (i : ℕ)
  deriving DecidableEq, Repr

namespace ClockLoop

/-- Both programs start at these times. -/
def start (groundUs airUs : ℕ) : ClockLoop where
  groundUs := groundUs
  airUs := airUs
  sync := ClockSync.init
  probes := ⟨0, 0⟩
  up := []
  outq := TxOutq.init
  down := []

/-- How far the air clock is ahead. -/
def offset (s : ClockLoop) : ℤ := (s.airUs : ℤ) - s.groundUs

/-- The probe in `idr_relay_thread_main`. -/
def probe (s : ClockLoop) : ClockLoop :=
  match clockSyncDue s.sync s.probes s.groundUs with
  | (some (seq, t1), probes) =>
    { s with probes := probes, up := s.up ++ (idrRelaySync seq t1).toList }
  | (none, probes) => { s with probes := probes }

section Reading

variable (beyond : ℕ → Bool × ℕ → ℕ)

/-- The loop of `idr_ctrl_thread_main`, without the keyframe requests. -/
def airRead (s : ClockLoop) : ClockLoop :=
  match s.up with
  | [] => s
  | line :: up =>
    { s with
      up := up
      outq :=
        match idrCtrlCommand beyond line with
        | some (.sync seq t1) => txOutqPush s.outq ⟨[], chunkCodecCtrl, true, seq, t1, s.airUs⟩
        | _ => s.outq }

/-- The times in a line from the air; other codecs do not go to `handle_air_ctrl`. -/
def answerOf (line : UInt8 × List UInt8) : Option (ℕ × ℕ × ℕ × ℕ) :=
  if line.1 = chunkCodecCtrl then handleAirCtrl beyond line.2 else none

/-- The loop of `rx/main.c`, and the reply if it counts. -/
def groundRead (s : ClockLoop) : ClockLoop × List ProbeTimes :=
  match s.down with
  | [] => (s, [])
  | line :: down =>
    match answerOf beyond line with
    | none => ({ s with down := down }, [])
    | some (_, t1, t2, t3) =>
      let t : ProbeTimes := ⟨t1, t2, t3, s.groundUs⟩
      ({ s with down := down, sync := s.sync.onReply t },
        if (s.sync.onReply t).replies = s.sync.replies then [] else [t])

end Reading

/-- What the three leave alone. -/
theorem probe_eq (s : ClockLoop) :
    s.probe = { s with probes := s.probe.probes, up := s.probe.up } := by
  rw [probe]
  split <;> rfl

theorem airRead_eq (beyond : ℕ → Bool × ℕ → ℕ) (s : ClockLoop) :
    s.airRead beyond =
      { s with up := (s.airRead beyond).up, outq := (s.airRead beyond).outq } := by
  rw [airRead]
  split <;> rfl

theorem groundRead_eq (beyond : ℕ → Bool × ℕ → ℕ) (s : ClockLoop) :
    (s.groundRead beyond).1 =
      { s with
        down := (s.groundRead beyond).1.down
        sync := (s.groundRead beyond).1.sync } := by
  rw [groundRead]
  split
  · rfl
  · split <;> rfl

/-- One turn of the loop in `stage_outq`. -/
def stage (auxPayloadMax : ℕ) (s : ClockLoop) : ClockLoop :=
  { s with
    outq := (txOutqPop s.outq).2
    down := s.down ++ ((txOutqPop s.outq).1.bind fun item =>
      (stageOutq auxPayloadMax item s.airUs).map fun data => (item.codec, data)).toList }

/-- One action, and the reply that the ground takes in by it. -/
def step (beyond : ℕ → Bool × ℕ → ℕ) (auxPayloadMax : ℕ) (s : ClockLoop) :
    LoopAction → ClockLoop × List ProbeTimes
  | .tick us => ({ s with groundUs := s.groundUs + us, airUs := s.airUs + us }, [])
  | .reboot => ({ s with airUs := 0, outq := TxOutq.init }, [])
  | .restart => ({ s with outq := TxOutq.init }, [])
  | .probe => (s.probe, [])
  | .request datagram => ({ s with up := s.up ++ (idrRelayIdr datagram).toList }, [])
  | .airRead => (s.airRead beyond, [])
  | .sidecar datagram =>
    ({ s with outq := txOutqPush s.outq ⟨datagram, chunkCodecSidecar, false, 0, 0, 0⟩ }, [])
  | .stage => (s.stage auxPayloadMax, [])
  | .groundRead => s.groundRead beyond
  | .loseUp i => ({ s with up := s.up.eraseIdx i }, [])
  | .loseDown i => ({ s with down := s.down.eraseIdx i }, [])

end ClockLoop

section Runs

/-- What a run depends on. -/
structure ClockSetup where
  /-- What `sscanf` stores for a number that its variable cannot hold. -/
  beyond : ℕ → Bool × ℕ → ℕ
  auxPayloadMax : ℕ
  /-- The clocks when both programs start. -/
  groundUs : ℕ
  airUs : ℕ

variable (cfg : ClockSetup)

/-- A run, and the replies the ground has taken in. -/
def clockLoop (actions : List LoopAction) : ClockLoop × List ProbeTimes :=
  Mealy.run (ClockLoop.step cfg.beyond cfg.auxPayloadMax)
    (ClockLoop.start cfg.groundUs cfg.airUs) actions

/-- The air unit never reboots before its clock is past 760000 µs. -/
def RebootsApart (actions : List LoopAction) : Prop :=
  Always (fun past a => a = .reboot →
    760000 < (clockLoop cfg past).1.airUs) actions

/-- After the actions `pre` the air sent the answer with these times, to a probe of `t1`: its
clock read `t3` then, and `t2` at some time since `t1`, without a reboot in between. -/
structure Answered (pre : List LoopAction) (t1 t2 t3 : ℕ) : Prop where
  sent : (clockLoop cfg pre).1.airUs = t3
  heard : ∃ g2, t1 ≤ g2 ∧ g2 ≤ (clockLoop cfg pre).1.groundUs ∧
    (t2 : ℤ) = g2 + (clockLoop cfg pre).1.offset

end Runs

/-! ### The clocks -/

section Clocks

variable (cfg : ClockSetup)

/-- What an action does to the clocks. -/
theorem ClockLoop.step_clocks (beyond : ℕ → Bool × ℕ → ℕ) (auxPayloadMax : ℕ) (s : ClockLoop)
    (a : LoopAction) :
    (∃ us, a = .tick us ∧ (s.step beyond auxPayloadMax a).1.groundUs = s.groundUs + us ∧
      (s.step beyond auxPayloadMax a).1.airUs = s.airUs + us) ∨
    (a = .reboot ∧ (s.step beyond auxPayloadMax a).1.groundUs = s.groundUs ∧
      (s.step beyond auxPayloadMax a).1.airUs = 0) ∨
    (a ≠ .reboot ∧ (s.step beyond auxPayloadMax a).1.groundUs = s.groundUs ∧
      (s.step beyond auxPayloadMax a).1.airUs = s.airUs) := by
  cases a with
  | tick us => exact Or.inl ⟨us, rfl, rfl, rfl⟩
  | reboot => exact Or.inr (Or.inl ⟨rfl, rfl, rfl⟩)
  | probe =>
    rw [step, s.probe_eq]
    exact Or.inr (Or.inr ⟨by simp, rfl, rfl⟩)
  | airRead =>
    rw [step, s.airRead_eq]
    exact Or.inr (Or.inr ⟨by simp, rfl, rfl⟩)
  | groundRead =>
    rw [step, s.groundRead_eq]
    exact Or.inr (Or.inr ⟨by simp, rfl, rfl⟩)
  | restart => exact Or.inr (Or.inr ⟨by simp, rfl, rfl⟩)
  | request datagram => exact Or.inr (Or.inr ⟨by simp, rfl, rfl⟩)
  | sidecar datagram => exact Or.inr (Or.inr ⟨by simp, rfl, rfl⟩)
  | stage => exact Or.inr (Or.inr ⟨by simp, rfl, rfl⟩)
  | loseUp i => exact Or.inr (Or.inr ⟨by simp, rfl, rfl⟩)
  | loseDown i => exact Or.inr (Or.inr ⟨by simp, rfl, rfl⟩)

theorem clockLoop_concat (actions : List LoopAction) (a : LoopAction) :
    clockLoop cfg (actions ++ [a]) =
      (((clockLoop cfg actions).1.step cfg.beyond cfg.auxPayloadMax a).1,
        (clockLoop cfg actions).2 ++
          ((clockLoop cfg actions).1.step cfg.beyond cfg.auxPayloadMax a).2) :=
  Mealy.run_concat _ _ _ _

/-- The ground clock never goes back. -/
theorem groundUs_mono {pre actions : List LoopAction} (h : pre <+: actions) :
    (clockLoop cfg pre).1.groundUs ≤ (clockLoop cfg actions).1.groundUs := by
  induction actions using List.reverseRecOn with
  | nil => rw [List.prefix_nil.mp h]
  | append_singleton actions a ih =>
    rcases List.prefix_concat_iff.mp h with rfl | h
    · exact le_rfl
    · refine (ih h).trans ?_
      rw [clockLoop_concat]
      rcases ClockLoop.step_clocks cfg.beyond cfg.auxPayloadMax (clockLoop cfg actions).1 a with
        ⟨us, -, hground, -⟩ | ⟨-, hground, -⟩ | ⟨-, hground, -⟩
      · rw [hground]
        exact Nat.le_add_right _ _
      · exact hground.ge
      · exact hground.ge

/-- The air clock gains nothing on the ground clock. -/
theorem airUs_le (actions : List LoopAction) :
    (clockLoop cfg actions).1.airUs + cfg.groundUs ≤
      (clockLoop cfg actions).1.groundUs + cfg.airUs := by
  induction actions using List.reverseRecOn with
  | nil => exact (Nat.add_comm _ _).le
  | append_singleton actions a ih =>
    have hstart : cfg.groundUs ≤ _ := groundUs_mono cfg (@List.nil_prefix _ actions)
    rw [clockLoop_concat]
    rcases ClockLoop.step_clocks cfg.beyond cfg.auxPayloadMax (clockLoop cfg actions).1 a with
      ⟨us, -, hground, hair⟩ | ⟨-, hground, hair⟩ | ⟨-, hground, hair⟩ <;>
    · rw [hground, hair]
      omega

/-- Without a reboot the offset stays. -/
theorem offset_eq_of_notMem {pre post : List LoopAction} (h : .reboot ∉ post) :
    (clockLoop cfg (pre ++ post)).1.offset = (clockLoop cfg pre).1.offset := by
  induction post using List.reverseRecOn with
  | nil => rw [List.append_nil]
  | append_singleton post a ih =>
    rw [List.mem_append, List.mem_singleton, not_or] at h
    rw [← ih h.1, ← List.append_assoc, clockLoop_concat, ClockLoop.offset, ClockLoop.offset]
    rcases ClockLoop.step_clocks cfg.beyond cfg.auxPayloadMax
      (clockLoop cfg (pre ++ post)).1 a with
      ⟨us, -, hground, hair⟩ | ⟨rfl, -, -⟩ | ⟨-, hground, hair⟩
    · rw [hground, hair]
      omega
    · exact absurd rfl h.2
    · rw [hground, hair]

/-- Reboots far apart take the offset down by large steps. -/
theorem offset_steps {pre actions : List LoopAction} (hpre : pre <+: actions)
    (hreboots : RebootsApart cfg actions) :
    (clockLoop cfg actions).1.offset = (clockLoop cfg pre).1.offset ∨
      (clockLoop cfg actions).1.offset + 760000 < (clockLoop cfg pre).1.offset := by
  induction actions using List.reverseRecOn with
  | nil => exact Or.inl (by rw [List.prefix_nil.mp hpre])
  | append_singleton actions a ih =>
    obtain ⟨hreboots, hlast⟩ := always_concat_iff.mp hreboots
    rcases List.prefix_concat_iff.mp hpre with rfl | hpre
    · exact Or.inl rfl
    by_cases ha : a = .reboot
    · -- the clock falls from above 760000 to zero
      have hhigh := hlast ha
      have hstep : (clockLoop cfg (actions ++ [a])).1.offset =
          -((clockLoop cfg actions).1.groundUs : ℤ) := by
        rw [clockLoop_concat, ha]
        exact zero_sub _
      rw [hstep]
      have hbefore := ih hpre hreboots
      rw [ClockLoop.offset] at hbefore
      omega
    · have hnotMem : .reboot ∉ [a] := by simpa [eq_comm] using ha
      rw [offset_eq_of_notMem cfg hnotMem]
      exact ih hpre hreboots

/-- **Two offsets of a run** are the same or far apart. -/
theorem offsets_apart {pre pre' actions : List LoopAction} (h : pre <+: actions)
    (h' : pre' <+: actions) (hreboots : RebootsApart cfg actions) :
    (clockLoop cfg pre).1.offset = (clockLoop cfg pre').1.offset ∨
      760000 < |(clockLoop cfg pre').1.offset - (clockLoop cfg pre).1.offset| := by
  rw [lt_abs]
  rcases List.prefix_or_prefix_of_prefix h h' with hle | hle
  · obtain ⟨post, rfl⟩ := h'
    have := offset_steps cfg hle hreboots.of_append
    omega
  · obtain ⟨post, rfl⟩ := h
    have := offset_steps cfg hle hreboots.of_append
    omega

end Clocks

/-! ### What is under way -/

/-- A line on its way up asks with a time that has been. -/
def AsksTime (beyond : ℕ → Bool × ℕ → ℕ) (groundUs : ℕ) (line : List UInt8) : Prop :=
  ∀ seq t1, idrCtrlCommand beyond line = some (.sync seq t1) → seq < 2 ^ 32 ∧ t1 ≤ groundUs

/-- An item of the queue is an answer to be, or nothing of the kind. -/
def Queued (groundUs : ℕ) (offset : ℤ) (item : TxOutqItem) : Prop :=
  if item.isSyncr then
    item.syncSeq < 2 ^ 32 ∧
      ∃ g2, item.t1Us ≤ g2 ∧ g2 ≤ groundUs ∧ (item.t2Us : ℤ) = g2 + offset
  else item.codec ≠ chunkCodecCtrl

section Invariant

variable (cfg : ClockSetup)

/-- A line on its way down was sent as an answer, or is none. -/
def Answers (actions : List LoopAction) (line : UInt8 × List UInt8) : Prop :=
  ∀ seq t1 t2 t3, ClockLoop.answerOf cfg.beyond line = some (seq, t1, t2, t3) →
    ∃ pre, pre <+: actions ∧ Answered cfg pre t1 t2 t3

/-- A reply that came of an answer of the run. -/
def Exchanged (actions : List LoopAction) (r : GenuineReply) : Prop :=
  ∃ pre, pre <+: actions ∧ r.offset = (clockLoop cfg pre).1.offset ∧
    (clockLoop cfg pre).1.groundUs ≤ r.t4 ∧ Answered cfg pre r.t1 r.t2 r.t3

/-- The estimate comes of exchanged replies, and the last ones taken in are these. -/
def Estimated (actions : List LoopAction) (cs : ClockSync) (taken : List ProbeTimes) : Prop :=
  ∃ rs : List GenuineReply, cs = clockSyncRun rs ∧ (∀ r ∈ rs, Exchanged cfg actions r) ∧
    (acceptedReplies rs).map GenuineReply.toProbeTimes = taken

/-- What is under way after a run, and what the ground knows. -/
structure UnderWay (actions : List LoopAction) (x : ClockLoop × List ProbeTimes) : Prop where
  seq : x.1.probes.seq < 2 ^ 32
  up : ∀ line ∈ x.1.up, AsksTime cfg.beyond x.1.groundUs line
  outq : ∀ item ∈ x.1.outq.contents, Queued x.1.groundUs x.1.offset item
  down : ∀ line ∈ x.1.down, Answers cfg actions line
  estimated : Estimated cfg actions x.1.sync x.2

variable {cfg}

theorem AsksTime.mono {beyond : ℕ → Bool × ℕ → ℕ} {g g' : ℕ} {line : List UInt8}
    (h : AsksTime beyond g line) (hle : g ≤ g') : AsksTime beyond g' line := fun seq t1 hread =>
  ⟨(h seq t1 hread).1, (h seq t1 hread).2.trans hle⟩

theorem Queued.mono {g g' : ℕ} {offset : ℤ} {item : TxOutqItem} (h : Queued g offset item)
    (hle : g ≤ g') : Queued g' offset item := by
  rw [Queued] at h ⊢
  split_ifs at h ⊢
  · obtain ⟨hseq, g2, h1, h2, heq⟩ := h
    exact ⟨hseq, g2, h1, h2.trans hle, heq⟩
  · exact h

theorem Answers.mono {actions : List LoopAction} {line : UInt8 × List UInt8}
    (h : Answers cfg actions line) (a : LoopAction) : Answers cfg (actions ++ [a]) line := by
  intro seq t1 t2 t3 hread
  obtain ⟨pre, hpre, hans⟩ := h seq t1 t2 t3 hread
  exact ⟨pre, hpre.trans (List.prefix_append _ _), hans⟩

theorem Exchanged.mono {actions : List LoopAction} {r : GenuineReply}
    (h : Exchanged cfg actions r) (a : LoopAction) : Exchanged cfg (actions ++ [a]) r := by
  obtain ⟨pre, hpre, hrest⟩ := h
  exact ⟨pre, hpre.trans (List.prefix_append _ _), hrest⟩

theorem Estimated.mono {actions : List LoopAction} {cs : ClockSync} {taken : List ProbeTimes}
    (h : Estimated cfg actions cs taken) (a : LoopAction) :
    Estimated cfg (actions ++ [a]) cs taken := by
  obtain ⟨rs, hcs, hrs, htaken⟩ := h
  exact ⟨rs, hcs, fun r hr => (hrs r hr).mono a, htaken⟩

/-! ### The queue -/

theorem mem_contents_push {q : TxOutq} {x item : TxOutqItem}
    (h : x ∈ (txOutqPush q item).contents) : x ∈ q.contents ∨ x = item := by
  rw [contents_push, List.mem_append, List.mem_singleton, q.contents_makeRoom] at h
  refine h.imp_left fun h => ?_
  split_ifs at h
  · exact List.mem_of_mem_tail h
  · exact h

/-- A payload that fits into a chunk fits into a larger one. -/
theorem stageOutq_mono {aux aux' t3 : ℕ} {item : TxOutqItem} {data : List UInt8} (hle : aux ≤ aux')
    (h : stageOutq aux item t3 = some data) : stageOutq aux' item t3 = some data := by
  rw [stageOutq] at h ⊢
  dsimp only at h ⊢
  split_ifs at h ⊢ with htext hfits hfits' hfits hfits' <;> first | exact h | omega

/-! ### Replies that count -/

theorem acceptedReplies_subset (rs : List GenuineReply) : acceptedReplies rs ⊆ rs := by
  induction rs using List.reverseRecOn with
  | nil => exact List.Subset.refl _
  | append_singleton rs r ih =>
    intro x hx
    rw [acceptedReplies, ledger, List.foldl_concat, ← ledger, Ledger.next] at hx
    split_ifs at hx
    · exact List.mem_append_left _ (ih hx)
    · exact List.mem_append_left _ (ih hx)
    · rw [List.mem_append] at hx ⊢
      exact hx.imp_left fun hx => ih hx

/-- The ledger takes in the replies that the code counts. -/
theorem Synced.accepted_next {cs : ClockSync} {l : Ledger} (h : Synced cs l) (r : GenuineReply) :
    (l.next r).accepted =
      l.accepted ++ if (cs.onReply r.toProbeTimes).replies = cs.replies then [] else [r] := by
  have hstale := h.isStale_iff r
  rw [Ledger.next, ClockSync.onReply, if_neg r.not_isGarbage]
  by_cases hslow : clockSyncMaxRttUs < r.rtt
  · rw [if_pos hslow, if_pos (hstale.mpr (Or.inl hslow)), if_pos rfl, List.append_nil]
  by_cases hearly : r.t1 < l.horizon
  · rw [if_neg hslow, if_pos hearly, if_pos (hstale.mpr (Or.inr hearly)), if_pos rfl,
      List.append_nil]
  · have hfresh : ¬ cs.isStale r.toProbeTimes := by
      rw [hstale, not_or]
      exact ⟨hslow, hearly⟩
    rw [if_neg hslow, if_neg hearly, if_neg hfresh, if_neg (Nat.succ_ne_self _)]

/-! ### One action -/

section Step

variable {actions : List LoopAction}

/-- The readings of a run whose clocks stay in range. -/
theorem clocks_lt (hclock : (clockLoop cfg actions).1.groundUs + cfg.airUs < 2 ^ 60) :
    (clockLoop cfg actions).1.groundUs < 2 ^ 60 ∧ (clockLoop cfg actions).1.airUs < 2 ^ 60 := by
  have := airUs_le cfg actions
  omega

/-- The probes keep the invariant. -/
theorem UnderWay.probe (h : UnderWay cfg actions (clockLoop cfg actions))
    (hclock : (clockLoop cfg actions).1.groundUs < 2 ^ 60) :
    (clockLoop cfg actions).1.probe.probes.seq < 2 ^ 32 ∧
      ∀ line ∈ (clockLoop cfg actions).1.probe.up,
        AsksTime cfg.beyond (clockLoop cfg actions).1.groundUs line := by
  have hseq := h.seq
  have hup := h.up
  generalize (clockLoop cfg actions).1 = s at hclock hseq hup ⊢
  obtain ⟨line, hline, -, hread⟩ := sync_line cfg.beyond hseq hclock
  rw [ClockLoop.probe]
  rcases clockSyncDue_cases s.sync s.probes s.groundUs with hdue | hdue
  · rw [hdue]
    refine ⟨Nat.mod_lt _ (by decide), fun l hl => ?_⟩
    dsimp only at hl
    rw [hline, Option.toList_some, List.mem_append, List.mem_singleton] at hl
    rcases hl with hl | rfl
    · exact hup l hl
    · intro seq t1 hcmd
      rw [hread, Option.some.injEq, CtrlCommand.sync.injEq] at hcmd
      exact ⟨hcmd.1 ▸ hseq, hcmd.2.ge⟩
  · rw [hdue]
    exact ⟨hseq, hup⟩

/-- A keyframe request is not taken for a probe. -/
theorem asks_idr (beyond : ℕ → Bool × ℕ → ℕ) (g : ℕ) {datagram line : List UInt8}
    (h : idrRelayIdr datagram = some line) : AsksTime beyond g line := by
  intro seq t1 hcmd
  obtain ⟨token, -, -, hread⟩ := idr_line beyond h
  rw [hread] at hcmd
  split_ifs at hcmd <;> simp at hcmd

/-- The answers that are queued keep the invariant. -/
theorem UnderWay.airRead (h : UnderWay cfg actions (clockLoop cfg actions)) :
    (∀ line ∈ ((clockLoop cfg actions).1.airRead cfg.beyond).up,
      AsksTime cfg.beyond (clockLoop cfg actions).1.groundUs line) ∧
    ∀ item ∈ ((clockLoop cfg actions).1.airRead cfg.beyond).outq.contents,
      Queued (clockLoop cfg actions).1.groundUs (clockLoop cfg actions).1.offset item := by
  have hup := h.up
  have houtq := h.outq
  generalize (clockLoop cfg actions).1 = s at hup houtq
  rw [ClockLoop.airRead]
  split
  · exact ⟨hup, houtq⟩
  · rename_i line up heq
    rw [heq] at hup
    refine ⟨fun l hl => hup l (List.mem_cons_of_mem _ hl), fun item hitem => ?_⟩
    dsimp only at hitem
    split at hitem
    · rename_i seq t1 hcmd
      obtain ⟨hseq, ht1⟩ := hup line List.mem_cons_self seq t1 hcmd
      rcases mem_contents_push hitem with hitem | rfl
      · exact houtq item hitem
      · -- the answer to be was heard just now
        refine ⟨hseq, s.groundUs, ht1, le_rfl, ?_⟩
        rw [ClockLoop.offset]
        exact (add_sub_cancel _ _).symm
    · exact houtq item hitem

/-- What is sent keeps the invariant. -/
theorem UnderWay.stage (h : UnderWay cfg actions (clockLoop cfg actions))
    (hclock : (clockLoop cfg actions).1.groundUs + cfg.airUs < 2 ^ 60) :
    ∀ line ∈ ((clockLoop cfg actions).1.stage cfg.auxPayloadMax).down,
      Answers cfg actions line := by
  obtain ⟨hground, hair⟩ := clocks_lt hclock
  intro line hline
  rw [ClockLoop.stage, List.mem_append, Option.mem_toList, Option.bind_eq_some_iff] at hline
  rcases hline with hline | ⟨item, hpop, hstage⟩
  · exact h.down line hline
  obtain ⟨data, hdata, rfl⟩ := Option.map_eq_some_iff.mp hstage
  rw [popped_eq] at hpop
  have hqueued := h.outq item (List.mem_of_mem_head? hpop)
  intro seq t1 t2 t3 hread
  rw [Queued] at hqueued
  rw [ClockLoop.answerOf] at hread
  split_ifs at hqueued hread with hsyncr hcodec hcodec
  · obtain ⟨hseq, g2, h1, h2, heq⟩ := hqueued
    have heq' := heq
    rw [ClockLoop.offset] at heq'
    obtain ⟨text, -, hwrite, hread'⟩ := syncr_line cfg.beyond hseq
      (show item.t1Us < 2 ^ 60 by omega) (show item.t2Us < 2 ^ 60 by omega) hair
    -- the same text in a chunk that is large enough
    have htext : data = text := by
      have hlarge := hwrite (max 63 cfg.auxPayloadMax) item (le_max_left _ _) hsyncr rfl rfl rfl
      rw [stageOutq_mono (le_max_right 63 _) hdata] at hlarge
      exact Option.some.inj hlarge
    rw [htext, hread', Option.some.injEq] at hread
    simp only [Prod.mk.injEq] at hread
    obtain ⟨-, rfl, rfl, rfl⟩ := hread
    exact ⟨actions, List.prefix_rfl, rfl, g2, h1, h2, heq⟩
  · exact absurd hcodec hqueued

/-- **An answer that comes back is a genuine reply.** -/
theorem Answered.reply {pre : List LoopAction} {t1 t2 t3 : ℕ} (h : Answered cfg pre t1 t2 t3)
    (hpre : pre <+: actions)
    (hclock : (clockLoop cfg actions).1.groundUs + cfg.airUs < 2 ^ 60) :
    ∃ r : GenuineReply,
      r.toProbeTimes = ⟨t1, t2, t3, (clockLoop cfg actions).1.groundUs⟩ ∧
        Exchanged cfg actions r := by
  have hground := groundUs_mono cfg hpre
  have hair := airUs_le cfg pre
  obtain ⟨hsent, g2, h1, h2, heq⟩ := h
  have heq' := heq
  have hoffset : (clockLoop cfg pre).1.offset = (t3 : ℤ) - (clockLoop cfg pre).1.groundUs := by
    rw [ClockLoop.offset, hsent]
  rw [hoffset] at heq'
  rw [hsent] at hair
  refine ⟨{
    t1 := t1, t2 := t2, t3 := t3, t4 := (clockLoop cfg actions).1.groundUs
    up := g2 - t1, turn := t3 - t2
    down := (clockLoop cfg actions).1.groundUs - (clockLoop cfg pre).1.groundUs
    offset := (clockLoop cfg pre).1.offset
    t2_eq := by omega
    t3_eq := by omega
    t4_eq := by omega
    t1_lt := by omega
    t2_lt := by omega
    t3_lt := by omega
    t4_lt := by omega }, rfl, pre, hpre, rfl, hground, hsent, g2, h1, h2, heq⟩

/-- The replies of a run are steady. -/
theorem steady_of_exchanged {rs : List GenuineReply} (hreboots : RebootsApart cfg actions)
    (h : ∀ r ∈ rs, Exchanged cfg actions r) : Steady rs := by
  refine List.Pairwise.isChain (List.pairwise_of_forall_mem_list fun a ha b hb => ?_)
  obtain ⟨pre, hpre, ha, -⟩ := h a ha
  obtain ⟨pre', hpre', hb, -⟩ := h b hb
  rw [ha, hb]
  exact offsets_apart cfg hpre hpre' hreboots

/-- What the ground reads keeps the invariant. -/
theorem UnderWay.groundRead (h : UnderWay cfg actions (clockLoop cfg actions))
    (hreboots : RebootsApart cfg actions)
    (hclock : (clockLoop cfg actions).1.groundUs + cfg.airUs < 2 ^ 60) :
    (∀ line ∈ ((clockLoop cfg actions).1.groundRead cfg.beyond).1.down,
      Answers cfg actions line) ∧
    Estimated cfg actions ((clockLoop cfg actions).1.groundRead cfg.beyond).1.sync
      ((clockLoop cfg actions).2 ++ ((clockLoop cfg actions).1.groundRead cfg.beyond).2) := by
  have hdown := h.down
  obtain ⟨rs, hsync, hrs, htaken⟩ := h.estimated
  have hold : Estimated cfg actions (clockLoop cfg actions).1.sync
      ((clockLoop cfg actions).2 ++ []) := by
    rw [List.append_nil]
    exact h.estimated
  rw [ClockLoop.groundRead]
  split
  · exact ⟨hdown, hold⟩
  rename_i line down heq
  rw [heq] at hdown
  have hrest : ∀ l ∈ down, Answers cfg actions l := fun l hl => hdown l (List.mem_cons_of_mem _ hl)
  split
  · exact ⟨hrest, hold⟩
  rename_i seq t1 t2 t3 hread
  obtain ⟨pre, hpre, hans⟩ := hdown line List.mem_cons_self seq t1 t2 t3 hread
  obtain ⟨r, hr, hexchanged⟩ := hans.reply hpre hclock
  have hall : ∀ r' ∈ rs ++ [r], Exchanged cfg actions r' := by
    intro r' hr'
    rcases List.mem_append.mp hr' with hr' | hr'
    · exact hrs r' hr'
    · exact List.mem_singleton.mp hr' ▸ hexchanged
  have hsteady : Steady (acceptedReplies rs) :=
    steady_of_exchanged hreboots fun r' hr' => hrs r' (acceptedReplies_subset rs hr')
  have hsynced := synced_run rs hsteady
  refine ⟨hrest, rs ++ [r], ?_, hall, ?_⟩
  · rw [clockSyncRun, List.foldl_concat, ← clockSyncRun, hsync, hr]
  · have hnext : acceptedReplies (rs ++ [r]) = ((ledger rs).next r).accepted := by
      rw [acceptedReplies, ledger, ledger, List.foldl_concat]
    rw [hnext, hsynced.accepted_next r, List.map_append, ← htaken, ← hr, hsync]
    rw [acceptedReplies]
    dsimp only
    split_ifs
    · rfl
    · rfl

/-- **One action** keeps the invariant. -/
theorem UnderWay.step (h : UnderWay cfg actions (clockLoop cfg actions)) (a : LoopAction)
    (hreboots : RebootsApart cfg actions)
    (hclock : (clockLoop cfg actions).1.groundUs + cfg.airUs < 2 ^ 60) :
    UnderWay cfg (actions ++ [a]) (clockLoop cfg (actions ++ [a])) := by
  have hdown := fun line hline => (h.down line hline).mono a
  have hest : Estimated cfg (actions ++ [a]) (clockLoop cfg actions).1.sync
      ((clockLoop cfg actions).2 ++ []) := by
    rw [List.append_nil]
    exact h.estimated.mono a
  rw [clockLoop_concat]
  cases a with
  | tick us =>
    refine ⟨h.seq, fun line hline => (h.up line hline).mono (Nat.le_add_right _ _),
      fun item hitem => ?_, hdown, hest⟩
    have hqueued := (h.outq item hitem).mono (Nat.le_add_right _ us)
    have hoffset : (clockLoop cfg actions).1.offset =
        ((clockLoop cfg actions).1.step cfg.beyond cfg.auxPayloadMax (.tick us)).1.offset := by
      rw [ClockLoop.offset, ClockLoop.offset, ClockLoop.step, Nat.cast_add, Nat.cast_add,
        add_sub_add_right_eq_sub]
    rwa [hoffset] at hqueued
  | reboot => exact ⟨h.seq, h.up, fun item hitem => absurd hitem List.not_mem_nil, hdown, hest⟩
  | restart => exact ⟨h.seq, h.up, fun item hitem => absurd hitem List.not_mem_nil, hdown, hest⟩
  | probe =>
    obtain ⟨hseq, hup⟩ := h.probe (clocks_lt hclock).1
    rw [ClockLoop.step, ClockLoop.probe_eq]
    exact ⟨hseq, hup, h.outq, hdown, hest⟩
  | request datagram =>
    refine ⟨h.seq, fun line hline => ?_, h.outq, hdown, hest⟩
    rcases List.mem_append.mp hline with hline | hline
    · exact h.up line hline
    · exact asks_idr _ _ (Option.mem_toList.mp hline)
  | airRead =>
    obtain ⟨hup, houtq⟩ := h.airRead
    rw [ClockLoop.step, ClockLoop.airRead_eq]
    exact ⟨h.seq, hup, houtq, hdown, hest⟩
  | sidecar datagram =>
    refine ⟨h.seq, h.up, fun item hitem => ?_, hdown, hest⟩
    rcases mem_contents_push hitem with hitem | rfl
    · exact h.outq item hitem
    · rw [Queued, if_neg Bool.false_ne_true]
      exact (by decide : chunkCodecSidecar ≠ chunkCodecCtrl)
  | stage =>
    refine ⟨h.seq, h.up, fun item hitem => h.outq item ?_,
      fun line hline => (h.stage hclock line hline).mono _, hest⟩
    exact List.mem_of_mem_tail ((contents_pop _).symm ▸ hitem)
  | groundRead =>
    obtain ⟨hread, hest⟩ := h.groundRead hreboots hclock
    rw [ClockLoop.step, ClockLoop.groundRead_eq]
    exact ⟨h.seq, h.up, h.outq, fun line hline => (hread line hline).mono _, hest.mono _⟩
  | loseUp i =>
    exact ⟨h.seq, fun line hline => h.up line (List.mem_of_mem_eraseIdx hline), h.outq, hdown, hest⟩
  | loseDown i =>
    exact ⟨h.seq, h.up, h.outq, fun line hline => hdown line (List.mem_of_mem_eraseIdx hline), hest⟩

end Step

/-- **Every run** keeps the invariant. -/
theorem underWay {actions : List LoopAction} (hreboots : RebootsApart cfg actions)
    (hclock : (clockLoop cfg actions).1.groundUs + cfg.airUs < 2 ^ 60) :
    UnderWay cfg actions (clockLoop cfg actions) := by
  induction actions using List.reverseRecOn with
  | nil =>
    exact ⟨Nat.two_pow_pos 32, fun line hline => absurd hline List.not_mem_nil,
      fun item hitem => absurd hitem List.not_mem_nil,
      fun line hline => absurd hline List.not_mem_nil,
      [], rfl, fun r hr => absurd hr List.not_mem_nil, rfl⟩
  | append_singleton actions a ih =>
    have hmono := groundUs_mono cfg (List.prefix_append actions [a])
    have hbefore : (clockLoop cfg actions).1.groundUs + cfg.airUs < 2 ^ 60 := by omega
    exact (ih hreboots.of_append hbefore).step a hreboots.of_append hbefore

end Invariant

/-! ### What the ground believes -/

section Belief

variable (cfg : ClockSetup)

/-- The ground handles a frame that the air captured after the actions `captured`: not too old,
and not in the first moments of either clock. -/
structure FrameFrom (captured actions : List LoopAction) (x : RxState) (env : RxEnv) : Prop where
  framePts : x.reasm.framePts = framePtsOf (clockLoop cfg captured).1.airUs
  rxDone : env.rxDoneUs.toNat = (clockLoop cfg actions).1.groundUs
  age : (clockLoop cfg actions).1.groundUs + 2 ^ 17 <
    (clockLoop cfg captured).1.groundUs + 2 ^ 31
  ground : 2 ^ 17 ≤ (clockLoop cfg captured).1.groundUs
  air : 2 ^ 17 ≤ (clockLoop cfg captured).1.airUs

variable {cfg}

/-- An offset that is right gives capture times that are as right. -/
theorem FrameFrom.captureGroundUs {captured since : List LoopAction} {x : RxState} {env : RxEnv}
    (h : FrameFrom cfg captured (captured ++ since) x env) (hsince : .reboot ∉ since)
    (hclock : (clockLoop cfg (captured ++ since)).1.groundUs + cfg.airUs < 2 ^ 60)
    {off : ℤ} {unc : ℕ} (hunc : unc ≤ 125000)
    (hoff : |off - (clockLoop cfg (captured ++ since)).1.offset| ≤ unc + 1) (u : UInt32) :
    |((x.timing env off u).captureGroundUs.toNat : ℤ) - (clockLoop cfg captured).1.groundUs| ≤
      unc + 1 := by
  have hmono := groundUs_mono cfg (List.prefix_append captured since)
  have hair := airUs_le cfg captured
  have hage := h.age
  have hground := h.ground
  have hair' := h.air
  have hrx := h.rxDone
  rw [offset_eq_of_notMem cfg hsince, ClockLoop.offset, abs_le] at hoff
  -- by the estimate the air clock reads this
  obtain ⟨airNowUs, hnow⟩ : ∃ n : ℕ, (n : ℤ) = env.rxDoneUs.toNat + off :=
    ⟨(env.rxDoneUs.toNat + off).toNat, Int.toNat_of_nonneg (by omega)⟩
  have hnear : NearAir (clockLoop cfg captured).1.airUs airNowUs := by
    refine ⟨by omega, by omega, ?_⟩
    rw [abs_lt]
    omega
  have hframe : FrameAt x env off (clockLoop cfg captured).1.airUs airNowUs :=
    ⟨h.framePts, hnow, hnear⟩
  obtain ⟨g, hg⟩ : ∃ n : ℕ, (n : ℤ) = (clockLoop cfg captured).1.airUs - off :=
    ⟨((clockLoop cfg captured).1.airUs - off).toNat, Int.toNat_of_nonneg (by omega)⟩
  rw [hframe.captureGroundUs_eq u, ← hg, uint64_ofInt_natCast, UInt64.toNat_ofNat',
    Nat.mod_eq_of_lt (by omega), abs_le]
  omega

theorem ClockSync.get_eq_none_iff (cs : ClockSync) : cs.get = none ↔ cs.samples.held = [] := by
  rw [ClockSync.get, Option.map_eq_none_iff]
  cases cs.samples.held with
  | nil => simp [ClockSync.bestOf]
  | cons s ss => simp [ClockSync.bestOf]

/-- **The ground's idea of the air clock is right**, in every run in which reboots are at least
760 ms apart. There is an estimate as soon as a reply has been taken in. It is right to within
its uncertainty for the moment at which the air sent the answer that was taken in last, and as
long as the air unit has not rebooted since, it still is, and so are the times at which frames
were captured, on the ground's clock. -/
theorem clock_loop {actions : List LoopAction} (hreboots : RebootsApart cfg actions)
    (hclock : (clockLoop cfg actions).1.groundUs + cfg.airUs < 2 ^ 60) :
    ((clockLoop cfg actions).1.sync.get = none ↔ (clockLoop cfg actions).2 = []) ∧
    ∀ off unc, (clockLoop cfg actions).1.sync.get = some (off, unc) →
      ∃ t pre post, (clockLoop cfg actions).2.getLast? = some t ∧ actions = pre ++ post ∧
        Answered cfg pre t.t1 t.t2 t.t3 ∧ |off - (clockLoop cfg pre).1.offset| ≤ unc + 1 ∧
        unc ≤ 125000 ∧
        (.reboot ∉ post →
          |off - (clockLoop cfg actions).1.offset| ≤ unc + 1 ∧
          ∀ captured since x env u, actions = captured ++ since → .reboot ∉ since →
            FrameFrom cfg captured actions x env →
            |((x.timing env off u).captureGroundUs.toNat : ℤ) -
              (clockLoop cfg captured).1.groundUs| ≤ unc + 1) := by
  obtain ⟨rs, hsync, hrs, htaken⟩ := (underWay hreboots hclock).estimated
  have hsteady : Steady (acceptedReplies rs) :=
    steady_of_exchanged hreboots fun r hr => hrs r (acceptedReplies_subset rs hr)
  have hsynced := synced_run rs hsteady
  rw [hsync, ← htaken]
  refine ⟨?_, fun off unc hget => ?_⟩
  · rw [ClockSync.get_eq_none_iff, hsynced.held_eq_nil_iff, List.map_eq_nil_iff]
    rfl
  obtain ⟨last, hlast, hoff, hunc, -⟩ := hsynced.get_sound hget
  obtain ⟨pre, ⟨post, rfl⟩, heq, -, hans⟩ :=
    hrs last (acceptedReplies_subset rs (List.mem_of_getLast? hlast))
  rw [heq] at hoff
  refine ⟨last.toProbeTimes, pre, post, ?_, rfl, hans, hoff, hunc, fun hpost => ?_⟩
  · rw [List.getLast?_map, acceptedReplies, hlast, Option.map_some]
  rw [← offset_eq_of_notMem cfg hpost] at hoff
  refine ⟨hoff, fun captured since x env u hsplit hsince hframe => ?_⟩
  rw [hsplit] at hoff hframe hclock
  exact hframe.captureGroundUs hsince hclock hunc hoff u

/-- A probe whose answer is lost in a reboot, and another one. -/
def rebootActions : List LoopAction :=
  [.probe, .airRead, .reboot, .tick 1000000, .probe, .tick 4000, .airRead, .tick 300, .stage,
    .tick 5000, .groundRead]

def rebootSetup : ClockSetup where
  beyond _ _ := 0
  auxPayloadMax := 512
  groundUs := 5000000
  airUs := 9000000

theorem clock_loop_reboot :
    ∃ off unc pre, (clockLoop rebootSetup rebootActions).1.sync.get = some (off, unc) ∧
      pre <+: rebootActions ∧ |off - (clockLoop rebootSetup pre).1.offset| ≤ (unc : ℤ) + 1 := by
  have hreboots : RebootsApart rebootSetup rebootActions := by
    rw [RebootsApart]
    decide
  have h := clock_loop hreboots (by decide)
  have hsome : (clockLoop rebootSetup rebootActions).1.sync.get ≠ none := by
    rw [ne_eq, h.1]
    decide
  obtain ⟨⟨off, unc⟩, hget⟩ := Option.ne_none_iff_exists'.mp hsome
  obtain ⟨t, pre, post, -, hsplit, -, hoff, -⟩ := h.2 off unc hget
  exact ⟨off, unc, pre, hget, ⟨post, hsplit.symm⟩, hoff⟩

end Belief

end Ar8030
