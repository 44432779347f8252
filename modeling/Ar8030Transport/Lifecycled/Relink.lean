import Mathlib.Algebra.Group.Nat.Defs
import Ar8030Transport.Lifecycled.Debounce

/-!
# Relinks

When the chip has dropped the link and taken it up again, its link tuning is lost. The debounce
may not see this, so the SDK's thread counts the transitions to CONNECT (`g_link_connect_gen`),
and the lifecycle thread tunes again when the count is not the one it has sampled before.

`relinkStep` cuts a tick at the places where it looks at what the SDK's thread writes, and
interleaves the two threads; `goOn_tick` puts the pieces together again. A relink is missed only
if the count, which has 32 bits, has gone all the way round between two samples.
-/

namespace Ar8030

open Trace

/-! ### A tick in pieces -/

/-- The tick calls `lc_get_connect_gen`. -/
def LinkView.samplesGen (i : TickInput) (v : LinkView) : Bool :=
  match v.state with
  | .init => false
  | .idle => i.reading = some .connect ∧ lcConnectConfirmTicks ≤ v.connectConfirmCount + 1
  | .connected => i.reading ≠ some .other

/-- The tick calls `lc_apply_link_tuning`. -/
def callsLinkTuning (i : TickInput) (c : Ctx) : Bool :=
  c.link.samplesGen i && (c.state ≠ .connected || i.connectGen ≠ c.connectGen)

/-- Where the lifecycle thread is, with what it was told so far in this tick. -/
inductive TickPhase where
  /-- Between two ticks. -/
  | top
  /-- The next step is `lc_get_link_state`. -/
  | drained (i : TickInput)
  /-- The next step is `lc_get_connect_gen`, if the tick comes to it. -/
  | stateRead (i : TickInput)
  /-- The next step is `lc_apply_link_tuning`, if the tick comes to it. -/
  | genRead (i : TickInput)
  /-- What is left of the tick. -/
  | tuned (i : TickInput)
  deriving DecidableEq, Repr

/-- The two threads. -/
structure RelinkState where
  ctx : Ctx
  phase : TickPhase
  /-- `g_link_state`, once it is valid. -/
  link : Option LinkState
  /-- `g_link_connect_gen`. -/
  gen : UInt32
  /-- The state that `lc_on_link_state_event` has still to store. -/
  storing : Option LinkState
  deriving DecidableEq, Repr

inductive RelinkAction where
  /-- The SDK calls `lc_on_link_state_event`, which counts a transition to CONNECT. -/
  | event (cur prev : LinkState)
  /-- The event stores the state. -/
  | store
  /-- A tick begins. `polled` is what a fallback poll reads, if it succeeds. -/
  | beginTick (i : TickInput) (polled : Option LinkState)
  /-- The lifecycle thread goes on with its tick. -/
  | goOn
  /-- An HTTP thread makes a request. -/
  | request (a : LcAction)
  deriving DecidableEq, Repr

/-- What matters of what happens. -/
inductive RelinkEvent where
  /-- `g_link_connect_gen++`. -/
  | bump
  /-- `lc_get_connect_gen`. -/
  | sample
  /-- `lc_apply_link_tuning`. -/
  | tune
  /-- A tick ends, in LC_STATE_CONNECTED and having read CONNECT or not. -/
  | tickEnd (linked : Bool)
  deriving DecidableEq, Repr

/-- The lifecycle thread goes on with its tick. -/
def goOn (cfg : LcConfig) (s : RelinkState) : RelinkState × List RelinkEvent :=
  match s.phase with
  | .top => (s, [])
  | .drained i => ({ s with phase := .stateRead { i with reading := s.link } }, [])
  | .stateRead i =>
    if s.ctx.link.samplesGen i then
      ({ s with phase := .genRead { i with connectGen := s.gen } }, [.sample])
    else ({ s with phase := .genRead i }, [])
  | .genRead i => ({ s with phase := .tuned i }, if callsLinkTuning i s.ctx then [.tune] else [])
  | .tuned i =>
    let c := (inTurn (tickUpdates cfg i) s.ctx).1
    ({ s with phase := .top, ctx := c },
      [.tickEnd (c.state = .connected ∧ i.reading = some .connect)])

def relinkStep (cfg : LcConfig) (s : RelinkState) : RelinkAction → RelinkState × List RelinkEvent
  | .event cur prev =>
    match s.storing with
    | some _ => (s, [])
    | none =>
      if cur = .connect ∧ prev ≠ .connect then
        ({ s with gen := s.gen + 1, storing := some cur }, [.bump])
      else ({ s with storing := some cur }, [])
  | .store =>
    match s.storing with
    | some l => ({ s with link := some l, storing := none }, [])
    | none => (s, [])
  | .beginTick i polled =>
    match s.phase with
    | .top =>
      let c := (inTurn (tickDrains cfg i) s.ctx).1
      ({ s with
          phase := .drained i
          ctx := c
          link := if c.didFallbackPoll ∧ polled.isSome then polled else s.link }, [])
    | _ => (s, [])
  | .goOn => goOn cfg s
  | .request a =>
    match a with
    | .tick _ => (s, [])
    | a => ({ s with ctx := (lcStep cfg s.ctx a).1 }, [])

/-- A run from the start of the daemon. -/
def relinkRun (cfg : LcConfig) (saved : Saved) (table : List UInt32)
    (actions : List RelinkAction) : RelinkState × List RelinkEvent :=
  Mealy.run (relinkStep cfg) ⟨(lcStart cfg saved table).1, .top, none, 0, none⟩ actions

/-! ### What is required -/

/-- How many bumps came before the last event of this kind. -/
def bumpsBefore (x : RelinkEvent) (tr : List RelinkEvent) : ℕ :=
  (beforeLast (· == x) tr).countP (· == .bump)

/-- When a tick has ended with the link up, for every transition counted before its sample the
tuning was called after the transition. -/
def RelinksTuned (past : List RelinkEvent) (e : RelinkEvent) : Prop :=
  e = .tickEnd true → ∀ pre mid, past = pre ++ .bump :: mid → .sample ∈ mid → .tune ∈ mid

/-- The input of a tick that is about to look at the count. -/
def TickPhase.beforeSample? : TickPhase → Option TickInput
  | .stateRead i => some i
  | _ => none

/-- The count has not gone all the way round since the last sample when the thread, in
LC_STATE_CONNECTED, is about to sample it. -/
def NoFullTurn (past : List RelinkEvent) (s : RelinkState) (a : RelinkAction) : Prop :=
  a = .goOn → ∀ i ∈ s.phase.beforeSample?, s.ctx.link.samplesGen i = true →
    s.ctx.state = .connected →
      past.countP (· == .bump) = bumpsBefore .sample past ∨
        ¬2 ^ 32 ∣ past.countP (· == .bump) - bumpsBefore .sample past

instance (past : List RelinkEvent) (s : RelinkState) (a : RelinkAction) :
    Decidable (NoFullTurn past s a) :=
  inferInstanceAs (Decidable (_ → ∀ i ∈ s.phase.beforeSample?, _ → _ → _ ∨ ¬_))

/-! ### The pieces are the tick -/

section Tick

variable (cfg : LcConfig) (i : TickInput) (c : Ctx)

theorem tickDrains_connectGen : (inTurn (tickDrains cfg i) c).1.connectGen = c.connectGen := by
  obtain ⟨_, _, _, _, _, _, _, _, _, _, hframe⟩ := tickDrains_frame cfg i c
  rw [hframe]

theorem followRelink_connectGen : (followRelink cfg i c).1.connectGen = i.connectGen := by
  rw [followRelink]
  split_ifs with hgen
  · rfl
  · exact (not_not.mp hgen).symm

theorem switchState_connectGen :
    (switchState cfg i c).1.connectGen =
      if c.link.samplesGen i then i.connectGen else c.connectGen := by
  cases hs : c.state with
  | init => simp [switchState, LinkView.samplesGen, Ctx.link, hs]
  | idle =>
    simp only [switchState, LinkView.samplesGen, Ctx.link, hs, idleTick]
    by_cases hr : i.reading = some .connect
    · by_cases hfew : c.connectConfirmCount + 1 < lcConnectConfirmTicks
      · simp [hr, hfew, Nat.not_le.mpr hfew]
      · simp only [hr, hfew, if_true, if_false, true_and, decide_eq_true (Nat.le_of_not_lt hfew)]
        rfl
    · simp [hr]
  | connected =>
    simp only [switchState, LinkView.samplesGen, Ctx.link, hs, connectedTick]
    by_cases hr : i.reading = some .other
    · simp only [hr, if_true]
      split_ifs <;> simp_all [followDrop]
    · simp only [hr, if_false, not_false_eq_true, decide_true, ne_eq, if_true]
      rw [inTurn_cons]
      refine (inTurn_keeps Ctx.connectGen ?_ _).trans (followRelink_connectGen cfg i _)
      simp only [List.forall_mem_cons]
      refine ⟨fun c => ?_, fun c => ?_, fun c => ?_, fun c => ?_, by simp⟩
      · rw [dueChannelCheck_frame]
      · rw [recheckBandwidth_frame]
      · rw [retryFrameChange_frame]
      · rw [dueChannelTrack_frame]

theorem tickUpdates_connectGen :
    (inTurn (tickUpdates cfg i) c).1.connectGen =
      if c.link.samplesGen i then i.connectGen else c.connectGen := by
  rw [tickUpdates, inTurn_cons, ← switchState_connectGen cfg]
  refine inTurn_keeps Ctx.connectGen ?_ _
  simp only [List.forall_mem_cons]
  refine ⟨fun c => ?_, fun c => ?_, fun c => ?_, by simp⟩
  · rw [pollSocTemp_frame]
  · rw [overheatUpdate_frame]
  · rw [standbyUpdate_frame]

/-- The steps of a tick that the SDK's thread does not interrupt. -/
theorem run_goOn {s : RelinkState} (hph : s.phase = .drained i) :
    ∃ gen, (Mealy.run (relinkStep cfg) s (List.replicate 4 .goOn)).1 =
      { s with
        phase := .top
        ctx := (inTurn (tickUpdates cfg { i with reading := s.link, connectGen := gen }) s.ctx).1 }
    := by
  cases hs : s.ctx.link.samplesGen { i with reading := s.link } with
  | true =>
    refine ⟨s.gen, ?_⟩
    simp [Mealy.run_cons, relinkStep, goOn, hph, hs]
  | false =>
    refine ⟨i.connectGen, ?_⟩
    simp [Mealy.run_cons, relinkStep, goOn, hph, hs]

/-- Together they are `tick`. -/
theorem run_quietTick (polled : Option LinkState) {s : RelinkState} (htop : s.phase = .top) :
    ∃ gen reading,
      (Mealy.run (relinkStep cfg) s (.beginTick i polled :: List.replicate 4 .goOn)).1 =
        { s with
          ctx := (tick cfg { i with reading := reading, connectGen := gen } s.ctx).1
          link := reading } := by
  obtain ⟨ctx, phase, link, gen, storing⟩ := s
  obtain rfl : phase = .top := htop
  let begun := (relinkStep cfg ⟨ctx, .top, link, gen, storing⟩ (.beginTick i polled)).1
  obtain ⟨sampled, h⟩ := @run_goOn cfg i begun rfl
  rw [Mealy.run_cons]
  refine ⟨sampled, begun.link, h.trans ?_⟩
  rw [tick, inTurn_append]
  rfl

/-- A tick that ends with the link up has sampled the count, unless it was told of a miss. -/
theorem LinkView.samplesGen_of_step {v : LinkView} (h : (v.step i).1.state = .connected) :
    v.samplesGen i = true ∨ v.state = .connected ∧ i.reading = some .other := by
  cases hs : v.state with
  | init => simp [LinkView.step, hs] at h
  | idle =>
    left
    rw [v.step_idle hs] at h
    by_cases hr : i.reading = some .connect
    · by_cases hfew : v.connectConfirmCount + 1 < lcConnectConfirmTicks
      · simp [hr, hfew, hs] at h
      · simp [LinkView.samplesGen, hs, hr, Nat.le_of_not_lt hfew]
    · simp [hr, hs] at h
  | connected =>
    by_cases hr : i.reading = some .other
    · exact .inr ⟨rfl, hr⟩
    · exact .inl (by simp [LinkView.samplesGen, hs, hr])

/-- A tick for which `callsLinkTuning` says so calls `lc_apply_link_tuning`. -/
theorem switchState_of_callsLinkTuning (h : callsLinkTuning i c = true) :
    ∃ c' pre post, (switchState cfg i c).2 = pre ++ (applyLinkTuning cfg i c').2 ++ post := by
  obtain ⟨hsample, hnew⟩ := Bool.and_eq_true_iff.mp h
  cases hs : c.state with
  | init => simp [LinkView.samplesGen, Ctx.link, hs] at hsample
  | idle =>
    obtain ⟨hr, hcount⟩ : i.reading = some .connect ∧
        lcConnectConfirmTicks ≤ c.connectConfirmCount + 1 := by
      simpa [LinkView.samplesGen, Ctx.link, hs] using hsample
    simp only [switchState, hs, idleTick, if_pos hr, if_neg (Nat.not_lt.mpr hcount), followConnect,
      applyTuningOnConnect]
    exact ⟨_, _ :: _, _, rfl⟩
  | connected =>
    have hr : i.reading ≠ some .other := by
      simpa [LinkView.samplesGen, Ctx.link, hs] using hsample
    have hgen : i.connectGen ≠ c.connectGen := by
      simpa [hs] using hnew
    simp only [switchState, hs, connectedTick, if_neg hr]
    rw [inTurn_cons, followRelink, if_pos hgen]
    exact ⟨_, [], _, rfl⟩

end Tick

/-! ### Counting bumps -/

section Count

variable {x e : RelinkEvent} {tr : List RelinkEvent}

theorem bumpsBefore_concat_self : bumpsBefore x (tr ++ [x]) = tr.countP (· == .bump) := by
  rw [bumpsBefore, beforeLast_concat, if_pos (by simp)]

theorem bumpsBefore_concat_of_ne (h : e ≠ x) : bumpsBefore x (tr ++ [e]) = bumpsBefore x tr := by
  rw [bumpsBefore, beforeLast_concat, if_neg (by simpa using h), bumpsBefore]

theorem bumpsBefore_le : bumpsBefore x tr ≤ tr.countP (· == .bump) := countP_beforeLast_le tr

theorem lt_bumpsBefore_iff {pre mid : List RelinkEvent} (hx : x ≠ .bump) :
    pre.countP (· == .bump) < bumpsBefore x (pre ++ .bump :: mid) ↔ x ∈ mid := by
  rw [bumpsBefore, countP_lt_beforeLast_iff (by rfl) (by simpa using hx.symm)]
  simp

/-- If the last tuning comes after as many bumps as the last sample, then every relink before
the sample has been tuned. -/
theorem relinksTuned_of_le (h : bumpsBefore .sample tr ≤ bumpsBefore .tune tr) (e : RelinkEvent) :
    RelinksTuned tr e := by
  rintro - pre mid rfl hsample
  refine (lt_bumpsBefore_iff (by decide)).mp (Nat.lt_of_lt_of_le ?_ h)
  exact (lt_bumpsBefore_iff (by decide)).mpr hsample

end Count

/-- The value is that of the last sample, and the last tuning comes after the sampled bumps. -/
def GenSettled (tr : List RelinkEvent) (gen : UInt32) : Prop :=
  gen.toNat = bumpsBefore .sample tr % 2 ^ 32 ∧ bumpsBefore .sample tr ≤ bumpsBefore .tune tr

/-- What holds of the tick that is under way. Until it samples, and if it does not, the thread
relies on what it did in an earlier tick. -/
def PhaseOk (tr : List RelinkEvent) (c : Ctx) : TickPhase → Prop
  | .genRead i =>
    if c.link.samplesGen i then
      i.connectGen.toNat = bumpsBefore .sample tr % 2 ^ 32 ∧
        (callsLinkTuning i c = true ∨ bumpsBefore .sample tr ≤ bumpsBefore .tune tr)
    else c.state = .connected → GenSettled tr c.connectGen
  | .tuned i =>
    if c.link.samplesGen i then GenSettled tr i.connectGen
    else c.state = .connected → GenSettled tr c.connectGen
  | _ => c.state = .connected → GenSettled tr c.connectGen

/-- The count is that of the bumps. -/
structure BumpsCounted (tr : List RelinkEvent) (s : RelinkState) : Prop where
  gen : s.gen.toNat = tr.countP (· == .bump) % 2 ^ 32
  phase : PhaseOk tr s.ctx s.phase

/-- Only samples and tunings matter to the lifecycle thread. -/
theorem PhaseOk.concat {tr : List RelinkEvent} {c : Ctx} {ph : TickPhase} (h : PhaseOk tr c ph)
    {e : RelinkEvent} (hsample : e ≠ .sample) (htune : e ≠ .tune) : PhaseOk (tr ++ [e]) c ph := by
  unfold PhaseOk GenSettled at *
  rw [bumpsBefore_concat_of_ne hsample, bumpsBefore_concat_of_ne htune]
  exact h

/-- What changes neither the link nor the sampled count does not matter either. -/
theorem PhaseOk.of_view {tr : List RelinkEvent} {c c' : Ctx} {ph : TickPhase}
    (h : PhaseOk tr c ph) (hlink : c'.link = c.link) (hgen : c'.connectGen = c.connectGen) :
    PhaseOk tr c' ph := by
  have hstate : c'.state = c.state := congrArg LinkView.state hlink
  unfold PhaseOk callsLinkTuning at *
  rw [hlink, hstate, hgen]
  exact h

/-! ### Steps -/

section Step

variable {cfg : LcConfig} {tr : List RelinkEvent} {s : RelinkState}

theorem UInt32.toNat_succ_mod {n : UInt32} {k : ℕ} (h : n.toNat = k % 2 ^ 32) :
    (n + 1).toNat = (k + 1) % 2 ^ 32 := by
  rw [UInt32.toNat_add, h]
  simp

/-- Sampling in LC_STATE_CONNECTED: the count is a new one, or there was no relink. -/
theorem new_or_le_of_sample {B S T : ℕ} {gen old : UInt32} (hgen : gen.toNat = B % 2 ^ 32)
    (hold : old.toNat = S % 2 ^ 32) (hST : S ≤ T)
    (hturn : B = S ∨ ¬2 ^ 32 ∣ B - S) : gen ≠ old ∨ B ≤ T := by
  by_cases heq : gen = old
  · right
    rcases hturn with rfl | hturn
    · exact hST
    · refine absurd (Nat.dvd_of_mod_eq_zero (Nat.sub_mod_eq_zero_of_mod_eq ?_)) hturn
      rw [← hold, ← hgen, heq]
  · exact .inl heq

/-- The thread samples the count. -/
theorem PhaseOk.sampled {i : TickInput} (h : PhaseOk tr s.ctx (.stateRead i))
    (hgen : s.gen.toNat = tr.countP (· == .bump) % 2 ^ 32)
    (hs : s.ctx.link.samplesGen i = true)
    (hturn : s.ctx.state = .connected →
      tr.countP (· == .bump) = bumpsBefore .sample tr ∨
        ¬2 ^ 32 ∣ tr.countP (· == .bump) - bumpsBefore .sample tr) :
    PhaseOk (tr ++ [.sample]) s.ctx (.genRead { i with connectGen := s.gen }) := by
  have hs' : s.ctx.link.samplesGen { i with connectGen := s.gen } = true := hs
  simp only [PhaseOk, hs', if_true]
  rw [bumpsBefore_concat_self, bumpsBefore_concat_of_ne (by decide)]
  refine ⟨hgen, ?_⟩
  by_cases hconn : s.ctx.state = .connected
  · obtain ⟨hold, hle⟩ := h hconn
    rcases new_or_le_of_sample hgen hold hle (hturn hconn) with hnew | hdone
    · exact .inl (by simpa [callsLinkTuning, hs', hconn] using hnew)
    · exact .inr hdone
  · exact .inl (by simp [callsLinkTuning, hs', hconn])

/-- The thread tunes. -/
theorem PhaseOk.tuned {c : Ctx} {i : TickInput} (h : PhaseOk tr c (.genRead i))
    (htune : callsLinkTuning i c = true) : PhaseOk (tr ++ [.tune]) c (.tuned i) := by
  have hs : c.link.samplesGen i = true := (Bool.and_eq_true_iff.mp htune).1
  simp only [PhaseOk, hs, if_true, GenSettled] at h ⊢
  rw [bumpsBefore_concat_of_ne (by decide), bumpsBefore_concat_self]
  exact ⟨h.1, bumpsBefore_le⟩

/-- The tick ends. -/
theorem PhaseOk.ended {c : Ctx} {i : TickInput} (h : PhaseOk tr c (.tuned i)) :
    PhaseOk tr (inTurn (tickUpdates cfg i) c).1 .top := by
  intro hconn
  rw [tickUpdates_connectGen]
  have hstep : (c.link.step i).1.state = .connected := by
    rw [← tickUpdates_link cfg]
    exact hconn
  by_cases hs : c.link.samplesGen i = true
  · rw [if_pos hs]
    simpa [PhaseOk, hs] using h
  · rw [if_neg hs]
    rcases LinkView.samplesGen_of_step i hstep with hyes | ⟨hold, -⟩
    · exact absurd hyes hs
    · simp only [PhaseOk, hs] at h
      exact h hold

theorem BumpsCounted.goOn (h : BumpsCounted tr s) (hturn : NoFullTurn tr s .goOn) :
    BumpsCounted (tr ++ (goOn cfg s).2) (goOn cfg s).1 := by
  obtain ⟨hgen, hphase⟩ := h
  unfold Ar8030.goOn
  cases hph : s.phase with
  | top => exact ⟨by simpa using hgen, by simpa [hph] using hphase⟩
  | drained i => exact ⟨by simpa using hgen, by simpa [hph, PhaseOk] using hphase⟩
  | stateRead i =>
    rw [hph] at hphase
    dsimp only
    split_ifs with hs
    · have hi : i ∈ s.phase.beforeSample? := by simp [hph, TickPhase.beforeSample?]
      exact ⟨by simpa [List.countP_append] using hgen, hphase.sampled hgen hs (hturn rfl i hi hs)⟩
    · exact ⟨by simpa using hgen, by simpa [PhaseOk, hs] using hphase⟩
  | genRead i =>
    rw [hph] at hphase
    dsimp only
    split_ifs with htune
    · exact ⟨by simpa [List.countP_append] using hgen, hphase.tuned htune⟩
    · exact ⟨by simpa using hgen, by simpa [PhaseOk, htune, GenSettled] using hphase⟩
  | tuned i =>
    rw [hph] at hphase
    exact ⟨by simpa [List.countP_append] using hgen, hphase.ended.concat (by simp) (by simp)⟩

/-- When a tick ends with the link up, every relink before its sample was tuned. -/
theorem BumpsCounted.tickEnd (h : BumpsCounted tr s) {i : TickInput} (hph : s.phase = .tuned i)
    (hconn : (inTurn (tickUpdates cfg i) s.ctx).1.state = .connected)
    (hr : i.reading = some .connect) (e : RelinkEvent) : RelinksTuned tr e := by
  have hphase := h.phase
  rw [hph] at hphase
  have hstep : (s.ctx.link.step i).1.state = .connected := by
    rw [← tickUpdates_link cfg]
    exact hconn
  rcases LinkView.samplesGen_of_step i hstep with hs | ⟨-, hother⟩
  · simp only [PhaseOk, hs, if_true] at hphase
    exact relinksTuned_of_le hphase.2 e
  · simp [hr] at hother

theorem relinkStep_request (cfg : LcConfig) (s : RelinkState) (a : LcAction) :
    relinkStep cfg s (.request a) = (s, []) ∨ (∀ i, a ≠ .tick i) ∧
      relinkStep cfg s (.request a) = ({ s with ctx := (lcStep cfg s.ctx a).1 }, []) := by
  cases a with
  | tick i => exact .inl rfl
  | _ => exact .inr ⟨by simp, rfl⟩

theorem BumpsCounted.step (h : BumpsCounted tr s) {a : RelinkAction} (hturn : NoFullTurn tr s a) :
    BumpsCounted (tr ++ (relinkStep cfg s a).2) (relinkStep cfg s a).1 := by
  obtain ⟨hgen, hphase⟩ := h
  have hsame : BumpsCounted (tr ++ []) s := by simpa using BumpsCounted.mk hgen hphase
  cases a with
  | event cur prev =>
    unfold relinkStep
    cases s.storing with
    | some l => exact hsame
    | none =>
      dsimp only
      split_ifs
      -- `connect_gen` and the bumps of the trace go up together
      · refine ⟨?_, hphase.concat (by decide) (by decide)⟩
        rw [List.countP_append]
        exact UInt32.toNat_succ_mod hgen
      · exact ⟨by simpa using hgen, by simpa using hphase⟩
  | store =>
    unfold relinkStep
    cases s.storing with
    | some l => exact ⟨by simpa using hgen, by simpa using hphase⟩
    | none => exact hsame
  | beginTick i polled =>
    unfold relinkStep
    cases hph : s.phase with
    | top =>
      refine ⟨by simpa using hgen, ?_⟩
      rw [hph] at hphase
      -- the mailboxes touch neither the link nor the count
      have hdrained : PhaseOk tr (inTurn (tickDrains cfg i) s.ctx).1 .top :=
        hphase.of_view (tickDrains_link cfg i _) (tickDrains_connectGen cfg i _)
      simpa [PhaseOk] using hdrained
    | _ => exact hsame
  | goOn => exact BumpsCounted.goOn ⟨hgen, hphase⟩ hturn
  | request a =>
    -- a request touches neither the link nor the count
    rcases relinkStep_request cfg s a with heq | ⟨ha, heq⟩ <;> rw [heq]
    · exact hsame
    · refine ⟨by simpa using hgen, ?_⟩
      have hgen : (lcStep cfg s.ctx a).1.connectGen = s.ctx.connectGen := by
        rw [lcStep_frame cfg ha]
      simpa using hphase.of_view (lcStep_link cfg ha s.ctx) hgen

/-- What a step adds to the trace. -/
theorem BumpsCounted.events (h : BumpsCounted tr s) (a : RelinkAction) :
    (relinkStep cfg s a).2 = [] ∨ ∃ e, (relinkStep cfg s a).2 = [e] ∧ RelinksTuned tr e := by
  cases a with
  | event cur prev =>
    unfold relinkStep
    cases s.storing with
    | some l => exact .inl rfl
    | none =>
      dsimp only
      split_ifs
      · exact .inr ⟨.bump, rfl, by simp [RelinksTuned]⟩
      · exact .inl rfl
  | store =>
    unfold relinkStep
    cases s.storing <;> exact .inl rfl
  | beginTick i polled =>
    unfold relinkStep
    cases s.phase <;> exact .inl rfl
  | goOn =>
    unfold relinkStep Ar8030.goOn
    cases hph : s.phase with
    | top => exact .inl rfl
    | drained i => exact .inl rfl
    | stateRead i =>
      dsimp only
      split_ifs
      · exact .inr ⟨.sample, rfl, by simp [RelinksTuned]⟩
      · exact .inl rfl
    | genRead i =>
      dsimp only
      split_ifs
      · exact .inr ⟨.tune, rfl, by simp [RelinksTuned]⟩
      · exact .inl rfl
    | tuned i =>
      refine .inr ⟨_, rfl, fun hlinked => ?_⟩
      obtain ⟨hconn, hr⟩ : (inTurn (tickUpdates cfg i) s.ctx).1.state = .connected ∧
          i.reading = some .connect := by
        simpa using hlinked
      exact h.tickEnd hph hconn hr _ rfl
  | request a =>
    rcases relinkStep_request cfg s a with heq | ⟨-, heq⟩ <;> exact .inl (by rw [heq])

end Step

/-! ### Runs -/

section Run

variable (cfg : LcConfig) (saved : Saved) (table : List UInt32)

/-- In a run the count does not go all the way round between two samples. -/
def NoFullTurns (actions : List RelinkAction) : Prop :=
  Always (fun past a =>
    NoFullTurn (relinkRun cfg saved table past).2 (relinkRun cfg saved table past).1 a) actions

instance (actions : List RelinkAction) : Decidable (NoFullTurns cfg saved table actions) :=
  inferInstanceAs (Decidable (Always _ actions))

variable {cfg saved table} {actions : List RelinkAction}

theorem relinkRun_counted (h : NoFullTurns cfg saved table actions) :
    BumpsCounted (relinkRun cfg saved table actions).2 (relinkRun cfg saved table actions).1 ∧
      Always RelinksTuned (relinkRun cfg saved table actions).2 := by
  induction actions using List.reverseRecOn with
  | nil => exact ⟨⟨rfl, by simp [relinkRun, PhaseOk, lcStart]⟩, always_nil⟩
  | append_singleton actions a ih =>
    obtain ⟨hpast, hturn⟩ := always_concat_iff.mp h
    obtain ⟨hcounted, halways⟩ := ih hpast
    rw [relinkRun, Mealy.run_concat]
    refine ⟨hcounted.step hturn, ?_⟩
    have hevents := @BumpsCounted.events cfg _ _ hcounted a
    rw [relinkRun] at hevents
    rcases hevents with hnone | ⟨e, hone, he⟩
    · rw [hnone, List.append_nil]
      exact halways
    · rw [hone]
      exact halways.concat he

/-- **No relink is left untuned.** In every interleaving of link-state events and fallback polls
with the lifecycle thread in which the count does not go all the way round between two samples,
at the end of every tick that has read CONNECT and is in LC_STATE_CONNECTED, the link tuning was
called after every transition to CONNECT that was counted before the tick looked. -/
theorem relink_tuned (h : NoFullTurns cfg saved table actions) :
    Always RelinksTuned (relinkRun cfg saved table actions).2 :=
  (relinkRun_counted h).2

end Run

/-! ### The count goes all the way round -/

/-- A tick that is not interrupted. -/
def quietTick : List RelinkAction :=
  .beginTick (plainTick 0 .connect) none :: List.replicate 4 .goOn

/-- The link comes up, and the thread follows. -/
def linkUp : List RelinkAction :=
  [.event .connect .other, .store] ++ (List.replicate 3 quietTick).flatten

/-- `n` relinks that only the SDK's thread sees. -/
def relinks (n : ℕ) : List RelinkAction :=
  (List.replicate n [.event .connect .other, .store]).flatten

/-- One relink after the connect. -/
theorem relink_tuned_once :
    Always RelinksTuned
      (relinkRun (plainCfg .dev) ⟨none, none⟩ [] (linkUp ++ relinks 1 ++ quietTick)).2 :=
  relink_tuned (by decide)

theorem run_relinks (cfg : LcConfig) {s : RelinkState} (hstoring : s.storing = none)
    (hlink : s.link = some .connect) (n : ℕ) :
    Mealy.run (relinkStep cfg) s (relinks n) =
      ({ s with gen := s.gen + UInt32.ofNat n }, List.replicate n .bump) := by
  obtain ⟨ctx, phase, link, gen, storing⟩ := s
  obtain rfl : storing = none := hstoring
  obtain rfl : link = some .connect := hlink
  induction n generalizing gen with
  | zero => simp [relinks]
  | succ n ih =>
    rw [relinks, List.replicate_succ, List.flatten_cons, Mealy.run_append]
    have honce : Mealy.run (relinkStep cfg) ⟨ctx, phase, some .connect, gen, none⟩
        [.event .connect .other, .store] =
        (⟨ctx, phase, some .connect, gen + 1, none⟩, [.bump]) := rfl
    have hrest := ih (gen + 1)
    rw [relinks] at hrest
    rw [honce, hrest, List.replicate_succ, UInt32.ofNat_add, UInt32.add_assoc,
      UInt32.add_comm (UInt32.ofNat n)]
    rfl

/-- When the count has come round, a tick does not call the tuning. -/
theorem relinkRun_full_turn {n : ℕ} (hround : UInt32.ofNat n = 0) :
    (relinkRun (plainCfg .dev) ⟨none, none⟩ [] (linkUp ++ relinks n ++ quietTick)).2 =
      (relinkRun (plainCfg .dev) ⟨none, none⟩ [] linkUp).2 ++ List.replicate n .bump ++
        [.sample, .tickEnd true] := by
  have hrelinks : Mealy.run (relinkStep (plainCfg .dev))
      (relinkRun (plainCfg .dev) ⟨none, none⟩ [] linkUp).1 (relinks n) =
      ((relinkRun (plainCfg .dev) ⟨none, none⟩ [] linkUp).1, List.replicate n .bump) := by
    rw [run_relinks _ (by decide) (by decide), hround, UInt32.add_zero]
  rw [relinkRun] at hrelinks ⊢
  rw [Mealy.run_append, Mealy.run_append, hrelinks]
  dsimp only
  congr 1

/-- After 2^32 relinks since the connect the thread finds the count it knows. -/
theorem not_relinksTuned_full_turn :
    ¬Always RelinksTuned
      (relinkRun (plainCfg .dev) ⟨none, none⟩ []
        (linkUp ++ relinks (2 ^ 32) ++ quietTick)).2 := by
  intro h
  have hround : UInt32.ofNat (2 ^ 32) = 0 := by rfl
  obtain ⟨n, hn⟩ : ∃ n, 2 ^ 32 = n + 1 := ⟨2 ^ 32 - 1, rfl⟩
  rw [hn] at h hround
  rw [relinkRun_full_turn hround, List.replicate_succ'] at h
  generalize (relinkRun _ _ _ linkUp).2 = up at h
  have hend := h (up ++ (List.replicate n .bump ++ [.bump]) ++ [.sample]) (.tickEnd true) []
    (by simp) rfl
  simpa using hend (up ++ List.replicate n .bump) [.sample] (by simp) (by simp)

end Ar8030
