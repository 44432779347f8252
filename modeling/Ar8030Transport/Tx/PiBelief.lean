import Ar8030Transport.Library.Trace
import Ar8030Transport.Tx.PiControl

/-!
# What the PI controller believes about waybeam

The controller keeps in `div`, `focus` and `appliedKbps` what it last set, so that it does not
set it again. A waybeam that restarts forgets all three. The send loop notices the restart
later, by the frame ring, and announces it by raising `ring_generation`; the next pass of the
controller sees that and starts over.

`World` is waybeam with its restarts and their announcements. Restarts and announcements can
come before a pass and before every request of it. After every pass with the latest restart
announced and seen, what the controller takes for known is so — provided that waybeam is at
the full frame rate when a pass sees its restart, which is what the controller assumes then
without setting it (`SeesFullRate`).
-/

namespace Ar8030

open Trace

/-! ### The world -/

/-- What can happen to waybeam and to the announcement of its restarts. -/
inductive WorldEvent where
  /-- waybeam restarts, with what it is configured to. -/
  | restart (bitrate : ℕ) (roiEnabled : Bool)
  /-- `ring_generation` is raised for restart number `r`. -/
  | bump (r : ℕ)
  deriving DecidableEq, Repr

/-- The answer to a request: what happens before it reaches waybeam, and the status. -/
structure Answer where
  events : List WorldEvent
  status : ℤ
  deriving DecidableEq, Repr

/-- waybeam, the number of its restarts, the one announced last, `ring_generation`, and the
answers to the requests to come. -/
structure World where
  waybeam : Waybeam
  restarts : ℕ
  announced : ℕ
  generation : ℕ
  answers : List Answer
  deriving DecidableEq, Repr

/-- One event; a restart is announced at most once, and after it has happened. -/
def World.event (w : World) : WorldEvent → World
  | .restart bitrate roiEnabled =>
    { w with waybeam := ⟨bitrate, roiEnabled, 1⟩, restarts := w.restarts + 1 }
  | .bump r =>
    if w.announced < r ∧ r ≤ w.restarts then
      { w with announced := r, generation := w.generation + 1 }
    else w

/-- Some events, one after another. -/
def World.events (w : World) (es : List WorldEvent) : World := es.foldl World.event w

/-- A request and its answer: waybeam is changed exactly if it answers with success. With no
answer left there is none. -/
def World.request (w : World) (q : LiveSet) : ℤ × World :=
  match w.answers with
  | [] => (-1, w)
  | a :: as =>
    let w' := World.events { w with answers := as } a.events
    (a.status, if isSuccess a.status then { w' with waybeam := w'.waybeam.apply q } else w')

/-- A pass of the controller, with what happens before it and the answers it gets. -/
structure PassScript where
  events : List WorldEvent
  input : PiInput
  answers : List Answer
  deriving DecidableEq, Repr

/-- What has happened when the pass begins. -/
def PassScript.before (p : PassScript) (w : World) : World :=
  World.events { w with answers := p.answers } p.events

/-- The pass. -/
def passStep (cfg : PiConfig) (x : PiState × World) (p : PassScript) : PiState × World :=
  piTick World.request cfg x.1 (p.before x.2).generation p.input (p.before x.2)

/-- The start: a waybeam in any state, and nothing has happened yet. -/
def passInit (cfg : PiConfig) (waybeam : Waybeam) (now gen : ℕ) : PiState × World :=
  (PiState.init cfg now gen, ⟨waybeam, 0, 0, gen, []⟩)

/-- A run of the controller. -/
def passRun (cfg : PiConfig) (waybeam : Waybeam) (now gen : ℕ) (ps : List PassScript) :
    PiState × World :=
  ps.foldl (passStep cfg) (passInit cfg waybeam now gen)

/-! ### Beliefs -/

/-- What the controller takes for known is so. -/
structure Believes (s : PiState) (w : Waybeam) : Prop where
  div : ∀ d ∈ s.div, w.fpsDivisor = d
  focus : ∀ b ∈ s.focus, w.roiEnabled = b
  applied : s.appliedKbps ≠ 0 → w.bitrate = s.appliedKbps

/-- The latest restart was announced, as generation `gen`. -/
structure World.Synced (w : World) (gen : ℕ) : Prop where
  generation : w.generation = gen
  announced : w.announced = w.restarts
  restarted : 0 < w.restarts

/-- The pass, if it sees a new generation that announces the latest restart, finds waybeam at
the full frame rate. -/
def SeesFullRate (x : PiState × World) (p : PassScript) : Prop :=
  (p.before x.2).generation ≠ x.1.ringGen → (p.before x.2).announced = (p.before x.2).restarts →
    (p.before x.2).waybeam.fpsDivisor = 1

/-! ### The world from the controller's side -/

/-- What always holds of the world seen by a controller that knows generation `gen`. -/
structure World.Sane (w : World) (gen : ℕ) : Prop where
  announced_le : w.announced ≤ w.restarts
  gen_le : gen ≤ w.generation

section World

variable {w : World} {gen : ℕ}

/-- After an event the world is as synced as before only if the event changed nothing. -/
theorem World.Sane.event (h : w.Sane gen) (e : WorldEvent) :
    (w.event e).Sane gen ∧ ((w.event e).Synced gen → w.event e = w) := by
  have hle := h.announced_le
  have hgen := h.gen_le
  cases e with
  | restart bitrate roiEnabled =>
    refine ⟨⟨Nat.le_succ_of_le hle, hgen⟩, fun hsync => ?_⟩
    have heq : w.announced = w.restarts + 1 := hsync.announced
    omega
  | bump r =>
    rw [World.event]
    split_ifs with hr
    · refine ⟨⟨hr.2, Nat.le_succ_of_le hgen⟩, fun hsync => ?_⟩
      have heq : w.generation + 1 = gen := hsync.generation
      omega
    · exact ⟨h, fun _ => rfl⟩

theorem World.Sane.events (h : w.Sane gen) (es : List WorldEvent) :
    (w.events es).Sane gen ∧ ((w.events es).Synced gen → w.events es = w) := by
  induction es generalizing w with
  | nil => exact ⟨h, fun _ => rfl⟩
  | cons e es ih =>
    obtain ⟨hsane, hsame⟩ := h.event e
    obtain ⟨hsane', hsame'⟩ := ih hsane
    refine ⟨hsane', fun hsync => ?_⟩
    have hrest : (w.event e).events es = w.event e := hsame' hsync
    have hfirst : w.event e = w := hsame (hrest ▸ hsync)
    exact hrest.trans hfirst

/-- **A request**: if the world is synced after it, it was so before, and waybeam has changed
only by the request. -/
theorem World.Sane.request (h : w.Sane gen) (q : LiveSet) :
    (w.request q).2.Sane gen ∧ ((w.request q).2.Synced gen → w.Synced gen ∧
      (w.request q).2.waybeam =
        if isSuccess (w.request q).1 then w.waybeam.apply q else w.waybeam) := by
  rw [World.request]
  cases hanswers : w.answers with
  | nil => exact ⟨h, fun hsync => ⟨hsync, rfl⟩⟩
  | cons a as =>
    have h' : World.Sane { w with answers := as } gen := ⟨h.announced_le, h.gen_le⟩
    obtain ⟨hsane, hsame⟩ := h'.events a.events
    dsimp only
    split_ifs with hok
    · refine ⟨⟨hsane.announced_le, hsane.gen_le⟩, fun hsync => ?_⟩
      have heq := hsame ⟨hsync.generation, hsync.announced, hsync.restarted⟩
      rw [heq] at hsync ⊢
      exact ⟨⟨hsync.generation, hsync.announced, hsync.restarted⟩, rfl⟩
    · refine ⟨hsane, fun hsync => ?_⟩
      have heq := hsame hsync
      rw [heq] at hsync ⊢
      exact ⟨⟨hsync.generation, hsync.announced, hsync.restarted⟩, rfl⟩

end World

/-! ### What a pass keeps -/

/-- A controller that knows generation `gen`, and the world. -/
structure Consistent (gen : ℕ) (s : PiState) (w : World) : Prop where
  ringGen : s.ringGen = gen
  sane : w.Sane gen
  believes : w.Synced gen → Believes s w.waybeam ∧ s.div ≠ none

section Pass

variable {gen : ℕ} {s s' : PiState} {w : World}

/-- What the controller does without a request leaves its beliefs alone. -/
theorem Consistent.of_same (h : Consistent gen s w) (hgen : s'.ringGen = s.ringGen)
    (hdiv : s'.div = s.div) (hfocus : s'.focus = s.focus)
    (happlied : s'.appliedKbps = s.appliedKbps) : Consistent gen s' w where
  ringGen := hgen.trans h.ringGen
  sane := h.sane
  believes := by
    intro hsync
    obtain ⟨hb, hne⟩ := h.believes hsync
    exact ⟨⟨hdiv ▸ hb.div, hfocus ▸ hb.focus, happlied ▸ hb.applied⟩, hdiv ▸ hne⟩

/-- A request of the controller: its beliefs after the answer have to follow from the request
if it was accepted, and from those before if it was not. -/
theorem Consistent.request (h : Consistent gen s w) (q : LiveSet) (hgen : s'.ringGen = s.ringGen)
    (hok : isSuccess (w.request q).1 = true → Believes s w.waybeam → s.div ≠ none →
      Believes s' (w.waybeam.apply q) ∧ s'.div ≠ none)
    (hrefused : isSuccess (w.request q).1 = false → Believes s w.waybeam → s.div ≠ none →
      Believes s' w.waybeam ∧ s'.div ≠ none) :
    Consistent gen s' (w.request q).2 := by
  obtain ⟨hsane, hsynced⟩ := h.sane.request q
  refine ⟨hgen.trans h.ringGen, hsane, fun hsync => ?_⟩
  obtain ⟨hbefore, hwaybeam⟩ := hsynced hsync
  obtain ⟨hb, hne⟩ := h.believes hbefore
  rw [hwaybeam]
  split_ifs with hs
  · exact hok hs hb hne
  · exact hrefused (Bool.eq_false_of_not_eq_true hs) hb hne

theorem not_isSuccess_of_isMissing {status : ℤ} (h : isMissing status = true) :
    isSuccess status = false := by
  simp only [isMissing, decide_eq_true_eq] at h
  simp only [isSuccess, decide_eq_false_iff_not]
  omega

/-- The startup request is made only as long as no restart was seen. -/
theorem Consistent.startupDivisor (h : Consistent gen s w) (now : ℕ) :
    Consistent gen (s.startupDivisor World.request now w).1
      (s.startupDivisor World.request now w).2 := by
  rw [PiState.startupDivisor]
  split_ifs with hask
  · have hgen : ∀ status, (s.afterStartup now status).ringGen = s.ringGen := by
      intro status
      rw [PiState.afterStartup]
      split_ifs <;> rfl
    exact h.request _ (hgen _) (fun _ _ hne => absurd hask.1 hne) fun _ _ hne => absurd hask.1 hne
  · exact h

theorem Consistent.piFocus (h : Consistent gen s w) (cfg : PiConfig) (now : ℕ) :
    Consistent gen (s.piFocus World.request cfg now w).1 (s.piFocus World.request cfg now w).2 := by
  rw [PiState.piFocus]
  dsimp only
  split_ifs with hoff hkeep
  · exact h
  · exact h.of_same rfl rfl rfl rfl
  · have hgen : ∀ want status, (PiState.afterFocus { s with
        focusAboveSinceMs := s.aboveSince cfg now } now want status).ringGen = s.ringGen := by
      intro want status
      rw [PiState.afterFocus]
      split_ifs <;> rfl
    refine h.request _ (hgen _ _) (fun hok hb hne => ?_) fun hno hb hne => ?_
    · rw [PiState.afterFocus, if_pos hok]
      exact ⟨⟨hb.div, fun b hb' => Option.some.inj hb', hb.applied⟩, hne⟩
    · rw [PiState.afterFocus, if_neg (by simp [hno])]
      exact ⟨⟨hb.div, hb.focus, hb.applied⟩, hne⟩

theorem Consistent.sendStage (h : Consistent gen s w) (now wantDiv t : ℕ) :
    Consistent gen (s.sendStage World.request now wantDiv t w).1
      (s.sendStage World.request now wantDiv t w).2 := by
  have hgen : ∀ status, (s.afterStage now wantDiv t status).ringGen = s.ringGen := by
    intro status
    rw [PiState.afterStage]
    split_ifs <;> rfl
  rw [PiState.sendStage]
  refine h.request _ (hgen _) (fun hok hb hne => ?_) fun hno hb hne => ?_
  · have hmiss : ¬ isMissing (w.request (setFpsDiv wantDiv t)).1 = true := by
      intro hmiss
      rw [not_isSuccess_of_isMissing hmiss] at hok
      simp at hok
    rw [PiState.afterStage, if_neg hmiss, if_pos hok]
    refine ⟨⟨?_, hb.focus, ?_⟩, by simp⟩
    · intro d hd
      exact Option.some.inj hd
    · intro ht
      dsimp only at ht
      simp [Waybeam.apply, setFpsDiv, ht]
  · rw [PiState.afterStage]
    split_ifs with hmiss hok
    · exact ⟨⟨hb.div, hb.focus, hb.applied⟩, hne⟩
    · simp [hok] at hno
    · exact ⟨⟨hb.div, hb.focus, hb.applied⟩, hne⟩

theorem ringGen_afterRate (s : PiState) (now kbps floorKbps : ℕ) (status : ℤ) :
    (s.afterRate now kbps floorKbps status).ringGen = s.ringGen := by
  rw [PiState.afterRate]
  split_ifs <;> rfl

theorem Consistent.rateRequest (h : Consistent gen s w) (now kbps floorKbps : ℕ) :
    Consistent gen (s.afterRate now kbps floorKbps (w.request (setBitrate kbps)).1)
      (w.request (setBitrate kbps)).2 := by
  refine h.request _ (ringGen_afterRate ..) (fun hok hb hne => ?_) fun hno hb hne => ?_
  · rw [PiState.afterRate, if_pos hok]
    exact ⟨⟨hb.div, hb.focus, fun _ => rfl⟩, hne⟩
  · rw [PiState.afterRate, if_neg (by simp [hno])]
    exact ⟨⟨hb.div, hb.focus, hb.applied⟩, hne⟩

/-- A cut: some refused rates, and the one it ends with. -/
theorem Consistent.cutLoop (h : Consistent gen s w) (now currentKbps div attempts : ℕ)
    {status : ℤ} (hstatus : isSuccess status = false) (kbps floorKbps : ℕ) :
    Consistent gen
      (s.afterRate now
        (cutLoop World.request currentKbps div attempts status kbps floorKbps w).kbps
        (cutLoop World.request currentKbps div attempts status kbps floorKbps w).floorKbps
        (cutLoop World.request currentKbps div attempts status kbps floorKbps w).status)
      (cutLoop World.request currentKbps div attempts status kbps floorKbps w).ctx := by
  induction attempts generalizing w status kbps floorKbps with
  | zero =>
    rw [Ar8030.cutLoop, PiState.afterRate, if_neg (by simp [hstatus])]
    exact h.of_same rfl rfl rfl rfl
  | succ attempts ih =>
    rw [Ar8030.cutLoop]
    dsimp only
    split_ifs with hother hclose
    · exact h.rateRequest now kbps floorKbps
    · exact h.rateRequest now kbps _
    · have h409 : isSuccess (w.request (setBitrate kbps)).1 = false := by
        rw [not_not.mp hother]
        decide
      have h' : Consistent gen s (w.request (setBitrate kbps)).2 :=
        h.request _ rfl (fun hok => by simp [h409] at hok) fun _ hb hne => ⟨hb, hne⟩
      exact ih h' h409 _ _

theorem Consistent.sendRate (h : Consistent gen s w) (now t : ℕ) :
    Consistent gen (s.sendRate World.request now t w).1 (s.sendRate World.request now t w).2 := by
  rw [PiState.sendRate]
  split_ifs with hcut
  · exact h.cutLoop now _ _ 5 (by decide) t _
  · exact h.rateRequest now t s.floorKbps

theorem Consistent.sendTarget (h : Consistent gen s w) (cfg : PiConfig) (now : ℕ) (dt : ℚ)
    (why : Option Disturbance) :
    Consistent gen (s.sendTarget World.request cfg now dt why w).1
      (s.sendTarget World.request cfg now dt why w).2 := by
  have h' : Consistent gen { s with divUpSinceMs := (s.chooseDiv cfg now).2 } w :=
    h.of_same rfl rfl rfl rfl
  rw [PiState.sendTarget]
  split_ifs
  · exact h'.sendStage now _ _
  · exact h'
  · exact h'.sendRate now _

/-! ### Passes and runs -/

/-- A pass that sees a new generation forgets what was applied; the divisor it takes for
granted. -/
theorem Consistent.seeGeneration (h : Consistent gen s w) (cfg : PiConfig)
    (hfull : w.generation ≠ s.ringGen → w.announced = w.restarts → w.waybeam.fpsDivisor = 1) :
    Consistent w.generation (s.seeGeneration cfg w.generation) w := by
  rw [PiState.seeGeneration]
  split_ifs with hnew
  · refine ⟨rfl, ⟨h.sane.announced_le, le_rfl⟩, fun hsync => ⟨⟨?_, by simp, by simp⟩, by simp⟩⟩
    intro d hd
    rw [← Option.some.inj hd]
    exact hfull hnew hsync.announced
  · have hgen : w.generation = gen := (not_not.mp hnew).trans h.ringGen
    rwa [hgen]

theorem Consistent.readCapacity (h : Consistent gen s w) (cfg : PiConfig) (inp : PiInput) :
    Consistent gen (s.readCapacity cfg inp) w := by
  rw [PiState.readCapacity]
  split_ifs <;> exact h.of_same rfl rfl rfl rfl

theorem Consistent.observe (h : Consistent gen s w) (cfg : PiConfig) (inp : PiInput) :
    Consistent gen (s.observe cfg inp).1 w := by
  have hdisturb : ∀ s : PiState, Consistent gen s w → Consistent gen (s.disturb cfg inp).1 w := by
    intro s hs
    rw [PiState.disturb]
    dsimp only
    split_ifs <;> exact hs.of_same rfl rfl rfl rfl
  have hretx : Consistent gen (s.countRetx inp) w := h.of_same rfl rfl rfl rfl
  rw [PiState.observe, PiState.backstop]
  split_ifs <;> exact (hdisturb _ hretx).of_same rfl rfl rfl rfl

theorem Consistent.updateK (h : Consistent gen s w) (cfg : PiConfig) (dMs dt : ℚ) (now : ℕ) :
    Consistent gen (s.updateK cfg dMs dt now) w :=
  h.of_same rfl rfl rfl rfl

/-- **One pass.** -/
theorem Consistent.piTick (h : Consistent gen s w) (cfg : PiConfig) (inp : PiInput)
    (hfull : w.generation ≠ s.ringGen → w.announced = w.restarts → w.waybeam.fpsDivisor = 1) :
    Consistent w.generation (piTick World.request cfg s w.generation inp w).1
      (piTick World.request cfg s w.generation inp w).2 := by
  have hstart : Consistent gen { s with lastTickMs := inp.now } w := h.of_same rfl rfl rfl rfl
  have hbegin : Consistent w.generation (s.begin World.request cfg w.generation inp w).1
      (s.begin World.request cfg w.generation inp w).2 :=
    ((hstart.seeGeneration cfg hfull).startupDivisor inp.now).readCapacity cfg inp
  rw [Ar8030.piTick]
  dsimp only
  split_ifs
  · exact hbegin
  · have hfocus := (hbegin.observe cfg inp).piFocus cfg inp.now
    exact (hfocus.updateK cfg inp.delayMs _ inp.now).sendTarget cfg inp.now _ _

end Pass

/-- What holds after every pass. -/
def Knowing (x : PiState × World) : Prop := Consistent x.1.ringGen x.1 x.2

theorem knowing_init (cfg : PiConfig) (waybeam : Waybeam) (now gen : ℕ) :
    Knowing (passInit cfg waybeam now gen) where
  ringGen := rfl
  sane := ⟨le_rfl, le_rfl⟩
  believes := fun hsync => absurd hsync.restarted (lt_irrefl 0)

theorem Knowing.step {x : PiState × World} (h : Knowing x) {cfg : PiConfig} {p : PassScript}
    (hfull : SeesFullRate x p) : Knowing (passStep cfg x p) := by
  have hanswers : Consistent x.1.ringGen x.1 { x.2 with answers := p.answers } :=
    ⟨rfl, ⟨h.sane.announced_le, h.sane.gen_le⟩, fun hsync =>
      h.believes ⟨hsync.generation, hsync.announced, hsync.restarted⟩⟩
  obtain ⟨hsane, hsame⟩ := hanswers.sane.events p.events
  have hbefore : Consistent x.1.ringGen x.1 (p.before x.2) := by
    refine ⟨rfl, hsane, fun hsync => ?_⟩
    have heq : p.before x.2 = { x.2 with answers := p.answers } := hsame hsync
    rw [heq] at hsync ⊢
    exact hanswers.believes hsync
  have hpass := hbefore.piTick cfg p.input hfull
  rw [Knowing, passStep, hpass.ringGen]
  exact hpass

/-- **Beliefs are true.** Take any run of the controller, with restarts of waybeam and their
announcements anywhere in it, in which every pass that sees the latest restart finds waybeam
at the full frame rate. After any pass, if the latest restart has been announced and seen,
what the controller takes for known about waybeam is so. -/
theorem beliefs_true (cfg : PiConfig) (waybeam : Waybeam) (now gen : ℕ) (ps : List PassScript)
    (hfull : Always (fun past p => SeesFullRate (passRun cfg waybeam now gen past) p) ps)
    (hsync : (passRun cfg waybeam now gen ps).2.Synced (passRun cfg waybeam now gen ps).1.ringGen) :
    Believes (passRun cfg waybeam now gen ps).1 (passRun cfg waybeam now gen ps).2.waybeam := by
  have hknow : Knowing (passRun cfg waybeam now gen ps) := by
    clear hsync
    induction ps using List.reverseRecOn with
    | nil => exact knowing_init cfg waybeam now gen
    | append_singleton ps p ih =>
      obtain ⟨hpast, hp⟩ := always_concat_iff.mp hfull
      rw [passRun, List.foldl_concat]
      exact (ih hpast).step hp
  exact (hknow.believes hsync).1

/-- The configuration of `tx/main.c` with one frame-rate stage (`-D 2`). -/
def oneStageConfig : PiConfig where
  margin := 545 / 1000
  minKbps := 512
  maxKbps := 35000
  pollIntervalMs := 500
  ringBacklogHighSlots := 6
  ringBackoff := 92 / 100
  roiMaxKbps := 0
  roiRecoveryMs := 5000
  fpsDivMax := 2
  fpsRecoveryMs := 1000
  ldpcRatioHigh := 0
  ldpcSevereRatio := 0
  piDelaySetMs := 15
  piKpUp := 6 / 1000
  piKpDown := 2 / 100
  piKiUp := 1 / 100
  piKiDown := 5 / 100
  piKMin := 2 / 10
  piKMax := 11 / 10
  piSlewUp := 2
  piSevereK := 5 / 10
  piRetxSevereEvents := 6
  piMildTrim := 85 / 100
  piRecoverPerS := 0

/-- A quiet radio with a capacity of `cap` kbit/s. -/
def quietInput (now wake cap : ℕ) : PiInput := ⟨now, 0, 0, wake, some cap, 0, none, none⟩

/-- waybeam restarts and the restart is announced before the second pass, which then sets the
frame-rate stage. -/
def stageAfterRestart : List PassScript :=
  [⟨[], quietInput 5000 0 5000, [⟨[], 200⟩, ⟨[], 200⟩]⟩,
    ⟨[.restart 8000 false, .bump 1], quietInput 5100 1 500, [⟨[], 200⟩]⟩]

instance (x : PiState × World) (p : PassScript) : Decidable (SeesFullRate x p) :=
  inferInstanceAs (Decidable (_ → _ → _))

/-- The controller knows the stage it has set. -/
theorem beliefs_true_stageAfterRestart :
    (passRun oneStageConfig ⟨4000, false, 1⟩ 4900 0 stageAfterRestart).1.div = some 2 ∧
      Believes (passRun oneStageConfig ⟨4000, false, 1⟩ 4900 0 stageAfterRestart).1
        (passRun oneStageConfig ⟨4000, false, 1⟩ 4900 0 stageAfterRestart).2.waybeam := by
  refine ⟨by decide +kernel, beliefs_true _ _ _ _ _ ((always_nil.concat ?_).concat ?_) ?_⟩
  · exact by decide +kernel
  · exact by decide +kernel
  · exact ⟨by decide +kernel, by decide +kernel, by decide +kernel⟩

/-- waybeam restarts while the controller is setting the frame-rate stage: it is the restarted
waybeam that takes it, and the restart is announced after that. -/
def stageBeforeBump : List PassScript :=
  [⟨[], quietInput 5000 0 500, [⟨[], 200⟩, ⟨[.restart 8000 false], 200⟩]⟩,
    ⟨[.bump 1], quietInput 5100 1 5000, [⟨[], 200⟩]⟩]

/-- With the restart announced and seen, the controller takes the full frame rate for granted,
and waybeam is at half of it. -/
theorem not_believes_stageBeforeBump :
    (passRun oneStageConfig ⟨4000, false, 1⟩ 4900 0 stageBeforeBump).2.Synced
        (passRun oneStageConfig ⟨4000, false, 1⟩ 4900 0 stageBeforeBump).1.ringGen ∧
      ¬ Believes (passRun oneStageConfig ⟨4000, false, 1⟩ 4900 0 stageBeforeBump).1
        (passRun oneStageConfig ⟨4000, false, 1⟩ 4900 0 stageBeforeBump).2.waybeam := by
  refine ⟨⟨by decide +kernel, by decide +kernel, by decide +kernel⟩, fun h => ?_⟩
  have hdiv : (passRun oneStageConfig ⟨4000, false, 1⟩ 4900 0 stageBeforeBump).1.div = some 1 := by
    decide +kernel
  have htwo : (passRun oneStageConfig ⟨4000, false, 1⟩ 4900 0
      stageBeforeBump).2.waybeam.fpsDivisor = 2 := by
    decide +kernel
  have hone := h.div 1 hdiv
  omega

end Ar8030
