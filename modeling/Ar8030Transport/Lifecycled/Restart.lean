import Ar8030Transport.Library.Trace
import Ar8030Transport.Lifecycled.Sidecars

/-!
# The settings across restarts

A board is the daemon's context and the files of its settings. It may be started again at any
time: the mailboxes and everything else in memory is lost, the files stay.

The daemon never tells the chip anything but what its files say (`settings_survive_restarts`):
every bandwidth, retransmission setting and power level it sends is the one a load of the files
would give at that moment, or the default of the configuration; and the channel and the power it
wants are at every time those it would want after a restart.

Each function of a tick is looked at on its own, against the files as they are when it is called
(`Keeps`); the saves among its events are what changes them.
-/

namespace Ar8030

open DecimalText (toInt)
open Trace

/-! ### The files -/

/-- The contents of the files, `none` where there is none. -/
structure Sidecars where
  tuning : Option (List UInt8)
  retx : Option (List UInt8)
  channel : Option (List UInt8)
  power : Option (List UInt8)
  deriving DecidableEq, Repr

namespace Sidecars

/-- The files after an event. A refused save leaves the file. -/
def after (f : Sidecars) : LcEvent → Sidecars
  | .saveBandwidth mhz => { f with tuning := (lcTuningSave mhz).or f.tuning }
  | .saveRetx r => { f with retx := (lcRetxSave r).or f.retx }
  | .saveChannel chan => { f with channel := (lcChannelSave chan).or f.channel }
  | .savePower level => { f with power := (lcPowerSave level).or f.power }
  | _ => f

/-- The files after some events. -/
def afterAll (f : Sidecars) (events : List LcEvent) : Sidecars := events.foldl after f

@[simp]
theorem afterAll_nil (f : Sidecars) : f.afterAll [] = f := rfl

@[simp]
theorem afterAll_cons (f : Sidecars) (e : LcEvent) (es : List LcEvent) :
    f.afterAll (e :: es) = (f.after e).afterAll es := rfl

theorem afterAll_append (f : Sidecars) (es es' : List LcEvent) :
    f.afterAll (es ++ es') = (f.afterAll es).afterAll es' := List.foldl_append

/-- What `lifecycle_init` reads. -/
def saved (f : Sidecars) : Saved := ⟨f.channel.bind lcChannelLoad, f.power.bind lcPowerLoad⟩

variable (intOf : ℤ → ℤ)

/-- `lc_tuning_load` of the file. -/
def loadedBandwidth (f : Sidecars) : ℤ := (f.tuning.bind (lcTuningLoad intOf)).getD (-1)

/-- `lc_retx_load` of the file. -/
def loadedRetx (f : Sidecars) : Option RetxCfg := f.retx.bind (lcRetxLoad intOf)

/-- The bandwidth a fresh connection gets. -/
def bandwidth (cfg : LcConfig) (f : Sidecars) : ℤ :=
  if 0 ≤ f.loadedBandwidth intOf then f.loadedBandwidth intOf else cfg.defaultBandwidth

/-- A setting the chip is told is the one in the files. -/
def Tells (cfg : LcConfig) (f : Sidecars) : LcEvent → Prop
  | .setBandwidth _ mhz => mhz = f.bandwidth intOf cfg
  | .setRetx r => r = (f.loadedRetx intOf).getD retxDefault
  | .setPower level => level = initPower cfg f.saved
  | _ => True

end Sidecars

/-! ### The board -/

/-- The daemon and its files. -/
structure Board where
  ctx : Ctx
  files : Sidecars
  deriving DecidableEq, Repr

/-- What can happen on a board. -/
inductive BoardAction where
  | act (a : LcAction)
  /-- The daemon is started again, and reads this channel table from the chip. -/
  | restart (table : List UInt32)
  deriving DecidableEq, Repr

/-- A tick, as it reads these files. -/
def TickInput.reads (intOf : ℤ → ℤ) (f : Sidecars) (i : TickInput) : TickInput :=
  { i with loadedBandwidth := f.loadedBandwidth intOf, loadedRetx := f.loadedRetx intOf }

/-- The files at the time a tick loads from them: the mailboxes have been drained. -/
def Board.filesRead (cfg : LcConfig) (b : Board) (i : TickInput) : Sidecars :=
  b.files.afterAll (inTurn (tickDrains cfg i) b.ctx).2

/-- One action; `lifecycle_request_channel` refuses a channel out of range. -/
def boardStep (cfg : LcConfig) (intOf : ℤ → ℤ) (b : Board) : BoardAction → Board × List LcEvent
  | .act (.tick i) =>
    let r := tick cfg (i.reads intOf (b.filesRead cfg i)) b.ctx
    (⟨r.1, b.files.afterAll r.2⟩, r.2)
  | .act (.channel chan) =>
    if chan.isRequestable then (⟨postChannel chan b.ctx, b.files⟩, []) else (b, [])
  | .act a => (⟨(lcStep cfg b.ctx a).1, b.files⟩, (lcStep cfg b.ctx a).2)
  | .restart table =>
    (⟨(lcStart cfg b.files.saved table).1, b.files⟩, (lcStart cfg b.files.saved table).2)

/-- A run of a board, from its first start with these files. -/
def boardRun (cfg : LcConfig) (intOf : ℤ → ℤ) (files : Sidecars) (table : List UInt32)
    (actions : List BoardAction) : Board × List LcEvent :=
  Mealy.run (boardStep cfg intOf) ⟨lifecycleInit cfg files.saved table, files⟩
    (.restart table :: actions)

/-- The chip reports a channel of its own table. -/
def BoardAction.ReadsTable : BoardAction → Prop
  | .act (.tick i) => ∀ r, i.trackRead = some r → r.observed.isRequestable = true
  | _ => True

/-! ### What a save does -/

section Saves

variable {cfg : LcConfig} {intOf : ℤ → ℤ} {f : Sidecars}

theorem bandwidth_after_save (hint : KeepsInts intOf) {mhz : ℤ} (h : mhz ∈ validMhz) :
    (f.after (.saveBandwidth mhz)).bandwidth intOf cfg = mhz := by
  obtain ⟨text, hsave, hload⟩ := lcTuningLoad_save hint h
  have hpos : ∀ z ∈ validMhz, 0 ≤ z := by decide
  have hloaded : (f.after (.saveBandwidth mhz)).loadedBandwidth intOf = mhz := by
    rw [Sidecars.after, Sidecars.loadedBandwidth, hsave, Option.some_or, Option.bind_some, hload]
    rfl
  rw [Sidecars.bandwidth, hloaded, if_pos (hpos mhz h)]

theorem loadedRetx_after_save (hint : KeepsInts intOf) {r : RetxCfg} (h : r.isValid = true) :
    (f.after (.saveRetx r)).loadedRetx intOf = some r := by
  obtain ⟨text, hsave, hload⟩ := lcRetxLoad_save hint h
  rw [Sidecars.after, Sidecars.loadedRetx, hsave, Option.some_or, Option.bind_some, hload]

theorem initChannel_after_save (hcfg : cfg.hasCfgPath = true) (hrole : cfg.role = .ap)
    {chan : Channel} (h : chan.isRequestable = true) :
    initChannel cfg (f.after (.saveChannel chan)).saved = chan := by
  obtain ⟨text, hsave, hload⟩ := lcChannelLoad_save h
  rw [initChannel, if_pos hrole, if_pos hcfg, Sidecars.after, Sidecars.saved]
  dsimp only
  rw [hsave, Option.some_or, Option.bind_some, hload]
  rfl

/-- A level the chip can be told may be saved. -/
theorem isStorable_of_lcPowerValid {role : Role} {maxMw : ℕ} {level : PowerLevel}
    (h : lcPowerValid role maxMw level = true) : level.isStorable = true := by
  cases level with
  | auto => rfl
  | none => exact absurd rfl (ne_none_of_lcPowerValid h)
  | mw n =>
    rw [lcPowerValid, Bool.and_eq_true, powerLevelDbm, Option.isSome_map,
      List.find?_isSome] at h
    obtain ⟨⟨t, ht, hn⟩, -⟩ := h
    obtain rfl : t.1 = n := beq_iff_eq.mp hn
    have hall : ∀ role : Role, ∀ t ∈ powerLevels role, (PowerLevel.mw t.1).isStorable = true := by
      intro role
      cases role <;> decide
    exact hall role t ht

theorem initPower_after_save (hcfg : cfg.hasCfgPath = true) {level : PowerLevel}
    (h : lcPowerValid cfg.role cfg.maxPower level = true) :
    initPower cfg (f.after (.savePower level)).saved = level := by
  obtain ⟨text, hsave, hload⟩ := lcPowerLoad_save (isStorable_of_lcPowerValid h)
  have hpower : (f.after (.savePower level)).saved.power = some level := by
    rw [Sidecars.after, Sidecars.saved]
    dsimp only
    rw [hsave, Option.some_or, Option.bind_some, hload]
  have hsaved : savedPowerLevel cfg (f.after (.savePower level)).saved = level := by
    rw [savedPowerLevel, if_pos hcfg, hpower]
    exact if_pos h
  rw [initPower, hsaved]
  exact if_neg fun hbad => Bool.false_ne_true (hbad.2.symm.trans h)

end Saves

/-! ### What the daemon remembers -/

/-- Each of the events tells what the files say at that time. -/
def Told (cfg : LcConfig) (intOf : ℤ → ℤ) : Sidecars → List LcEvent → Prop
  | _, [] => True
  | f, e :: es => f.Tells intOf cfg e ∧ Told cfg intOf (f.after e) es

/-- What the context has from the files, and that its mailboxes hold valid requests. -/
structure Remembers (cfg : LcConfig) (intOf : ℤ → ℤ) (f : Sidecars) (c : Ctx) : Prop where
  channel : initChannel cfg f.saved = c.channel
  power : initPower cfg f.saved = c.power
  bandwidth : 0 < c.lastBandwidth → c.state = .connected ∧ c.lastBandwidth = f.bandwidth intOf cfg
  pendingBandwidth : 0 < c.pendingBandwidthMhz → c.pendingBandwidthMhz ∈ validMhz
  pendingRetx : ∀ r, c.pendingRetx = some r → r.isValid = true
  pendingChannel : ∀ chan, c.pendingChannel = some chan → chan.isRequestable = true
  pendingPower : ∀ l, c.pendingPower = some l → lcPowerValid cfg.role cfg.maxPower l = true

/-- A function of the tick that tells what the files say and goes on remembering them. -/
def Keeps (cfg : LcConfig) (intOf : ℤ → ℤ) (f : Sidecars) (step : Ctx → Ctx × List LcEvent) :
    Prop :=
  ∀ c, Remembers cfg intOf f c →
    Told cfg intOf f (step c).2 ∧ Remembers cfg intOf (f.afterAll (step c).2) (step c).1

section Rules

variable {cfg : LcConfig} {intOf : ℤ → ℤ} {f : Sidecars}

theorem told_append {es es' : List LcEvent} :
    Told cfg intOf f (es ++ es') ↔ Told cfg intOf f es ∧ Told cfg intOf (f.afterAll es) es' := by
  induction es generalizing f with
  | nil => exact (and_iff_right trivial).symm
  | cons e es ih =>
    rw [List.cons_append, Told, Told, ih, Sidecars.afterAll_cons, and_assoc]

/-- Told of every event and those before it. -/
theorem Told.always {es : List LcEvent} (h : Told cfg intOf f es) :
    Always (fun past e => (f.afterAll past).Tells intOf cfg e) es := by
  rintro pre e post rfl
  exact (told_append.mp h).2.1

theorem Keeps.nil : Keeps cfg intOf f (inTurn []) := fun _ hc => ⟨trivial, hc⟩

/-- One function, and the others against the files it leaves. -/
theorem Keeps.cons {step : Ctx → Ctx × List LcEvent} {fs : List (Ctx → Ctx × List LcEvent)}
    (h : Keeps cfg intOf f step)
    (hfs : ∀ c, Remembers cfg intOf f c → Keeps cfg intOf (f.afterAll (step c).2) (inTurn fs)) :
    Keeps cfg intOf f (inTurn (step :: fs)) := by
  intro c hc
  obtain ⟨htold, hnext⟩ := h c hc
  obtain ⟨htold', hlast⟩ := hfs c hc (step c).1 hnext
  rw [inTurn_cons, told_append, Sidecars.afterAll_append]
  exact ⟨⟨htold, htold'⟩, hlast⟩

/-- Functions that keep it whatever the files are. -/
theorem Keeps.inTurn {fs : List (Ctx → Ctx × List LcEvent)}
    (h : ∀ step ∈ fs, ∀ f, Keeps cfg intOf f step) : Keeps cfg intOf f (inTurn fs) := by
  induction fs generalizing f with
  | nil => exact Keeps.nil
  | cons step fs ih =>
    exact (h step List.mem_cons_self f).cons fun _ _ =>
      ih fun step' h' => h step' (List.mem_cons_of_mem _ h')

/-- The fields `Remembers` speaks of. -/
def Ctx.settings (c : Ctx) :
    Channel × PowerLevel × ℤ × LcState × ℤ × Option RetxCfg × Option Channel × Option PowerLevel :=
  (c.channel, c.power, c.lastBandwidth, c.state, c.pendingBandwidthMhz, c.pendingRetx,
    c.pendingChannel, c.pendingPower)

theorem Remembers.of_settings {c c' : Ctx} (h : Remembers cfg intOf f c)
    (heq : c'.settings = c.settings) : Remembers cfg intOf f c' := by
  simp only [Ctx.settings, Prod.mk.injEq] at heq
  obtain ⟨hchannel, hpower, hlast, hstate, hbw, hretx, hchan, hpow⟩ := heq
  constructor
  · rw [hchannel]
    exact h.channel
  · rw [hpower]
    exact h.power
  · rw [hlast, hstate]
    exact h.bandwidth
  · rw [hbw]
    exact h.pendingBandwidth
  · rw [hretx]
    exact h.pendingRetx
  · rw [hchan]
    exact h.pendingChannel
  · rw [hpow]
    exact h.pendingPower

/-- The power, or the standby target, is told as the files have it. -/
theorem told_applyPower {c : Ctx} (hc : initPower cfg f.saved = c.power) :
    Told cfg intOf f (applyPower cfg c) ∧ f.afterAll (applyPower cfg c) = f := by
  rw [applyPower]
  split_ifs
  · exact ⟨⟨trivial, trivial⟩, rfl⟩
  · exact ⟨trivial, rfl⟩
  · exact ⟨⟨hc.symm, trivial⟩, rfl⟩
  · exact ⟨trivial, rfl⟩

/-- The event neither tells a setting nor saves one. -/
def LcEvent.isQuiet : LcEvent → Bool
  | .setBandwidth _ _ => false
  | .setRetx _ => false
  | .setPower _ => false
  | .saveBandwidth _ => false
  | .saveRetx _ => false
  | .saveChannel _ => false
  | .savePower _ => false
  | _ => true

theorem told_of_quiet {es : List LcEvent} (h : ∀ e ∈ es, e.isQuiet = true) :
    Told cfg intOf f es ∧ f.afterAll es = f := by
  induction es with
  | nil => exact ⟨trivial, rfl⟩
  | cons e es ih =>
    have he := h e List.mem_cons_self
    have hafter : f.after e = f := by
      cases e <;> first | rfl | cases he
    have htells : f.Tells intOf cfg e := by
      cases e <;> trivial
    obtain ⟨htold, hfiles⟩ := ih fun e' he' => h e' (List.mem_cons_of_mem _ he')
    rw [Told, Sidecars.afterAll_cons, hafter]
    exact ⟨⟨htells, htold⟩, hfiles⟩

/-- A function that neither changes what is remembered nor tells or saves anything. -/
theorem keeps_of_quiet {step : Ctx → Ctx × List LcEvent}
    (hsettings : ∀ c, (step c).1.settings = c.settings)
    (hevents : ∀ c, ∀ e ∈ (step c).2, e.isQuiet = true) : Keeps cfg intOf f step := by
  intro c hc
  obtain ⟨htold, hafter⟩ := @told_of_quiet cfg intOf f _ (hevents c)
  rw [hafter]
  exact ⟨htold, hc.of_settings (hsettings c)⟩

end Rules

/-! ### The mailboxes -/

section Drains

variable {cfg : LcConfig} {intOf : ℤ → ℤ} {f : Sidecars} {i : TickInput}

theorem keeps_fallbackPoll : Keeps cfg intOf f (fallbackPoll i) := by
  refine keeps_of_quiet (fun c => ?_) fun c e he => ?_
  · rw [fallbackPoll_frame]
    rfl
  · rw [fallbackPoll] at he
    split_ifs at he <;> cases he

theorem keeps_drainBandwidthRequest (hcfg : cfg.hasCfgPath = true) (hint : KeepsInts intOf) :
    Keeps cfg intOf f (drainBandwidthRequest cfg) := by
  intro c hc
  have hnone : ¬(0 : ℤ) < -1 := by decide
  rw [drainBandwidthRequest]
  dsimp only
  rw [if_pos hcfg]
  split_ifs with hmhz hstate
  · exact ⟨trivial, ⟨hc.channel, hc.power, hc.bandwidth, fun h => absurd h hnone,
      hc.pendingRetx, hc.pendingChannel, hc.pendingPower⟩⟩
  all_goals
    have hmem := hc.pendingBandwidth (by omega)
    have hbw := @bandwidth_after_save cfg intOf f hint _ hmem
  · exact ⟨⟨trivial, hbw.symm, trivial⟩, ⟨hc.channel, hc.power, fun _ => ⟨hstate, hbw.symm⟩,
      fun h => absurd h hnone, hc.pendingRetx, hc.pendingChannel, hc.pendingPower⟩⟩
  · -- without a link no bandwidth is remembered
    refine ⟨⟨trivial, trivial⟩, ⟨hc.channel, hc.power, fun h => ?_, fun h => absurd h hnone,
      hc.pendingRetx, hc.pendingChannel, hc.pendingPower⟩⟩
    exact absurd (hc.bandwidth h).1 hstate

theorem keeps_drainRetxRequest (hcfg : cfg.hasCfgPath = true) (hint : KeepsInts intOf) :
    Keeps cfg intOf f (drainRetxRequest cfg) := by
  intro c hc
  rw [drainRetxRequest]
  cases hpending : c.pendingRetx with
  | none => exact ⟨trivial, hc⟩
  | some r =>
    dsimp only
    rw [if_pos hcfg]
    have hload := loadedRetx_after_save (f := f) hint (hc.pendingRetx r hpending)
    refine ⟨⟨trivial, ?_, trivial⟩, ⟨hc.channel, hc.power, hc.bandwidth, hc.pendingBandwidth,
      fun r' h => ?_, hc.pendingChannel, hc.pendingPower⟩⟩
    · show r = _
      rw [hload]
      rfl
    · cases h

theorem keeps_drainChannelRequest (hcfg : cfg.hasCfgPath = true) (read : Option ChanReading) :
    Keeps cfg intOf f (drainChannelRequest cfg read) := by
  intro c hc
  rw [drainChannelRequest]
  cases hpending : c.pendingChannel with
  | none => exact ⟨trivial, hc⟩
  | some chan =>
    have hok := hc.pendingChannel chan hpending
    have hdrained : Remembers cfg intOf f { c with pendingChannel := none } :=
      ⟨hc.channel, hc.power, hc.bandwidth, hc.pendingBandwidth, hc.pendingRetx,
        fun _ h => (by cases h), hc.pendingPower⟩
    -- what tunes the chip tells none of the settings
    have htune : ∀ g : Sidecars, ∀ tune : List LcEvent,
        tune = (if c.state = .connected then [.setChanLinked c.connectedSlot chan]
          else [.setChanMode chan]) → Told cfg intOf g tune ∧ g.afterAll tune = g := by
      rintro g _ rfl
      split_ifs <;> exact ⟨⟨trivial, trivial⟩, rfl⟩
    dsimp only
    by_cases hout : outsideTable chan read = true
    · rw [if_pos hout]
      exact ⟨trivial, hdrained⟩
    rw [if_neg hout, if_pos hcfg]
    by_cases hrole : cfg.role = .ap
    · rw [if_pos hrole, List.singleton_append]
      obtain ⟨htold, hafter⟩ := htune (f.after (.saveChannel chan)) _ rfl
      rw [Sidecars.afterAll_cons, hafter]
      exact ⟨⟨trivial, htold⟩, ⟨initChannel_after_save hcfg hrole hok, hc.power, hc.bandwidth,
        hc.pendingBandwidth, hc.pendingRetx, fun _ h => (by cases h), hc.pendingPower⟩⟩
    · rw [if_neg hrole]
      obtain ⟨htold, hafter⟩ := htune f _ rfl
      rw [hafter]
      exact ⟨htold, hdrained⟩

theorem keeps_drainPowerRequest (hcfg : cfg.hasCfgPath = true) :
    Keeps cfg intOf f (drainPowerRequest cfg) := by
  intro c hc
  rw [drainPowerRequest]
  cases hpending : c.pendingPower with
  | none => exact ⟨trivial, hc⟩
  | some level =>
    dsimp only
    rw [if_pos hcfg]
    have hpower := initPower_after_save (f := f) hcfg (hc.pendingPower level hpending)
    obtain ⟨htold, hafter⟩ := @told_applyPower cfg intOf
      (f.after (.savePower level)) { c with pendingPower := none, power := level } hpower
    rw [List.singleton_append, Sidecars.afterAll_cons, hafter]
    exact ⟨⟨trivial, htold⟩, ⟨hc.channel, hpower, hc.bandwidth, hc.pendingBandwidth,
      hc.pendingRetx, hc.pendingChannel, fun _ h => by cases h⟩⟩

end Drains

/-! ### The link, the temperature and the low-power mode -/

section Updates

variable {cfg : LcConfig} {intOf : ℤ → ℤ} {f : Sidecars} {i : TickInput}

/-- The link tuning tells the saved retransmission setting and the power. -/
theorem applyLinkTuning_keeps (hcfg : cfg.hasCfgPath = true)
    (hretx : i.loadedRetx = f.loadedRetx intOf) :
    Keeps cfg intOf f (applyLinkTuning cfg i) := by
  intro c hc
  have hquiet : ∀ e ∈ (if cfg.role = .ap ∧ cfg.frameChange = true then [LcEvent.setFrameChange]
      else []) ++ (if cfg.role = .dev ∧ (cfg.linkPolicy = 1 ∨ cfg.linkPolicy = 2) then
        [LcEvent.pushMcsItems] else []), e.isQuiet = true := by
    intro e he
    split_ifs at he <;> simp at he <;> rcases he with rfl | rfl <;> rfl
  obtain ⟨htold, hafter⟩ := @told_applyPower cfg intOf f c hc.power
  obtain ⟨htold', hafter'⟩ := @told_of_quiet cfg intOf f _ hquiet
  have hset : ∀ r : RetxCfg, f.after (.setRetx r) = f := fun _ => rfl
  rw [applyLinkTuning]
  dsimp only
  rw [if_pos hcfg, hretx, List.append_assoc, List.append_assoc, List.singleton_append, Told,
    Sidecars.afterAll_cons, told_append, Sidecars.afterAll_append, hset, hafter, hafter']
  exact ⟨⟨rfl, htold, htold'⟩, hc.of_settings rfl⟩

/-- A connect tells the saved bandwidth first. -/
theorem followConnect_keeps (hcfg : cfg.hasCfgPath = true)
    (hbw : i.loadedBandwidth = f.loadedBandwidth intOf)
    (hretx : i.loadedRetx = f.loadedRetx intOf) : Keeps cfg intOf f (followConnect cfg i) := by
  intro c hc
  have hbandwidth : connectBandwidth cfg i = f.bandwidth intOf cfg := by
    rw [connectBandwidth, Sidecars.bandwidth, hbw]
    simp only [hcfg, true_and]
  rw [followConnect]
  dsimp only
  rw [applyTuningOnConnect]
  dsimp only
  generalize hslot : (if 0 ≤ i.resolvedSlot then i.resolvedSlot else 0) = slot
  have hlinked : Remembers cfg intOf f
      { c with
        connectConfirmCount := 0, connectedSlot := slot, state := .connected
        connectGen := i.connectGen, lastBandwidth := connectBandwidth cfg i } :=
    ⟨hc.channel, hc.power, fun _ => ⟨rfl, hbandwidth⟩, hc.pendingBandwidth, hc.pendingRetx,
      hc.pendingChannel, hc.pendingPower⟩
  obtain ⟨htold, hnext⟩ := applyLinkTuning_keeps hcfg hretx _ hlinked
  generalize applyLinkTuning cfg i _ = r at htold hnext
  have hfirst : ∀ es : List LcEvent,
      es = (if 0 < connectBandwidth cfg i then
        [.setBandwidth slot (connectBandwidth cfg i)] else []) →
      Told cfg intOf f es ∧ f.afterAll es = f := by
    rintro _ rfl
    split_ifs
    · exact ⟨⟨hbandwidth, trivial⟩, rfl⟩
    · exact ⟨trivial, rfl⟩
  obtain ⟨htold₁, hafter₁⟩ := hfirst _ rfl
  have hnote : ∀ e ∈ (if cfg.role = .dev ∧ cfg.hasCfgPath = true then [LcEvent.noteApMac] else []),
      e.isQuiet = true := by
    intro e he
    split_ifs at he
    · rw [List.mem_singleton.mp he]
      rfl
    · cases he
  obtain ⟨htold₂, hafter₂⟩ := @told_of_quiet cfg intOf (f.afterAll r.2) _ hnote
  have hhook : f.after (.hook .connected slot) = f := rfl
  rw [List.cons_append, Told, Sidecars.afterAll_cons, hhook, List.append_assoc, told_append,
    Sidecars.afterAll_append, hafter₁, told_append, Sidecars.afterAll_append, hafter₂]
  exact ⟨⟨trivial, htold₁, htold, htold₂⟩, hnext.of_settings rfl⟩

theorem keeps_idleTick (hcfg : cfg.hasCfgPath = true)
    (hbw : i.loadedBandwidth = f.loadedBandwidth intOf)
    (hretx : i.loadedRetx = f.loadedRetx intOf) : Keeps cfg intOf f (idleTick cfg i) := by
  intro c hc
  rw [idleTick]
  split_ifs
  · exact ⟨trivial, hc.of_settings rfl⟩
  · exact followConnect_keeps hcfg hbw hretx c hc
  · exact ⟨trivial, hc.of_settings rfl⟩
  · exact ⟨⟨trivial, trivial⟩, hc.of_settings rfl⟩

theorem keeps_recheckBandwidth : Keeps cfg intOf f (recheckBandwidth cfg i) := by
  intro c hc
  rw [recheckBandwidth]
  by_cases hcheck : c.didFallbackPoll ∧ 0 < c.lastBandwidth ∧ 0 < i.currentBandwidth ∧
      i.currentBandwidth ≠ c.lastBandwidth
  · rw [if_pos hcheck]
    exact ⟨⟨(hc.bandwidth hcheck.2.1).2, trivial⟩, hc.of_settings rfl⟩
  · rw [if_neg hcheck]
    exact ⟨trivial, hc⟩

theorem keeps_followRelink (hcfg : cfg.hasCfgPath = true)
    (hretx : i.loadedRetx = f.loadedRetx intOf) : Keeps cfg intOf f (followRelink cfg i) := by
  intro c hc
  rw [followRelink]
  split_ifs
  · obtain ⟨htold, hnext⟩ := applyLinkTuning_keeps hcfg hretx { c with connectGen := i.connectGen }
      (hc.of_settings rfl)
    exact ⟨htold, hnext.of_settings rfl⟩
  · exact ⟨trivial, hc⟩

theorem keeps_dueChannelCheck : Keeps cfg intOf f (dueChannelCheck cfg i) := by
  refine keeps_of_quiet (fun c => ?_) fun c e he => ?_
  · rw [dueChannelCheck_frame]
    rfl
  · rw [dueChannelCheck] at he
    split_ifs at he
    · rcases channelCheckLink_cases cfg i c with h | ⟨-, h⟩ | ⟨_, -, -, h⟩ |
        ⟨_, _, -, -, -, -, h⟩ <;> rw [h] at he
      · cases he
      · rw [List.mem_singleton.mp he]
        rfl
      · cases he
      · rw [List.mem_singleton.mp he]
        rfl
    · cases he

theorem keeps_retryFrameChange : Keeps cfg intOf f (retryFrameChange i) := by
  refine keeps_of_quiet (fun c => ?_) fun c e he => ?_
  · rw [retryFrameChange_frame]
    rfl
  · rw [retryFrameChange] at he
    split_ifs at he
    · rw [List.mem_singleton.mp he]
      rfl
    · cases he

theorem keeps_dueChannelTrack (hcfg : cfg.hasCfgPath = true)
    (htable : ∀ r, i.trackRead = some r → r.observed.isRequestable = true) :
    Keeps cfg intOf f (dueChannelTrack cfg i) := by
  intro c hc
  rw [dueChannelTrack]
  split_ifs
  · rw [channelTrack]
    cases hread : i.trackRead with
    | none => exact ⟨trivial, hc⟩
    | some r =>
      dsimp only
      split_ifs with hnone hmatch hsettled
      · exact ⟨trivial, hc.of_settings rfl⟩
      · exact ⟨trivial, hc.of_settings rfl⟩
      · exact ⟨trivial, hc.of_settings rfl⟩
      · have hrole : cfg.role = .ap := by
          by_contra hrole
          refine hnone ?_
          rw [← hc.channel, initChannel, if_neg hrole]
        exact ⟨⟨trivial, trivial⟩, ⟨initChannel_after_save hcfg hrole (htable r hread), hc.power,
          hc.bandwidth, hc.pendingBandwidth, hc.pendingRetx, hc.pendingChannel, hc.pendingPower⟩⟩
  · exact ⟨trivial, hc⟩

theorem keeps_connectedTick (hcfg : cfg.hasCfgPath = true)
    (hretx : i.loadedRetx = f.loadedRetx intOf)
    (htable : ∀ r, i.trackRead = some r → r.observed.isRequestable = true) :
    Keeps cfg intOf f (connectedTick cfg i) := by
  intro c hc
  rw [connectedTick]
  split_ifs
  · exact ⟨trivial, hc.of_settings rfl⟩
  · have hnone : ¬(0 : ℤ) < -1 := by decide
    exact ⟨⟨trivial, trivial⟩, ⟨hc.channel, hc.power, fun h => absurd h hnone,
      hc.pendingBandwidth, hc.pendingRetx, hc.pendingChannel, hc.pendingPower⟩⟩
  · refine (keeps_followRelink hcfg hretx).cons (fun _ _ => Keeps.inTurn fun step hstep g => ?_) _
      (hc.of_settings rfl)
    simp only [List.mem_cons, List.not_mem_nil, or_false] at hstep
    rcases hstep with rfl | rfl | rfl | rfl
    · exact keeps_dueChannelCheck
    · exact keeps_recheckBandwidth
    · exact keeps_retryFrameChange
    · exact keeps_dueChannelTrack hcfg htable

theorem keeps_switchState (hcfg : cfg.hasCfgPath = true)
    (hbw : i.loadedBandwidth = f.loadedBandwidth intOf)
    (hretx : i.loadedRetx = f.loadedRetx intOf)
    (htable : ∀ r, i.trackRead = some r → r.observed.isRequestable = true) :
    Keeps cfg intOf f (switchState cfg i) := by
  intro c hc
  rw [switchState]
  cases hstate : c.state with
  | init =>
    refine ⟨trivial, ⟨hc.channel, hc.power, fun h => ?_, hc.pendingBandwidth, hc.pendingRetx,
      hc.pendingChannel, hc.pendingPower⟩⟩
    rw [(hc.bandwidth h).1] at hstate
    cases hstate
  | idle => exact keeps_idleTick hcfg hbw hretx c hc
  | connected => exact keeps_connectedTick hcfg hretx htable c hc

theorem keeps_pollSocTemp : Keeps cfg intOf f (pollSocTemp cfg i) := by
  refine keeps_of_quiet (fun c => ?_) fun c e he => ?_
  · rw [pollSocTemp_frame]
    rfl
  · rw [pollSocTemp] at he
    split_ifs at he
    · cases he
    · split at he <;> cases he

theorem keeps_overheatUpdate : Keeps cfg intOf f (overheatUpdate cfg) := by
  refine keeps_of_quiet (fun c => ?_) fun c e he => ?_
  · rw [overheatUpdate_frame]
    rfl
  · rw [overheatUpdate] at he
    split at he
    · cases he
    · split_ifs at he
      · cases he
      · rw [List.mem_singleton.mp he]
        rfl
      · rw [List.mem_singleton.mp he]
        rfl
      · cases he

theorem keeps_standbyUpdate : Keeps cfg intOf f (standbyUpdate cfg) := by
  intro c hc
  rw [standbyUpdate]
  dsimp only
  split_ifs
  · exact ⟨trivial, hc.of_settings rfl⟩
  · generalize hc' : ({ c with pendingArmed := none, armed := _, standby := _ } : Ctx) = c'
    have hremembers : Remembers cfg intOf f c' := hc.of_settings (by rw [← hc']; rfl)
    obtain ⟨htold, hafter⟩ := @told_applyPower cfg intOf f _ hremembers.power
    rw [hafter]
    exact ⟨htold, hremembers⟩

end Updates

/-! ### Runs -/

section Runs

variable {cfg : LcConfig} {intOf : ℤ → ℤ}

theorem keeps_drains (hcfg : cfg.hasCfgPath = true) (hint : KeepsInts intOf) (i : TickInput)
    (f : Sidecars) : Keeps cfg intOf f (inTurn (tickDrains cfg i)) := by
  refine Keeps.inTurn fun step hstep g => ?_
  simp only [tickDrains, List.mem_cons, List.not_mem_nil, or_false] at hstep
  rcases hstep with rfl | rfl | rfl | rfl | rfl
  · exact keeps_fallbackPoll
  · exact keeps_drainBandwidthRequest hcfg hint
  · exact keeps_drainRetxRequest hcfg hint
  · exact keeps_drainChannelRequest hcfg i.drainRead
  · exact keeps_drainPowerRequest hcfg

theorem keeps_updates (hcfg : cfg.hasCfgPath = true) {i : TickInput} {f : Sidecars}
    (hbw : i.loadedBandwidth = f.loadedBandwidth intOf)
    (hretx : i.loadedRetx = f.loadedRetx intOf)
    (htable : ∀ r, i.trackRead = some r → r.observed.isRequestable = true) :
    Keeps cfg intOf f (inTurn (tickUpdates cfg i)) := by
  refine (keeps_switchState hcfg hbw hretx htable).cons fun _ _ =>
    Keeps.inTurn fun step hstep g => ?_
  simp only [List.mem_cons, List.not_mem_nil, or_false] at hstep
  rcases hstep with rfl | rfl | rfl
  · exact keeps_pollSocTemp
  · exact keeps_overheatUpdate
  · exact keeps_standbyUpdate

theorem init_remembers (f : Sidecars) (table : List UInt32) :
    Remembers cfg intOf f (lifecycleInit cfg f.saved table) := by
  have hnone : ¬(0 : ℤ) < -1 := by decide
  exact ⟨rfl, rfl, fun h => absurd h hnone, fun h => absurd h hnone, fun _ h => (by cases h),
    fun _ h => (by cases h), fun _ h => (by cases h)⟩

/-- The start reads the files, and tells the power they give. -/
theorem start_remembers (f : Sidecars) (table : List UInt32) :
    Told cfg intOf f (lcStart cfg f.saved table).2 ∧
      f.afterAll (lcStart cfg f.saved table).2 = f ∧
      Remembers cfg intOf f (lcStart cfg f.saved table).1 := by
  have hnone : ¬(0 : ℤ) < -1 := by decide
  have hremembers := @init_remembers cfg intOf f table
  obtain ⟨htold, hafter⟩ := @told_applyPower cfg intOf f _ hremembers.power
  have hstart : ∀ es : List LcEvent,
      es = (lcStart cfg f.saved table).2 → Told cfg intOf f es ∧ f.afterAll es = f := by
    rintro _ rfl
    rw [lcStart]
    dsimp only
    split_ifs
    · exact ⟨trivial, rfl⟩
    · exact ⟨htold, hafter⟩
    · exact ⟨⟨trivial, trivial⟩, rfl⟩
    · exact ⟨⟨trivial, htold⟩, hafter⟩
  obtain ⟨htold', hafter'⟩ := hstart _ rfl
  refine ⟨htold', hafter', ⟨hremembers.channel, hremembers.power, fun h => absurd h hnone,
    fun h => absurd h hnone, fun _ h => (by cases h), fun _ h => (by cases h),
    fun _ h => (by cases h)⟩⟩

/-- One tick of a board. -/
theorem tick_keeps (hcfg : cfg.hasCfgPath = true) (hint : KeepsInts intOf) {b : Board}
    {i : TickInput} (htable : ∀ r, i.trackRead = some r → r.observed.isRequestable = true)
    (hb : Remembers cfg intOf b.files b.ctx) :
    let r := tick cfg (i.reads intOf (b.filesRead cfg i)) b.ctx
    Told cfg intOf b.files r.2 ∧ Remembers cfg intOf (b.files.afterAll r.2) r.1 := by
  intro r
  obtain ⟨htold, hdrained⟩ := keeps_drains hcfg hint i b.files b.ctx hb
  obtain ⟨htold', hlast⟩ := keeps_updates hcfg (i := i.reads intOf (b.filesRead cfg i)) rfl rfl
    htable _ hdrained
  have hr : r = ((inTurn (tickUpdates cfg (i.reads intOf (b.filesRead cfg i)))
        (inTurn (tickDrains cfg i) b.ctx).1).1, (inTurn (tickDrains cfg i) b.ctx).2 ++
      (inTurn (tickUpdates cfg (i.reads intOf (b.filesRead cfg i)))
        (inTurn (tickDrains cfg i) b.ctx).1).2) := inTurn_append _ _
  rw [hr, told_append, Sidecars.afterAll_append]
  exact ⟨⟨htold, htold'⟩, hlast⟩

/-- One action of a board. -/
theorem boardStep_keeps (hcfg : cfg.hasCfgPath = true) (hint : KeepsInts intOf) {b : Board}
    {a : BoardAction} (ha : a.ReadsTable) (hb : Remembers cfg intOf b.files b.ctx) :
    let r := boardStep cfg intOf b a
    Told cfg intOf b.files r.2 ∧ r.1.files = b.files.afterAll r.2 ∧
      Remembers cfg intOf r.1.files r.1.ctx := by
  cases a with
  | restart table =>
    obtain ⟨htold, hafter, hstart⟩ := @start_remembers cfg intOf b.files table
    exact ⟨htold, hafter.symm, hstart⟩
  | act a =>
    cases a with
    | tick i =>
      obtain ⟨htold, hnext⟩ := tick_keeps hcfg hint ha hb
      exact ⟨htold, rfl, hnext⟩
    | bandwidth mhz =>
      refine ⟨trivial, rfl, ?_⟩
      show Remembers cfg intOf b.files (requestBandwidth mhz b.ctx)
      rw [requestBandwidth]
      split_ifs with hmem
      · exact ⟨hb.channel, hb.power, hb.bandwidth, fun _ => hmem, hb.pendingRetx,
          hb.pendingChannel, hb.pendingPower⟩
      · exact hb
    | retx r =>
      refine ⟨trivial, rfl, ?_⟩
      show Remembers cfg intOf b.files (requestRetx r b.ctx)
      rw [requestRetx]
      split_ifs with hvalid
      · exact ⟨hb.channel, hb.power, hb.bandwidth, hb.pendingBandwidth,
          fun _ h => Option.some.inj h ▸ decide_eq_true hvalid, hb.pendingChannel, hb.pendingPower⟩
      · exact hb
    | channel chan =>
      rw [boardStep]
      split_ifs with hok
      · exact ⟨trivial, rfl, hb.channel, hb.power, hb.bandwidth, hb.pendingBandwidth,
          hb.pendingRetx, fun _ h => Option.some.inj h ▸ hok, hb.pendingPower⟩
      · exact ⟨trivial, rfl, hb⟩
    | power level =>
      refine ⟨trivial, rfl, ?_⟩
      show Remembers cfg intOf b.files (requestPower cfg level b.ctx)
      rw [requestPower]
      split_ifs with hvalid
      · exact ⟨hb.channel, hb.power, hb.bandwidth, hb.pendingBandwidth, hb.pendingRetx,
          hb.pendingChannel, fun _ h => Option.some.inj h ▸ hvalid⟩
      · exact hb
    | armed armed => exact ⟨trivial, rfl, hb.of_settings rfl⟩

/-- A run of a board from any state that remembers its files. -/
theorem run_keeps (hcfg : cfg.hasCfgPath = true) (hint : KeepsInts intOf) {b : Board}
    {actions : List BoardAction} (hactions : ∀ a ∈ actions, a.ReadsTable)
    (hb : Remembers cfg intOf b.files b.ctx) :
    let r := Mealy.run (boardStep cfg intOf) b actions
    Told cfg intOf b.files r.2 ∧ r.1.files = b.files.afterAll r.2 ∧
      Remembers cfg intOf r.1.files r.1.ctx := by
  induction actions generalizing b with
  | nil => exact ⟨trivial, rfl, hb⟩
  | cons a actions ih =>
    obtain ⟨htold, hfiles, hnext⟩ := boardStep_keeps hcfg hint (hactions a List.mem_cons_self) hb
    obtain ⟨htold', hfiles', hlast⟩ := ih (fun a' h => hactions a' (List.mem_cons_of_mem _ h)) hnext
    rw [Mealy.run_cons]
    dsimp only
    rw [told_append, Sidecars.afterAll_append, ← hfiles]
    exact ⟨⟨htold, htold'⟩, hfiles', hlast⟩

/-- **The settings survive restarts.** Over every run of ticks, requests and restarts of a board
whose daemon has a configuration path, from any contents of the files: every bandwidth,
retransmission setting and power level the chip is told is the one its files say at that moment,
and the channel and the power the daemon wants are at every time those a restart would read. -/
theorem settings_survive_restarts (hcfg : cfg.hasCfgPath = true) (hint : KeepsInts intOf)
    (files : Sidecars) (table : List UInt32) (actions : List BoardAction)
    (hactions : ∀ a ∈ actions, a.ReadsTable) :
    let r := boardRun cfg intOf files table actions
    Always (fun past e => (files.afterAll past).Tells intOf cfg e) r.2 ∧
      r.1.files = files.afterAll r.2 ∧
      ∀ table', (lcStart cfg r.1.files.saved table').1.channel = r.1.ctx.channel ∧
        (lcStart cfg r.1.files.saved table').1.power = r.1.ctx.power := by
  intro r
  have hreads : ∀ a ∈ BoardAction.restart table :: actions, a.ReadsTable := by
    intro a ha
    rcases List.mem_cons.mp ha with rfl | ha
    · trivial
    · exact hactions a ha
  have hinit : Remembers cfg intOf files (lifecycleInit cfg files.saved table) :=
    init_remembers files table
  obtain ⟨htold, hfiles, hlast⟩ := @run_keeps cfg intOf hcfg hint
    ⟨lifecycleInit cfg files.saved table, files⟩ _ hreads hinit
  exact ⟨htold.always, hfiles, fun _ => ⟨hlast.channel, hlast.power⟩⟩

end Runs

/-- An air unit with a configuration path. -/
def airCfg : LcConfig := { plainCfg .ap with hasCfgPath := true }

/-- No files yet. -/
def noSidecars : Sidecars := ⟨none, none, none, none⟩

/-- A client asks for channel 7 and for 100 mW. -/
def askedFor : List BoardAction :=
  [.act (.channel (.index 7)), .act (.power (.mw 100)), .act (.tick (plainTick 0 .other))]

/-- A restart keeps both. -/
theorem settings_survive_restarts_askedFor :
    let r := boardRun airCfg toInt noSidecars [] askedFor
    (lcStart airCfg r.1.files.saved []).1.channel = .index 7 ∧
      (lcStart airCfg r.1.files.saved []).1.power = .mw 100 := by
  have hreads : ∀ a ∈ askedFor, a.ReadsTable := by
    intro a ha
    simp only [askedFor, List.mem_cons, List.not_mem_nil, or_false] at ha
    rcases ha with rfl | rfl | rfl
    · trivial
    · trivial
    · intro r hr
      cases hr
  obtain ⟨-, -, hsame⟩ := @settings_survive_restarts airCfg toInt rfl
    (fun _ hlo hhi => DecimalText.toInt_of_lt hlo hhi) noSidecars [] askedFor hreads
  obtain ⟨hchannel, hpower⟩ := hsame []
  exact ⟨hchannel.trans (by decide +kernel), hpower.trans (by decide +kernel)⟩

end Ar8030
