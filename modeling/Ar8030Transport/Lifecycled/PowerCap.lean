import Ar8030Transport.Lifecycled.Debounce
import Ar8030Transport.Lifecycled.Standby

/-!
# The power cap of a board

`--max-power` is the highest level a board may use. The default level, a saved one and a
requested one are all checked against it, so what `lc_apply_power` sends for a level is within
the cap (`Capped`). The standby power is in dBm, and is sent as it was given: the cap holds in
every run exactly if the standby power is within it (`power_capped_iff`).
-/

namespace Ar8030

/-! ### What is sent and saved -/

/-- `DEV_TARGET_OFFSET_DBM`. -/
def devTargetOffsetDbm : ℕ := 3

/-- The target of the `BB_SET_POWER` that an event sends. -/
def LcEvent.setPowerDbm? (role : Role) : LcEvent → Option ℕ
  | .setPower l =>
    (powerLevelDbm role l).map fun dbm => if role = .dev then dbm + devTargetOffsetDbm else dbm
  | .setStandbyPower dbm => dbm
  | _ => none

/-- The target of the highest level of the AP within a cap; the table has the highest first. -/
def capDbm (maxMw : ℕ) : Option ℕ := (apPowerLevels.find? fun t => t.1 ≤ maxMw).map Prod.snd

/-- An event keeps to the cap. -/
structure Capped (cfg : LcConfig) (e : LcEvent) : Prop where
  dbm : ∀ dbm, e.setPowerDbm? cfg.role = some dbm →
    ∃ cap, capDbm cfg.maxPower = some cap ∧ dbm ≤ cap
  saved : ∀ l, e = .savePower l → ∃ n, l = .mw n ∧ n ≤ cfg.maxPower

/-- The standby power is off, or within the cap. -/
def StandbyCapped (cfg : LcConfig) : Prop :=
  ∀ dbm, cfg.standbyDbm = some dbm → ∃ cap, capDbm cfg.maxPower = some cap ∧ dbm ≤ cap

/-- The first match in a table with the highest first is the highest. -/
theorem exists_find?_ge {p : ℕ × ℕ → Bool} {l : List (ℕ × ℕ)}
    (hsorted : l.Pairwise fun t u => u.2 ≤ t.2) {t : ℕ × ℕ} (ht : t ∈ l) (hp : p t = true) :
    ∃ u, l.find? p = some u ∧ t.2 ≤ u.2 := by
  induction l with
  | nil => exact absurd ht List.not_mem_nil
  | cons a l ih =>
    obtain ⟨hhead, htail⟩ := List.pairwise_cons.mp hsorted
    by_cases ha : p a = true
    · -- nothing behind the first match is higher
      refine ⟨a, List.find?_cons_of_pos ha, ?_⟩
      rcases List.mem_cons.mp ht with rfl | ht
      · exact le_rfl
      · exact hhead t ht
    · rw [List.find?_cons_of_neg ha]
      rcases List.mem_cons.mp ht with rfl | ht
      · exact absurd hp ha
      · exact ih htail ht

theorem exists_capDbm {maxMw : ℕ} {t : ℕ × ℕ} (ht : t ∈ apPowerLevels) (hle : t.1 ≤ maxMw) :
    ∃ cap, capDbm maxMw = some cap ∧ t.2 ≤ cap := by
  obtain ⟨u, hfind, hu⟩ := exists_find?_ge (p := fun t => t.1 ≤ maxMw)
    (by decide : apPowerLevels.Pairwise fun t u => u.2 ≤ t.2) ht (decide_eq_true hle)
  exact ⟨u.2, by rw [capDbm, hfind]; rfl, hu⟩

/-- A valid level of the AP is one of its table. -/
theorem lcPowerValid_ap {maxMw : ℕ} {l : PowerLevel} (hmax : 0 < maxMw)
    (h : lcPowerValid .ap maxMw l = true) :
    ∃ t ∈ apPowerLevels, l = .mw t.1 ∧ t.1 ≤ maxMw ∧ powerLevelDbm .ap l = some t.2 := by
  obtain ⟨hdbm, hwithin⟩ := Bool.and_eq_true_iff.mp h
  cases l with
  | auto => exact absurd hdbm Bool.false_ne_true
  | none => exact absurd hdbm Bool.false_ne_true
  | mw n =>
    obtain ⟨dbm, hdbm⟩ := Option.isSome_iff_exists.mp hdbm
    obtain ⟨t, hfind, rfl⟩ := Option.map_eq_some_iff.mp hdbm
    have hn : (t.1 == n) = true := List.find?_some (p := fun t : ℕ × ℕ => t.1 == n) hfind
    obtain rfl : t.1 = n := beq_iff_eq.mp hn
    refine ⟨t, List.mem_of_find?_eq_some hfind, rfl, ?_, hdbm⟩
    rcases Bool.or_eq_true_iff.mp hwithin with hzero | hle
    · exact absurd (beq_iff_eq.mp hzero) hmax.ne'
    · exact of_decide_eq_true hle

/-! ### One tick -/

section Tick

variable {cfg : LcConfig}

theorem capped_of_topic {t : Topic} {es : List LcEvent} (h : ∀ e ∈ es, e.topic = t)
    (ht : t ≠ .power) : ∀ e ∈ es, Capped cfg e := by
  intro e he
  have htopic : e.topic ≠ .power := h e he ▸ ht
  cases e <;> first | exact absurd rfl htopic | exact ⟨nofun, nofun⟩

theorem capped_nil : ∀ e ∈ ([] : List LcEvent), Capped cfg e := List.forall_mem_nil _

/-- Functions that keep the levels valid and to the cap do so one after another. -/
theorem inTurn_capped {fs : List (Ctx → Ctx × List LcEvent)}
    (h : ∀ f ∈ fs, ∀ c, ValidPower cfg c →
      ValidPower cfg (f c).1 ∧ ∀ e ∈ (f c).2, Capped cfg e) {c : Ctx} (hc : ValidPower cfg c) :
    ValidPower cfg (inTurn fs c).1 ∧ ∀ e ∈ (inTurn fs c).2, Capped cfg e := by
  induction fs generalizing c with
  | nil => exact ⟨hc, capped_nil⟩
  | cons f fs ih =>
    obtain ⟨hvalid, hevents⟩ := h f List.mem_cons_self c hc
    obtain ⟨hvalid', hevents'⟩ := ih (fun g hg => h g (List.mem_cons_of_mem f hg)) hvalid
    rw [inTurn_cons]
    exact ⟨hvalid', List.forall_mem_append.mpr ⟨hevents, hevents'⟩⟩

theorem ValidPower.congr {c d : Ctx} (h : ValidPower cfg c) (hview : d.powerView = c.powerView) :
    ValidPower cfg d := by
  have hpower : d.power = c.power := congrArg PowerView.power hview
  have hpending : d.pendingPower = c.pendingPower := congrArg PowerView.pendingPower hview
  rwa [ValidPower, hpower, hpending]

variable (hap : cfg.role = .ap) (hmax : 0 < cfg.maxPower) (hstandby : StandbyCapped cfg)

include hap hmax in
theorem setPower_capped {l : PowerLevel} (h : lcPowerValid cfg.role cfg.maxPower l = true) :
    Capped cfg (.setPower l) := by
  rw [hap] at h
  obtain ⟨t, ht, rfl, hle, hdbm⟩ := lcPowerValid_ap hmax h
  refine ⟨fun dbm hsent => ?_, nofun⟩
  rw [LcEvent.setPowerDbm?, hap, hdbm] at hsent
  obtain rfl : t.2 = dbm := Option.some.inj hsent
  exact exists_capDbm ht hle

include hap hmax in
theorem savePower_capped {l : PowerLevel} (h : lcPowerValid cfg.role cfg.maxPower l = true) :
    Capped cfg (.savePower l) := by
  rw [hap] at h
  obtain ⟨t, -, rfl, hle, -⟩ := lcPowerValid_ap hmax h
  refine ⟨nofun, fun l' hl' => ?_⟩
  obtain rfl := LcEvent.savePower.inj hl'
  exact ⟨t.1, rfl, hle⟩

include hap hmax hstandby in
/-- What is sent for a valid level, or in standby. -/
theorem applyPower_capped {c : Ctx} (hvalid : ValidPower cfg c) :
    ∀ e ∈ applyPower cfg c, Capped cfg e := by
  rw [applyPower]
  split_ifs with hmode hnone hsome
  · rw [List.forall_mem_singleton]
    exact ⟨hstandby, fun _ hsaved => by cases hsaved⟩
  · exact capped_nil
  · rw [List.forall_mem_singleton]
    exact setPower_capped hap hmax (hvalid.1.resolve_left hnone)
  · exact capped_nil

include hap hmax hstandby in
theorem drainPowerRequest_capped {c : Ctx} (hvalid : ValidPower cfg c) :
    ValidPower cfg (drainPowerRequest cfg c).1 ∧
      ∀ e ∈ (drainPowerRequest cfg c).2, Capped cfg e := by
  rw [drainPowerRequest]
  rcases hpending : c.pendingPower with _ | level
  · exact ⟨hvalid, capped_nil⟩
  · have hlevel := hvalid.2 level hpending
    have hvalid' : ValidPower cfg { c with pendingPower := none, power := level } :=
      ⟨.inr hlevel, fun _ hnone => absurd hnone.symm (Option.some_ne_none _)⟩
    refine ⟨hvalid', List.forall_mem_append.mpr ⟨?_, ?_⟩⟩
    · split_ifs
      · rw [List.forall_mem_singleton]
        exact savePower_capped hap hmax hlevel
      · exact capped_nil
    · exact applyPower_capped hap hmax hstandby hvalid'

include hap hmax hstandby in
theorem applyLinkTuning_capped (i : TickInput) {c : Ctx} (hvalid : ValidPower cfg c) :
    ∀ e ∈ (applyLinkTuning cfg i c).2, Capped cfg e := by
  obtain ⟨before, after, h, hbefore, hafter⟩ := applyLinkTuning_events cfg i c
  rw [h, List.forall_mem_append, List.forall_mem_append]
  exact ⟨⟨capped_of_topic hbefore (by decide), applyPower_capped hap hmax hstandby hvalid⟩,
    capped_of_topic hafter (by decide)⟩

include hap hmax hstandby in
theorem followConnect_capped (i : TickInput) {c : Ctx} (hvalid : ValidPower cfg c) :
    ∀ e ∈ (followConnect cfg i c).2, Capped cfg e := by
  obtain ⟨slot, before, after, h, hbefore, hafter⟩ := followConnect_events cfg i c
  rw [h, List.forall_mem_cons, List.forall_mem_append, List.forall_mem_append]
  exact ⟨⟨nofun, nofun⟩, ⟨capped_of_topic hbefore (by decide),
    applyPower_capped hap hmax hstandby hvalid⟩, capped_of_topic hafter (by decide)⟩

include hap hmax hstandby in
/-- For a live link only the relink sends power commands. -/
theorem connectedTick_capped (i : TickInput) {c : Ctx} (hvalid : ValidPower cfg c) :
    ∀ e ∈ (connectedTick cfg i c).2, Capped cfg e := by
  rw [connectedTick]
  split_ifs
  · exact capped_nil
  · exact capped_of_topic (t := .link) (by simp [followDrop, LcEvent.topic]) (by decide)
  · have hvalid' : ValidPower cfg { c with dropMissCount := 0 } := hvalid
    refine (inTurn_capped ?_ hvalid').2
    simp only [List.forall_mem_cons]
    refine ⟨fun c hc => ⟨?_, ?_⟩, fun c hc => ⟨?_, ?_⟩, fun c hc => ⟨?_, ?_⟩,
      fun c hc => ⟨?_, ?_⟩, fun c hc => ⟨?_, ?_⟩, List.forall_mem_nil _⟩
    · rw [followRelink_frame]
      exact hc.congr rfl
    · rw [followRelink]
      split_ifs
      · exact applyLinkTuning_capped hap hmax hstandby i (hc.congr rfl)
      · exact capped_nil
    · rw [dueChannelCheck_frame]
      exact hc.congr rfl
    · exact capped_of_topic (dueChannelCheck_topic cfg i c) (by decide)
    · rw [recheckBandwidth_frame]
      exact hc.congr rfl
    · exact capped_of_topic (recheckBandwidth_topic cfg i c) (by decide)
    · rw [retryFrameChange_frame]
      exact hc.congr rfl
    · exact capped_of_topic (retryFrameChange_topic i c) (by decide)
    · rw [dueChannelTrack_frame]
      exact hc.congr rfl
    · exact capped_of_topic (dueChannelTrack_topic cfg i c) (by decide)

include hap hmax hstandby in
theorem switchState_capped (i : TickInput) {c : Ctx} (hvalid : ValidPower cfg c) :
    ValidPower cfg (switchState cfg i c).1 ∧ ∀ e ∈ (switchState cfg i c).2, Capped cfg e := by
  refine ⟨hvalid.congr (switchState_powerView cfg i c), ?_⟩
  rw [switchState]
  split
  · exact capped_nil
  · rw [idleTick]
    split_ifs
    · exact capped_nil
    · exact followConnect_capped hap hmax hstandby i hvalid
    · exact capped_nil
    · exact capped_of_topic (t := .link) (by simp [LcEvent.topic]) (by decide)
  · exact connectedTick_capped hap hmax hstandby i hvalid

include hap hmax hstandby in
theorem standbyUpdate_capped {c : Ctx} (hvalid : ValidPower cfg c) :
    ValidPower cfg (standbyUpdate cfg c).1 ∧ ∀ e ∈ (standbyUpdate cfg c).2, Capped cfg e := by
  constructor
  · rw [standbyUpdate_frame]
    exact hvalid
  · rw [standbyUpdate]
    dsimp only
    split_ifs
    · exact capped_nil
    · exact applyPower_capped hap hmax hstandby hvalid

include hap hmax hstandby in
/-- A tick keeps to the cap. -/
theorem tick_capped (i : TickInput) {c : Ctx} (hvalid : ValidPower cfg c) :
    ∀ e ∈ (tick cfg i c).2, Capped cfg e := by
  refine (inTurn_capped ?_ hvalid).2
  simp only [tickDrains, tickUpdates, List.cons_append, List.nil_append, List.forall_mem_cons]
  refine ⟨fun c hc => ⟨?_, ?_⟩, fun c hc => ⟨?_, ?_⟩, fun c hc => ⟨?_, ?_⟩,
    fun c hc => ⟨?_, ?_⟩, fun c hc => drainPowerRequest_capped hap hmax hstandby hc,
    fun c hc => switchState_capped hap hmax hstandby i hc, fun c hc => ⟨?_, ?_⟩,
    fun c hc => ⟨?_, ?_⟩, fun c hc => standbyUpdate_capped hap hmax hstandby hc,
    List.forall_mem_nil _⟩
  · rw [fallbackPoll_frame]
    exact hc.congr rfl
  · rw [fallbackPoll]
    split_ifs <;> exact capped_nil
  · rw [drainBandwidthRequest_frame]
    exact hc.congr rfl
  · exact capped_of_topic (drainBandwidthRequest_topic cfg c) (by decide)
  · rw [drainRetxRequest_frame]
    exact hc.congr rfl
  · exact capped_of_topic (drainRetxRequest_topic cfg c) (by decide)
  · rw [drainChannelRequest_frame]
    exact hc.congr rfl
  · exact capped_of_topic (drainChannelRequest_topic cfg c _) (by decide)
  · rw [pollSocTemp_frame]
    exact hc
  · rw [pollSocTemp]
    split_ifs
    · exact capped_nil
    · split <;> exact capped_nil
  · rw [overheatUpdate_frame]
    exact hc
  · exact capped_of_topic (overheatUpdate_topic cfg c) (by decide)

/-! ### Runs -/

include hap hmax hstandby in
/-- Every run keeps to the cap. -/
theorem lcRun_capped (saved : Saved) (table : List UInt32) (actions : List LcAction) :
    ∀ e ∈ (lcRun cfg saved table actions).2, Capped cfg e := by
  induction actions using List.reverseRecOn with
  | nil =>
    have hvalid : ValidPower cfg (lifecycleInit cfg saved table) :=
      ⟨initPower_valid cfg saved, nofun⟩
    rw [lcRun, Mealy.run_nil, List.append_nil, lcStart, List.forall_mem_append]
    constructor
    · split_ifs
      · exact capped_nil
      · exact capped_of_topic (t := .channel) (by simp [LcEvent.topic]) (by decide)
    · split_ifs
      · exact capped_nil
      · exact applyPower_capped hap hmax hstandby hvalid
  | append_singleton actions a ih =>
    rw [lcRun_concat, List.forall_mem_append]
    refine ⟨ih, ?_⟩
    by_cases ha : ∃ i, a = .tick i
    · obtain ⟨i, rfl⟩ := ha
      exact tick_capped hap hmax hstandby i (lcRun_validPower saved table actions)
    · rw [lcStep_silent cfg fun i h => ha ⟨i, h⟩]
      exact capped_nil

end Tick

/-! ### Into standby -/

/-- An AP that is disarmed, and has been told of a link this many times. -/
structure Waiting (n : ℕ) (c : Ctx) : Prop where
  state : c.state = .idle
  connectConfirmCount : c.connectConfirmCount = n
  standby : c.standby = false
  disarmed : c.pendingArmed.getD c.armed = false

section Standby

variable {cfg : LcConfig} {dbm n : ℕ} (hap : cfg.role = .ap) (hdbm : cfg.standbyDbm = some dbm)

/-- The part of a tick in front of the low-power mode leaves the mode and the arm state alone, and
the mode leaves the link alone. -/
theorem Waiting.view {c : Ctx} (h : Waiting n c) (i : TickInput) :
    (inTurn (beforeStandby cfg i) c).1.standby = false ∧
      (inTurn (beforeStandby cfg i) c).1.pendingArmed.getD
        (inTurn (beforeStandby cfg i) c).1.armed = false ∧
      (inTurn (beforeStandby cfg i) c).1.state = (tick cfg i c).1.state := by
  obtain ⟨hstandby, harmed, hpending, -⟩ := beforeStandby_view cfg i c
  refine ⟨hstandby.trans h.standby, ?_, ?_⟩
  · rw [hpending, harmed, h.disarmed]
  · rw [tick_eq, standbyUpdate_frame]

theorem wantStandby_disarmed {c : Ctx} (h : c.armed = false) :
    wantStandby c = if c.state = .connected then true else c.standby := by
  rw [wantStandby, h]
  exact if_neg Bool.false_ne_true

/-- The link state after a tick that is told of a link. -/
theorem Waiting.link {c : Ctx} (h : Waiting n c) :
    (tick cfg linkedTick c).1.link = if n + 1 < lcConnectConfirmTicks then
      { c.link with connectConfirmCount := n + 1 } else ⟨.connected, 0, 0, c.dropMissCount⟩ := by
  have hstate : c.link.state = .idle := h.state
  have hcount : c.link.connectConfirmCount = n := h.connectConfirmCount
  have hreading : linkedTick.reading = some .connect := rfl
  have hlink : (tick cfg linkedTick c).1.link = (c.link.step linkedTick).1 :=
    congrArg Prod.fst (tick_link cfg linkedTick c)
  rw [hlink, LinkView.step_idle hstate, if_pos hreading, hcount]
  split_ifs <;> rfl

/-- As long as the link is not confirmed it stays out of the mode. -/
theorem Waiting.next {c : Ctx} (h : Waiting n c) (hn : n + 1 < lcConnectConfirmTicks) :
    Waiting (n + 1) (tick cfg linkedTick c).1 := by
  obtain ⟨hstandby, hdisarmed, hstate⟩ := @h.view cfg _ _ linkedTick
  have htick : (tick cfg linkedTick c).1 =
      (standbyUpdate cfg (inTurn (beforeStandby cfg linkedTick) c).1).1 := by
    rw [tick_eq]
  have hlink := @h.link cfg
  rw [if_pos hn] at hlink
  have hidle : (tick cfg linkedTick c).1.state = .idle :=
    (congrArg LinkView.state hlink).trans h.state
  have hcount : (tick cfg linkedTick c).1.connectConfirmCount = n + 1 :=
    congrArg LinkView.connectConfirmCount hlink
  generalize (inTurn (beforeStandby cfg linkedTick) c).1 = d at hstandby hdisarmed hstate htick
  have hwant : wantStandby { d with
      pendingArmed := none, armed := d.pendingArmed.getD d.armed } = d.standby := by
    rw [wantStandby_disarmed hdisarmed, if_neg]
    rw [hstate, hidle]
    exact nofun
  have hupdate : standbyUpdate cfg d =
      ({ d with pendingArmed := none, armed := d.pendingArmed.getD d.armed }, []) :=
    if_pos (.inr (.inr hwant))
  rw [hupdate] at htick
  refine ⟨hidle, hcount, ?_, ?_⟩
  · rw [htick]
    exact hstandby
  · rw [htick]
    exact hdisarmed

include hap hdbm in
/-- With the link it goes into the mode. -/
theorem Waiting.enters {c : Ctx} (h : Waiting n c) (hn : lcConnectConfirmTicks ≤ n + 1) :
    .setStandbyPower (some dbm) ∈ (tick cfg linkedTick c).2 := by
  obtain ⟨hstandby, hdisarmed, hstate⟩ := @h.view cfg _ _ linkedTick
  have hlink := @h.link cfg
  rw [if_neg (Nat.not_lt.mpr hn)] at hlink
  have hconnected : (tick cfg linkedTick c).1.state = .connected := congrArg LinkView.state hlink
  rw [tick_eq]
  refine List.mem_append_right _ ?_
  generalize (inTurn (beforeStandby cfg linkedTick) c).1 = d at hstandby hdisarmed hstate
  have hwant : wantStandby { d with
      pendingArmed := none, armed := d.pendingArmed.getD d.armed } = true := by
    rw [wantStandby_disarmed hdisarmed, if_pos]
    rw [hstate, hconnected]
  rw [standbyUpdate_eq hap hdbm]
  dsimp only
  rw [hwant, hstandby, if_neg Bool.true_eq_false.mp, applyPower, if_pos rfl, hdbm]
  exact List.mem_singleton_self _

theorem Waiting.run {saved : Saved} {table : List UInt32} {actions : List LcAction}
    (h : Waiting n (lcRun cfg saved table actions).1) (hn : n + 1 < lcConnectConfirmTicks) :
    Waiting (n + 1) (lcRun cfg saved table (actions ++ [.tick linkedTick])).1 := by
  rw [lcRun_concat, lcStep]
  dsimp only
  exact @Waiting.next cfg _ _ h hn

/-- Disarmed, and then connected. -/
def disarmedConnect : List LcAction :=
  [.armed false] ++ [.tick linkedTick] ++ [.tick linkedTick] ++ [.tick linkedTick]

include hap hdbm in
theorem lcRun_disarmedConnect (saved : Saved) (table : List UInt32) :
    .setStandbyPower (some dbm) ∈ (lcRun cfg saved table disarmedConnect).2 := by
  have hstart : Waiting 0 (lcRun cfg saved table [.armed false]).1 := ⟨rfl, rfl, rfl, rfl⟩
  have hlast := (hstart.run (by decide)).run (by decide)
  rw [disarmedConnect, lcRun_concat, lcStep]
  exact List.mem_append_right _ (hlast.enters hap hdbm (by decide))

end Standby

/-- **The power cap.** On an AP with a cap every run keeps to it, exactly if the standby power is
off or within the cap. -/
theorem power_capped_iff {cfg : LcConfig} (hap : cfg.role = .ap) (hmax : 0 < cfg.maxPower) :
    (∀ saved table actions, ∀ e ∈ (lcRun cfg saved table actions).2, Capped cfg e) ↔
      StandbyCapped cfg := by
  constructor
  · intro h dbm hdbm
    have hsent := h ⟨none, none⟩ [] disarmedConnect _
      (lcRun_disarmedConnect hap hdbm ⟨none, none⟩ [])
    exact hsent.dbm dbm rfl
  · intro hstandby saved table actions
    exact lcRun_capped hap hmax hstandby saved table actions

/-- An AP with this cap and this standby power. -/
def cappedCfg (maxPower dbm : ℕ)
    (hok : maxPower = 0 ∨ lcPowerDefault .ap maxPower ≠ .auto) : LcConfig :=
  { plainCfg .ap with maxPower := maxPower, standbyDbm := some dbm, maxPower_ok := hok }

/-- A standby power of 10 dBm is within a cap of 200 mW. -/
theorem power_capped_iff_stock :
    StandbyCapped (cappedCfg 200 10 (by decide)) ∧
      ((∀ saved table actions,
          ∀ e ∈ (lcRun (cappedCfg 200 10 (by decide)) saved table actions).2,
            Capped (cappedCfg 200 10 (by decide)) e) ↔
        StandbyCapped (cappedCfg 200 10 (by decide))) := by
  refine ⟨fun dbm hdbm => ?_, power_capped_iff rfl (by decide)⟩
  obtain rfl : 10 = dbm := Option.some.inj hdbm
  exact ⟨22, rfl, by decide⟩

/-- A standby power of 30 dBm is sent where the cap allows 13. -/
theorem standby_above_cap :
    .setStandbyPower (some 30) ∈
        (lcRun (cappedCfg 25 30 (by decide)) ⟨none, none⟩ [] disarmedConnect).2 ∧
      ¬ Capped (cappedCfg 25 30 (by decide)) (.setStandbyPower (some 30)) := by
  refine ⟨lcRun_disarmedConnect rfl rfl ⟨none, none⟩ [], fun h => ?_⟩
  obtain ⟨cap, hcap, hle⟩ := h.dbm 30 rfl
  obtain rfl : 13 = cap := Option.some.inj hcap
  exact absurd hle (by decide)

end Ar8030
