import Ar8030Transport.Library.Trace
import Ar8030Transport.Lifecycled.Daemon

/-!
# The channel check of a connection

After a connect or a relink the AP compares the link with the wanted channel and pushes it, at
most `LC_CHAN_PUSHES` times for each connection. Where the chip believes it is on the channel
already, the push goes to the nearest other channel first, a detour. `lc_channel_track` takes
over a channel the peer has moved to, once the chip was seen on the wanted one.

`spentOn` and `peerMove` say from the state before a tick and what it reads whether the check
uses up a push and whether the peer's channel is taken over; `tick_channel` is what a tick then
does. Over a connection the number of pushes is bounded (`Budget`), but neither is the last push
always the wanted channel nor does the AP always tell its own detour from a move of the peer.
`Undisturbed` is what the chip must report at a tick for both, and exactly that.
-/

namespace Ar8030

open Trace

/-! ### The detour -/

/-- The loop of `lc_channel_neighbour` finds one of the entries it has looked at, and finds one
unless the channel's own is the only one. -/
theorem foldl_nearer (table : List UInt32) (chan : ℕ) (is : List ℕ) :
    (∀ p, is.foldl (nearer table chan) none = some p → p.1 ∈ is ∧ p.1 ≠ chan) ∧
      (is.foldl (nearer table chan) none = none → ∀ i ∈ is, i = chan) := by
  induction is using List.reverseRecOn with
  | nil => simp
  | append_singleton is i ih =>
    rw [List.foldl_append, List.foldl_cons, List.foldl_nil]
    generalize is.foldl (nearer table chan) none = best at ih
    obtain ⟨hsome, hnone⟩ := ih
    rw [nearer]
    by_cases hi : i = chan
    · rw [if_pos hi]
      refine ⟨fun p hp => ?_, fun hbest j hj => ?_⟩
      · exact ⟨List.mem_append_left _ (hsome p hp).1, (hsome p hp).2⟩
      · rcases List.mem_append.mp hj with hj | hj
        · exact hnone hbest j hj
        · rw [List.mem_singleton.mp hj, hi]
    · rw [if_neg hi]
      cases best with
      | none => simp [hi]
      | some q =>
        have hq := hsome q rfl
        dsimp only
        split_ifs <;> simp [hi, hq]

/-- The neighbour of a channel is another entry of the table. -/
theorem lcChannelNeighbour_some {table : List UInt32} {chan n : ℕ}
    (h : lcChannelNeighbour table chan = some n) : n < table.length ∧ n ≠ chan := by
  rw [lcChannelNeighbour, Option.map_eq_some_iff] at h
  obtain ⟨p, hp, rfl⟩ := h
  simpa using (foldl_nearer table chan _).1 p hp

/-- A channel of the table has no neighbour exactly if it is the only one. -/
theorem lcChannelNeighbour_eq_none_iff {table : List UInt32} {chan : ℕ}
    (hchan : chan < table.length) :
    lcChannelNeighbour table chan = none ↔ table.length ≤ 1 := by
  constructor
  · intro h
    have hall := (foldl_nearer table chan _).2 (by simpa [lcChannelNeighbour] using h)
    by_contra hlen
    -- then one of the first two entries is another one
    have h0 := hall 0 (List.mem_range.mpr (by omega))
    have h1 := hall 1 (List.mem_range.mpr (by omega))
    omega
  · intro hlen
    cases h : lcChannelNeighbour table chan with
    | none => rfl
    | some n =>
      obtain ⟨hn, hne⟩ := lcChannelNeighbour_some h
      omega

/-- A push goes to the wanted channel exactly if the chip is not on it. -/
theorem pushTarget_eq_channel_iff {c : Ctx} {r : ChanReading} {target : Channel}
    (h : pushTarget c r = some target) :
    target = c.channel ↔ lcChannelMatches c.channel r = false := by
  rw [pushTarget] at h
  split_ifs at h with hmatch
  · refine iff_of_false ?_ (by simp [hmatch])
    split at h
    · next n hn =>
      obtain ⟨m, hm, rfl⟩ := Option.map_eq_some_iff.mp h
      rw [hn]
      simpa using (lcChannelNeighbour_some hm).2
    · simp at h
  · exact iff_of_true (Option.some.inj h).symm (by simpa using hmatch)

/-! ### What a tick does to the channel -/

/-- When the next check is due, after a relink the tick may find. -/
def checkAt (i : TickInput) (c : Ctx) : ℕ :=
  if i.connectGen ≠ c.connectGen then i.linkTime + lcChanCheckDelayS else c.chanCheckAt

/-- The link is off the wanted channel, as far as the reading tells. -/
def offChannel (i : TickInput) (c : Ctx) (r : ChanReading) : Bool :=
  !(decide (0 < r.chanNum) && c.channel.isOutside r.chanNum) &&
    !(lcChannelMatches c.channel r && linkOk i c)

/-- The reading the tick's check uses up a push on, if it does. -/
def spentOn (cfg : LcConfig) (i : TickInput) (c : Ctx) : Option ChanReading :=
  if i.reading ≠ some .other ∧ (checkAt i c ≠ 0 ∧ checkAt i c ≤ i.now) ∧
      (cfg.role = .ap ∧ c.channel ≠ .none) ∧ 0 < c.chanPushesLeft then
    i.checkRead.filter (offChannel i c)
  else none

/-- The channel of the peer the tick takes over, if it does: the chip has settled on the wanted
channel before, and is found on another one. -/
def peerMove (cfg : LcConfig) (i : TickInput) (c : Ctx) : Option Channel :=
  if i.reading ≠ some .other ∧ c.lastFallbackPoll + lcPollFallbackS ≤ i.now ∧
      c.channel ≠ .none ∧ c.chanSettled = true ∧ spentOn cfg i c = none then
    (i.trackRead.map ChanReading.observed).filter (· ≠ c.channel)
  else none

/-- The channels pushed. -/
def LcEvent.pushed? : LcEvent → Option Channel
  | .setChanLinked _ chan => some chan
  | _ => none

/-- The channels saved. -/
def LcEvent.savedChannel? : LcEvent → Option Channel
  | .saveChannel chan => some chan
  | _ => none

/-- What is about the channel. -/
def LcEvent.ofChannel? (e : LcEvent) : Option LcEvent :=
  if e.topic = .channel then some e else none

theorem filterMap_ofChannel? {β : Type*} {view : LcEvent → Option β}
    (hview : ∀ e, e.topic ≠ .channel → view e = none) (es : List LcEvent) :
    (es.filterMap LcEvent.ofChannel?).filterMap view = es.filterMap view := by
  rw [List.filterMap_filterMap]
  congr 1
  funext e
  rw [LcEvent.ofChannel?]
  split_ifs with h
  · rfl
  · exact (hview e h).symm

theorem pushed?_eq_none (e : LcEvent) (h : e.topic ≠ .channel) : e.pushed? = none := by
  cases e <;> first | rfl | exact absurd rfl h

theorem savedChannel?_eq_none (e : LcEvent) (h : e.topic ≠ .channel) : e.savedChannel? = none := by
  cases e <;> first | rfl | exact absurd rfl h

theorem filterMap_ofChannel?_eq_nil {es : List LcEvent} {t : Topic} (h : ∀ e ∈ es, e.topic = t)
    (ht : t ≠ .channel) : es.filterMap LcEvent.ofChannel? = [] :=
  filterMap_eq_nil_of_topic (fun _ he => if_neg he) fun e he => h e he ▸ ht

theorem filterMap_ofChannel?_eq_self {es : List LcEvent} (h : ∀ e ∈ es, e.topic = .channel) :
    es.filterMap LcEvent.ofChannel? = es := by
  induction es with
  | nil => rfl
  | cons e es ih =>
    have he : e.ofChannel? = some e := if_pos (h e (by simp))
    rw [List.filterMap_cons_some he, ih fun x hx => h x (by simp [hx])]

section Tick

variable (cfg : LcConfig) (i : TickInput) (c : Ctx)

/-- What a function did to the channel, if it used up a push on the reading `spent`. -/
structure ChecksWith (spent : Option ChanReading) (r : Ctx × List LcEvent) : Prop where
  left : r.1.chanPushesLeft = c.chanPushesLeft - spent.toList.length
  settled : r.1.chanSettled = (c.chanSettled && spent.isNone)
  pushed : r.2.filterMap LcEvent.pushed? = (spent.bind (pushTarget c)).toList
  saved : r.2.filterMap LcEvent.savedChannel? = []

theorem checksWith_none {d : Ctx} (hleft : d.chanPushesLeft = c.chanPushesLeft)
    (hsettled : d.chanSettled = c.chanSettled) : ChecksWith c none (d, []) :=
  ⟨hleft, by simpa using hsettled, rfl, rfl⟩

/-- The check uses up a push exactly if it applies and finds the link off the channel with a
push left. -/
theorem channelCheckLink_spec :
    ChecksWith c
      (if (cfg.role = .ap ∧ c.channel ≠ .none) ∧ 0 < c.chanPushesLeft then
        i.checkRead.filter (offChannel i c) else none)
      (channelCheckLink cfg i c) := by
  rw [channelCheckLink]
  dsimp only
  by_cases hskip : cfg.role ≠ .ap ∨ c.channel = .none
  · rw [if_pos hskip, if_neg fun h => hskip.elim (fun h' => h' h.1.1) h.1.2]
    exact checksWith_none c rfl rfl
  · have hap : cfg.role = .ap ∧ c.channel ≠ .none := by simpa [not_or] using hskip
    rw [if_neg hskip]
    cases i.checkRead with
    | none =>
      rw [Option.filter_none, ite_self]
      exact checksWith_none c rfl rfl
    | some r =>
      dsimp only
      by_cases houtside : 0 < r.chanNum ∧ c.channel.isOutside r.chanNum = true
      · have hoff : offChannel i c r = false := by simp [offChannel, houtside]
        rw [if_pos houtside, Option.filter_some_neg hoff, ite_self]
        exact checksWith_none c rfl rfl
      · have hlink : linkOk i { c with chanCheckAt := 0 } = linkOk i c := rfl
        rw [if_neg houtside, hlink]
        by_cases hok : (lcChannelMatches c.channel r && linkOk i c) = true
        · have hoff : offChannel i c r = false := by simp [offChannel, hok]
          rw [if_pos hok, Option.filter_some_neg hoff, ite_self]
          exact checksWith_none c rfl rfl
        · have hoff : offChannel i c r = true := by
            rw [offChannel, Bool.and_eq_true, Bool.not_eq_true', Bool.not_eq_true']
            exact ⟨by simpa using houtside, by simpa using hok⟩
          rw [if_neg hok, Option.filter_some_pos hoff]
          by_cases hleft : c.chanPushesLeft = 0
          · rw [if_pos hleft, if_neg (by simp [hleft])]
            exact ⟨rfl, by simp, rfl, rfl⟩
          · have htarget' : pushTarget { c with
                chanCheckAt := 0
                chanPushesLeft := c.chanPushesLeft - 1
                chanSettled := false } r = pushTarget c r := rfl
            rw [if_neg hleft, if_pos ⟨hap, Nat.pos_of_ne_zero hleft⟩, htarget']
            cases htarget : pushTarget c r with
            | none => exact ⟨rfl, by simp, by simp [htarget], rfl⟩
            | some target => exact ⟨rfl, by simp, by simp [htarget, LcEvent.pushed?], rfl⟩

/-- Without an answer of the chip, or on the wanted channel, nothing is taken over. -/
theorem dueChannelTrack_spec :
    let moved := if c.didFallbackPoll = true ∧ c.channel ≠ .none ∧ c.chanSettled = true then
      (i.trackRead.map ChanReading.observed).filter (· ≠ c.channel) else none
    (dueChannelTrack cfg i c).1.channel = moved.getD c.channel ∧
      (dueChannelTrack cfg i c).1.chanPushesLeft = c.chanPushesLeft ∧
      (dueChannelTrack cfg i c).2.filterMap LcEvent.pushed? = [] ∧
      (dueChannelTrack cfg i c).2.filterMap LcEvent.savedChannel? =
        if cfg.hasCfgPath then moved.toList else [] := by
  dsimp only
  rw [dueChannelTrack]
  by_cases hpoll : c.didFallbackPoll = true
  · rw [if_pos hpoll, channelTrack]
    cases i.trackRead with
    | none => simp
    | some r =>
      dsimp only
      by_cases hnone : c.channel = .none
      · simp [hnone]
      · rw [if_neg hnone]
        by_cases hmatch : lcChannelMatches c.channel r = true
        · have hsame : (some r.observed).filter (· ≠ c.channel) = none := by
            simp [lcChannelMatches_iff.mp hmatch]
          rw [if_pos hmatch, Option.map_some, hsame, ite_self]
          simp
        · have hne : r.observed ≠ c.channel := fun h => hmatch (lcChannelMatches_iff.mpr h.symm)
          rw [if_neg hmatch]
          by_cases hsettled : c.chanSettled = true
          · have hmoved : (some r.observed).filter (· ≠ c.channel) = some r.observed :=
              Option.filter_some_pos (by simpa using hne)
            have hadopts : c.didFallbackPoll = true ∧ c.channel ≠ .none ∧ c.chanSettled = true :=
              ⟨hpoll, hnone, hsettled⟩
            rw [if_neg (by simp [hsettled]), if_pos hadopts, Option.map_some, hmoved]
            refine ⟨rfl, rfl, ?_, ?_⟩
            · split_ifs <;> rfl
            · split_ifs <;> rfl
          · rw [if_pos (by simpa using hsettled), if_neg fun h => hsettled h.2.2]
            simp
  · rw [if_neg hpoll, if_neg fun h => hpoll h.1]
    simp

/-- The part of the context the channel check and the tracking depend on. -/
structure ChanView where
  state : LcState
  pendingChannel : Option Channel
  channel : Channel
  chanSettled : Bool
  chanCheckAt : ℕ
  chanPushesLeft : ℕ
  chanTable : List UInt32
  connectGen : UInt32
  didFallbackPoll : Bool
  deriving DecidableEq, Repr

def Ctx.chanView (c : Ctx) : ChanView :=
  ⟨c.state, c.pendingChannel, c.channel, c.chanSettled, c.chanCheckAt, c.chanPushesLeft,
    c.chanTable, c.connectGen, c.didFallbackPoll⟩

/-- Without a request the mailboxes have nothing for the channel. -/
theorem tickDrains_channel (hreq : c.pendingChannel = none) :
    (inTurn (tickDrains cfg i) c).1.chanView =
        { c.chanView with
          didFallbackPoll := decide (c.lastFallbackPoll + lcPollFallbackS ≤ i.now) } ∧
      (inTurn (tickDrains cfg i) c).2.filterMap LcEvent.ofChannel? = [] := by
  have hpoll : (fallbackPoll i c).1.chanView =
      { c.chanView with
        didFallbackPoll := decide (c.lastFallbackPoll + lcPollFallbackS ≤ i.now) } ∧
      (fallbackPoll i c).2 = [] := by
    rw [fallbackPoll]
    split_ifs with h
    · simp [Ctx.chanView, h]
    · simp [Ctx.chanView, h]
  have hrest : ∀ f ∈ [drainBandwidthRequest cfg, drainRetxRequest cfg,
      drainChannelRequest cfg i.drainRead, drainPowerRequest cfg], ∀ c,
        c.chanView.pendingChannel = none →
          (f c).1.chanView = c.chanView ∧ (f c).2.filterMap LcEvent.ofChannel? = [] := by
    simp only [List.forall_mem_cons]
    refine ⟨fun c _ => ⟨?_, ?_⟩, fun c _ => ⟨?_, ?_⟩, fun c hc => ?_, fun c _ => ⟨?_, ?_⟩,
      by simp⟩
    · rw [drainBandwidthRequest_frame]; rfl
    · exact filterMap_ofChannel?_eq_nil (drainBandwidthRequest_topic cfg c) (by decide)
    · rw [drainRetxRequest_frame]; rfl
    · exact filterMap_ofChannel?_eq_nil (drainRetxRequest_topic cfg c) (by decide)
    · have hc : c.pendingChannel = none := hc
      rw [drainChannelRequest, hc]
      exact ⟨rfl, rfl⟩
    · rw [drainPowerRequest_frame]; rfl
    · exact filterMap_ofChannel?_eq_nil (drainPowerRequest_topic cfg c) (by decide)
  have hview := inTurn_frame Ctx.chanView LcEvent.ofChannel? (fun v => v.pendingChannel = none)
    hrest (fallbackPoll i c).1 (by rw [hpoll.1]; exact hreq)
  rw [tickDrains, inTurn_cons, hpoll.2, List.nil_append]
  exact ⟨hview.1.trans hpoll.1, hview.2⟩

/-- The check writes none of these. -/
theorem dueChannelCheck_keeps :
    (dueChannelCheck cfg i c).1.channel = c.channel ∧
      (dueChannelCheck cfg i c).1.pendingChannel = c.pendingChannel ∧
      (dueChannelCheck cfg i c).1.didFallbackPoll = c.didFallbackPoll := by
  refine ⟨?_, ?_, ?_⟩ <;> rw [dueChannelCheck_frame]

theorem followRelink_channel :
    (followRelink cfg i c).1.chanView =
        { c.chanView with chanCheckAt := checkAt i c, connectGen := i.connectGen } ∧
      (followRelink cfg i c).2.filterMap LcEvent.ofChannel? = [] := by
  rw [followRelink, checkAt]
  by_cases hgen : i.connectGen ≠ c.connectGen
  · obtain ⟨before, after, h, hbefore, hafter⟩ :=
      applyLinkTuning_events cfg i { c with connectGen := i.connectGen }
    rw [if_pos hgen, if_pos hgen]
    refine ⟨rfl, ?_⟩
    dsimp only
    rw [h, List.filterMap_append, List.filterMap_append,
      filterMap_ofChannel?_eq_nil hbefore (by decide),
      filterMap_ofChannel?_eq_nil (applyPower_topic cfg _) (by decide),
      filterMap_ofChannel?_eq_nil hafter (by decide)]
    rfl
  · rw [if_neg hgen, if_neg hgen, not_not.mp hgen]
    exact ⟨rfl, rfl⟩

/-- A live link is checked and tracked, on the channel data of the context. -/
theorem connectedTick_channel (hlive : i.reading ≠ some .other) :
    ∃ d e, d.chanView = { c.chanView with chanCheckAt := checkAt i c, connectGen := i.connectGen } ∧
      e.chanView = (dueChannelCheck cfg i d).1.chanView ∧
      (connectedTick cfg i c).1 = (dueChannelTrack cfg i e).1 ∧
      (connectedTick cfg i c).2.filterMap LcEvent.ofChannel? =
        (dueChannelCheck cfg i d).2 ++ (dueChannelTrack cfg i e).2 := by
  rw [connectedTick, if_neg hlive, inTurn_cons, inTurn_cons, inTurn_cons, inTurn_cons, inTurn_cons,
    inTurn_nil]
  refine ⟨_, _, (followRelink_channel cfg i { c with dropMissCount := 0 }).1, ?_, rfl, ?_⟩
  · rw [retryFrameChange_frame, recheckBandwidth_frame]
    rfl
  · simp only [List.filterMap_append]
    rw [(followRelink_channel cfg i _).2,
      filterMap_ofChannel?_eq_self (dueChannelCheck_topic cfg i _),
      filterMap_ofChannel?_eq_nil (recheckBandwidth_topic cfg i _) (by decide),
      filterMap_ofChannel?_eq_nil (retryFrameChange_topic i _) (by decide),
      filterMap_ofChannel?_eq_self (dueChannelTrack_topic cfg i _)]
    simp

/-- After the switch on the state a tick leaves the channel alone. -/
theorem afterSwitch_channel :
    (inTurn [pollSocTemp cfg i, overheatUpdate cfg, standbyUpdate cfg] c).1.chanView = c.chanView ∧
      (inTurn [pollSocTemp cfg i, overheatUpdate cfg, standbyUpdate cfg] c).2.filterMap
        LcEvent.ofChannel? = [] := by
  refine inTurn_frame Ctx.chanView LcEvent.ofChannel? (fun _ => True) ?_ c trivial
  simp only [List.forall_mem_cons]
  refine ⟨fun c _ => ⟨?_, ?_⟩, fun c _ => ⟨?_, ?_⟩, fun c _ => ⟨?_, ?_⟩, by simp⟩
  · rw [pollSocTemp_frame]; rfl
  · rw [pollSocTemp]
    split_ifs
    · rfl
    · split <;> rfl
  · rw [overheatUpdate_frame]; rfl
  · exact filterMap_ofChannel?_eq_nil (overheatUpdate_topic cfg c) (by decide)
  · rw [standbyUpdate_frame]; rfl
  · exact filterMap_ofChannel?_eq_nil (standbyUpdate_topic cfg c) (by decide)

/-- The check, on the channel data of the tick. -/
theorem dueChannelCheck_spec {d : Ctx} (hlive : i.reading ≠ some .other)
    (hchannel : d.channel = c.channel) (htable : d.chanTable = c.chanTable)
    (hleft : d.chanPushesLeft = c.chanPushesLeft) (hat : d.chanCheckAt = checkAt i c) :
    ChecksWith d (spentOn cfg i c) (dueChannelCheck cfg i d) := by
  have hoff : offChannel i c = offChannel i d := by
    funext r
    simp only [offChannel, linkOk, wantKhz, hchannel, htable]
  rw [spentOn, hoff, ← hat, ← hchannel, ← hleft, dueChannelCheck]
  by_cases hdue : d.chanCheckAt ≠ 0 ∧ d.chanCheckAt ≤ i.now
  · have hcond : (i.reading ≠ some .other ∧ (d.chanCheckAt ≠ 0 ∧ d.chanCheckAt ≤ i.now) ∧
        (cfg.role = .ap ∧ d.channel ≠ .none) ∧ 0 < d.chanPushesLeft) =
          ((cfg.role = .ap ∧ d.channel ≠ .none) ∧ 0 < d.chanPushesLeft) := by
      simp [hlive, hdue]
    rw [if_pos hdue]
    simp only [hcond]
    exact channelCheckLink_spec cfg i d
  · rw [if_neg hdue, if_neg fun h => hdue h.2.1]
    exact checksWith_none d rfl rfl

theorem pushTarget_congr {d : Ctx} (hchannel : d.channel = c.channel)
    (htable : d.chanTable = c.chanTable) : pushTarget d = pushTarget c := by
  funext r
  rw [pushTarget, pushTarget, hchannel, htable]

/-- The tracking after the check, on the channel data of the tick. -/
theorem peerMove_eq {e : Ctx} (hlive : i.reading ≠ some .other)
    (hpoll : e.didFallbackPoll = decide (c.lastFallbackPoll + lcPollFallbackS ≤ i.now))
    (hchannel : e.channel = c.channel)
    (hsettled : e.chanSettled = (c.chanSettled && (spentOn cfg i c).isNone)) :
    (if e.didFallbackPoll = true ∧ e.channel ≠ .none ∧ e.chanSettled = true then
      (i.trackRead.map ChanReading.observed).filter (· ≠ e.channel) else none) =
      peerMove cfg i c := by
  rw [peerMove, hchannel]
  exact if_congr (by simp [hpoll, hsettled, hlive]) rfl rfl

/-- Without a request, all that a tick of a connection does to the channel is done by
`connectedTick`, on the context that the mailboxes leave. -/
theorem tick_connectedTick (hs : c.state = .connected) (hreq : c.pendingChannel = none) :
    ∃ d : Ctx, d.chanView =
        { c.chanView with
          didFallbackPoll := decide (c.lastFallbackPoll + lcPollFallbackS ≤ i.now) } ∧
      (tick cfg i c).1.chanView = (connectedTick cfg i d).1.chanView ∧
      (tick cfg i c).2.filterMap LcEvent.ofChannel? =
        (connectedTick cfg i d).2.filterMap LcEvent.ofChannel? := by
  obtain ⟨hdrains, hquiet⟩ := tickDrains_channel cfg i c hreq
  generalize hd : (inTurn (tickDrains cfg i) c).1 = d at hdrains
  have hstate : d.state = .connected := (congrArg ChanView.state hdrains).trans hs
  obtain ⟨hafter, hquiet'⟩ := afterSwitch_channel cfg i (connectedTick cfg i d).1
  refine ⟨d, hdrains, ?_, ?_⟩
  · rw [tick, inTurn_append, hd, tickUpdates, inTurn_cons, switchState, hstate]
    exact hafter
  · rw [tick, inTurn_append, hd, tickUpdates, inTurn_cons, switchState, hstate,
      List.filterMap_append, List.filterMap_append, hquiet, hquiet', List.append_nil,
      List.nil_append]

/-- A live link, on the channel data of the tick: what the check and then the tracking do. -/
theorem connectedTick_live {d : Ctx} (hlive : i.reading ≠ some .other)
    (hd : d.chanView =
      { c.chanView with
        didFallbackPoll := decide (c.lastFallbackPoll + lcPollFallbackS ≤ i.now) }) :
    (connectedTick cfg i d).1.pendingChannel = c.pendingChannel ∧
      (connectedTick cfg i d).1.channel = (peerMove cfg i c).getD c.channel ∧
      (connectedTick cfg i d).1.chanPushesLeft =
        c.chanPushesLeft - (spentOn cfg i c).toList.length ∧
      ((connectedTick cfg i d).2.filterMap LcEvent.ofChannel?).filterMap LcEvent.pushed? =
        ((spentOn cfg i c).bind (pushTarget c)).toList ∧
      ((connectedTick cfg i d).2.filterMap LcEvent.ofChannel?).filterMap LcEvent.savedChannel? =
        if cfg.hasCfgPath then (peerMove cfg i c).toList else [] := by
  obtain ⟨d', e, hd', he, hctx, hes⟩ := connectedTick_channel cfg i d hlive
  rw [hctx, hes, List.filterMap_append, List.filterMap_append]
  -- the check runs on `d'`, whose channel data but for the deadline is that of the tick
  have hat : checkAt i d = checkAt i c := by
    rw [checkAt, checkAt, show d.connectGen = c.connectGen from congrArg ChanView.connectGen hd,
      show d.chanCheckAt = c.chanCheckAt from congrArg ChanView.chanCheckAt hd]
  rw [hd, hat] at hd'
  have hchannel : d'.channel = c.channel := congrArg ChanView.channel hd'
  have htable : d'.chanTable = c.chanTable := congrArg ChanView.chanTable hd'
  have hleft : d'.chanPushesLeft = c.chanPushesLeft := congrArg ChanView.chanPushesLeft hd'
  have hcheck : ChecksWith d' (spentOn cfg i c) (dueChannelCheck cfg i d') :=
    dueChannelCheck_spec cfg i c hlive hchannel htable hleft (congrArg ChanView.chanCheckAt hd')
  obtain ⟨hkeep₁, hkeep₂, hkeep₃⟩ := dueChannelCheck_keeps cfg i d'
  -- the tracking runs on `e`, and sees whether the check used up a push
  have hchannel' : e.channel = c.channel :=
    (congrArg ChanView.channel he).trans (hkeep₁.trans hchannel)
  have hpoll : e.didFallbackPoll = decide (c.lastFallbackPoll + lcPollFallbackS ≤ i.now) :=
    (congrArg ChanView.didFallbackPoll he).trans
      (hkeep₃.trans (congrArg ChanView.didFallbackPoll hd'))
  have hsettled : e.chanSettled = (c.chanSettled && (spentOn cfg i c).isNone) := by
    rw [← show d'.chanSettled = c.chanSettled from congrArg ChanView.chanSettled hd',
      ← hcheck.settled]
    exact congrArg ChanView.chanSettled he
  have htrack := dueChannelTrack_spec cfg i e
  rw [peerMove_eq cfg i c hlive hpoll hchannel' hsettled] at htrack
  refine ⟨?_, ?_, ?_, ?_, ?_⟩
  · rw [dueChannelTrack_frame]
    exact (congrArg ChanView.pendingChannel he).trans
      (hkeep₂.trans (congrArg ChanView.pendingChannel hd'))
  · rw [htrack.1, hchannel']
  · rw [htrack.2.1, ← hleft, ← hcheck.left]
    exact congrArg ChanView.chanPushesLeft he
  · rw [htrack.2.2.1, List.append_nil, hcheck.pushed, pushTarget_congr c hchannel htable]
  · rw [hcheck.saved, List.nil_append, htrack.2.2.2]

/-- **A tick on the channel**, without a request: what the check and the tracking do. -/
theorem tick_channel (hs : c.state = .connected) (hreq : c.pendingChannel = none) :
    (tick cfg i c).1.pendingChannel = none ∧
      (tick cfg i c).1.channel = (peerMove cfg i c).getD c.channel ∧
      (tick cfg i c).1.chanPushesLeft =
        c.chanPushesLeft - (spentOn cfg i c).toList.length ∧
      (tick cfg i c).2.filterMap LcEvent.pushed? =
        ((spentOn cfg i c).bind (pushTarget c)).toList ∧
      (tick cfg i c).2.filterMap LcEvent.savedChannel? =
        if cfg.hasCfgPath then (peerMove cfg i c).toList else [] := by
  obtain ⟨d, hd, htick, hevents⟩ := tick_connectedTick cfg i c hs hreq
  rw [← filterMap_ofChannel? pushed?_eq_none, ← filterMap_ofChannel? savedChannel?_eq_none,
    hevents]
  have hfields : (tick cfg i c).1.pendingChannel = (connectedTick cfg i d).1.pendingChannel ∧
      (tick cfg i c).1.channel = (connectedTick cfg i d).1.channel ∧
      (tick cfg i c).1.chanPushesLeft = (connectedTick cfg i d).1.chanPushesLeft :=
    ⟨congrArg ChanView.pendingChannel htick, congrArg ChanView.channel htick,
      congrArg ChanView.chanPushesLeft htick⟩
  rw [hfields.1, hfields.2.1, hfields.2.2]
  by_cases hlive : i.reading = some .other
  -- a missed reading: nothing but the count of the debounce
  · have hspent : spentOn cfg i c = none := if_neg fun h => h.1 hlive
    have hmove : peerMove cfg i c = none := if_neg fun h => h.1 hlive
    have hpending : d.pendingChannel = none := (congrArg ChanView.pendingChannel hd).trans hreq
    have hchannel : d.channel = c.channel := congrArg ChanView.channel hd
    have hleft : d.chanPushesLeft = c.chanPushesLeft := congrArg ChanView.chanPushesLeft hd
    rw [hspent, hmove, connectedTick, if_pos hlive]
    split_ifs <;> exact ⟨hpending, hchannel, hleft, rfl, rfl⟩
  · rw [← hreq]
    exact connectedTick_live cfg i c hlive hd

end Tick

/-- What is taken over is another channel, and only if the tick pushes nothing. -/
theorem peerMove_some {cfg : LcConfig} {i : TickInput} {c : Ctx} {x : Channel}
    (h : peerMove cfg i c = some x) : x ≠ c.channel ∧ spentOn cfg i c = none := by
  rw [peerMove] at h
  split_ifs at h with hcond
  · exact ⟨by simpa using (Option.mem_filter_iff.mp h).2, hcond.2.2.2.2⟩

theorem peerMove_eq_none {cfg : LcConfig} {i : TickInput} {c : Ctx} {r : ChanReading}
    (hspent : spentOn cfg i c = some r) : peerMove cfg i c = none := by
  cases hmove : peerMove cfg i c with
  | none => rfl
  | some x =>
    rw [(peerMove_some hmove).2] at hspent
    cases hspent

theorem spentOn_some {cfg : LcConfig} {i : TickInput} {c : Ctx} {r : ChanReading}
    (h : spentOn cfg i c = some r) : 0 < c.chanPushesLeft ∧ offChannel i c r = true := by
  rw [spentOn] at h
  split_ifs at h with hcond
  exact ⟨hcond.2.2.2, (Option.mem_filter_iff.mp h).2⟩

/-- With the chip on the wanted channel a push goes elsewhere, unless the table has no other
channel. -/
theorem pushTarget_eq_none_iff {cfg : LcConfig} {i : TickInput} {c : Ctx} {r : ChanReading}
    (hspent : spentOn cfg i c = some r) (hmatch : lcChannelMatches c.channel r = true) :
    pushTarget c r = none ↔ c.chanTable.length ≤ 1 := by
  have hoff := (spentOn_some hspent).2
  rw [offChannel, hmatch, Bool.true_and, Bool.and_eq_true, Bool.not_eq_true', Bool.not_eq_true']
    at hoff
  have hwant : wantKhz c ≠ 0 := fun h => by simp [linkOk, h] at hoff
  rw [pushTarget, if_pos hmatch]
  rw [wantKhz] at hwant
  cases hchan : c.channel with
  | auto | none => simp [hchan] at hwant
  | index n =>
    have hn : n < c.chanTable.length := by
      by_contra hlen
      exact hwant (by simp [hchan, List.getElem?_eq_none (Nat.not_lt.mp hlen)])
    rw [← lcChannelNeighbour_eq_none_iff hn]
    simp

/-- A tick of a connection keeps the chip's channel table. -/
theorem tick_chanTable (cfg : LcConfig) (i : TickInput) {c : Ctx} (hs : c.state = .connected)
    (hreq : c.pendingChannel = none) : (tick cfg i c).1.chanTable = c.chanTable := by
  obtain ⟨d, hd, htick, -⟩ := tick_connectedTick cfg i c hs hreq
  refine (congrArg ChanView.chanTable htick).trans (Eq.trans ?_ (congrArg ChanView.chanTable hd))
  show (connectedTick cfg i d).1.chanTable = d.chanTable
  rw [connectedTick]
  split_ifs
  · rfl
  · rfl
  · obtain ⟨_, _, _, _, _, _, _, hframe⟩ := linkedSteps_frame cfg i { d with dropMissCount := 0 }
    rw [hframe]

/-! ### A connection -/

/-- A push of the check, and the channel wanted at the time. -/
structure Push where
  chan : Channel
  wanted : Channel
  deriving DecidableEq, Repr

/-- A connection: the context, and the pushes so far. -/
structure Conn where
  ctx : Ctx
  pushes : List Push
  deriving DecidableEq, Repr

def Conn.step (cfg : LcConfig) (s : Conn) (a : LcAction) : Conn where
  ctx := (lcStep cfg s.ctx a).1
  pushes := s.pushes ++
    ((lcStep cfg s.ctx a).2.filterMap LcEvent.pushed?).map fun chan => ⟨chan, s.ctx.channel⟩

/-- The actions of a connection from the context it starts with. -/
def Conn.run (cfg : LcConfig) (c : Ctx) (actions : List LcAction) : Conn :=
  actions.foldl (Conn.step cfg) ⟨c, []⟩

theorem Conn.run_concat (cfg : LcConfig) (c : Ctx) (actions : List LcAction) (a : LcAction) :
    Conn.run cfg c (actions ++ [a]) = (Conn.run cfg c actions).step cfg a := by
  rw [Conn.run, List.foldl_append]
  rfl

/-- The channel was pushed as a detour, and never as the wanted one. -/
def DetourOnly (pushes : List Push) (x : Channel) : Prop :=
  (∃ p ∈ pushes, p.chan = x) ∧ ∀ p ∈ pushes, p.chan = x → p.chan ≠ p.wanted

theorem not_detourOnly_iff {pushes : List Push} {x : Channel} : ¬DetourOnly pushes x ↔
    ∀ p ∈ pushes, p.chan ≠ p.wanted → x = p.chan → ∃ q ∈ pushes, q.chan = p.chan ∧
      q.chan = q.wanted := by
  constructor
  · rintro hnot p hp - rfl
    by_contra hnone
    exact hnot ⟨⟨p, hp, rfl⟩, fun q hq hchan hwanted => hnone ⟨q, hq, hchan, hwanted⟩⟩
  · rintro hall ⟨⟨p, hp, rfl⟩, hdetour⟩
    obtain ⟨q, hq, hchan, hwanted⟩ := hall p hp (hdetour p hp rfl) rfl
    exact hdetour q hq hchan hwanted

/-- The last push, if any, was the channel wanted then. -/
def LastWanted (s : Conn) : Prop :=
  ∀ p, s.pushes.getLast? = some p → p.chan = p.wanted

/-- What the check and the tracking promise of an action. -/
structure ChannelKept (cfg : LcConfig) (s : Conn) (a : LcAction) : Prop where
  bounded : (s.step cfg a).pushes.length ≤ lcChanPushes
  lastWanted : (s.step cfg a).ctx.chanPushesLeft = 0 → LastWanted (s.step cfg a)
  tracked : (s.step cfg a).ctx.channel ≠ s.ctx.channel →
    ¬DetourOnly (s.step cfg a).pushes (s.step cfg a).ctx.channel
  saved : ∀ x ∈ (lcStep cfg s.ctx a).2.filterMap LcEvent.savedChannel?,
    ¬DetourOnly (s.step cfg a).pushes x

/-- The tick pushes nothing, and `lc_channel_track` compares this reading with the wanted
channel. -/
def TrackReads (cfg : LcConfig) (i : TickInput) (c : Ctx) (r : ChanReading) : Prop :=
  i.reading ≠ some .other ∧ c.lastFallbackPoll + lcPollFallbackS ≤ i.now ∧ c.channel ≠ .none ∧
    spentOn cfg i c = none ∧ i.trackRead = some r

/-- What the chip has to report at a tick for it. -/
structure Undisturbed (cfg : LcConfig) (s : Conn) (i : TickInput) : Prop where
  /-- The check that uses up the last push does not read the wanted channel, or there is no other
  one to detour through. -/
  check : s.ctx.chanPushesLeft = 1 → ∀ r, spentOn cfg i s.ctx = some r →
    lcChannelMatches s.ctx.channel r = true → s.ctx.chanTable.length ≤ 1
  /-- Once a poll behind the last push has read the wanted channel, none reads the channel of an
  earlier detour, unless this was pushed as the wanted one too. -/
  poll : s.ctx.chanSettled = true → ∀ r, TrackReads cfg i s.ctx r →
    lcChannelMatches s.ctx.channel r = false → ∀ p ∈ s.pushes, p.chan ≠ p.wanted →
      r.observed = p.chan → ∃ q ∈ s.pushes, q.chan = p.chan ∧ q.chan = q.wanted

/-- The pushes so far and the pushes left. -/
structure Budget (s : Conn) : Prop where
  noRequest : s.ctx.pendingChannel = none
  pushes : s.pushes.length + s.ctx.chanPushesLeft ≤ lcChanPushes
  /-- Without another channel in the table there are no detours. -/
  plain : s.ctx.chanTable.length ≤ 1 → ∀ p ∈ s.pushes, p.chan = p.wanted

section Connection

variable {cfg : LcConfig} {s : Conn} {i : TickInput}

/-- A tick that uses up no push. -/
theorem step_of_not_spent (hs : s.ctx.state = .connected) (hreq : s.ctx.pendingChannel = none)
    (hspent : spentOn cfg i s.ctx = none) :
    (s.step cfg (.tick i)).pushes = s.pushes ∧
      (s.step cfg (.tick i)).ctx.chanPushesLeft = s.ctx.chanPushesLeft ∧
      (s.step cfg (.tick i)).ctx.channel = (peerMove cfg i s.ctx).getD s.ctx.channel := by
  obtain ⟨-, hchannel, hleft, hpushed, -⟩ := tick_channel cfg i s.ctx hs hreq
  rw [hspent] at hpushed hleft
  refine ⟨?_, hleft, hchannel⟩
  rw [Conn.step, lcStep, hpushed]
  simp

/-- A tick that uses up a push. -/
theorem step_of_spent {r : ChanReading} (hs : s.ctx.state = .connected)
    (hreq : s.ctx.pendingChannel = none) (hspent : spentOn cfg i s.ctx = some r) :
    (s.step cfg (.tick i)).pushes =
        s.pushes ++ (pushTarget s.ctx r).toList.map (fun chan => ⟨chan, s.ctx.channel⟩) ∧
      (s.step cfg (.tick i)).ctx.chanPushesLeft = s.ctx.chanPushesLeft - 1 ∧
      (s.step cfg (.tick i)).ctx.channel = s.ctx.channel := by
  have hmove : peerMove cfg i s.ctx = none := peerMove_eq_none hspent
  obtain ⟨-, hchannel, hleft, hpushed, -⟩ := tick_channel cfg i s.ctx hs hreq
  rw [hspent] at hpushed hleft
  rw [hmove] at hchannel
  refine ⟨?_, hleft, hchannel⟩
  rw [Conn.step, lcStep, hpushed]
  rfl

/-- A tick keeps the budget. -/
theorem Budget.tick (h : Budget s) (hs : s.ctx.state = .connected) (i : TickInput) :
    Budget (s.step cfg (.tick i)) := by
  have htable : (s.step cfg (.tick i)).ctx.chanTable = s.ctx.chanTable :=
    tick_chanTable cfg i hs h.noRequest
  refine ⟨(tick_channel cfg i s.ctx hs h.noRequest).1, ?_, fun hlen => ?_⟩
  · cases hspent : spentOn cfg i s.ctx with
    | none =>
      obtain ⟨hpushes, hleft, -⟩ := step_of_not_spent hs h.noRequest hspent
      rw [hpushes, hleft]
      exact h.pushes
    | some r =>
      obtain ⟨hpushes, hleft, -⟩ := step_of_spent hs h.noRequest hspent
      have hpos := (spentOn_some hspent).1
      have hbudget := h.pushes
      have hone : ((pushTarget s.ctx r).toList).length ≤ 1 := by
        cases pushTarget s.ctx r <;> simp
      rw [hpushes, hleft, List.length_append, List.length_map]
      omega
  · rw [htable] at hlen
    cases hspent : spentOn cfg i s.ctx with
    | none =>
      rw [(step_of_not_spent hs h.noRequest hspent).1]
      exact h.plain hlen
    | some r =>
      rw [(step_of_spent hs h.noRequest hspent).1]
      intro p hp
      rcases List.mem_append.mp hp with hp | hp
      · exact h.plain hlen p hp
      · obtain ⟨target, htarget, rfl⟩ := List.mem_map.mp hp
        have htarget : pushTarget s.ctx r = some target := by simpa using htarget
        refine (pushTarget_eq_channel_iff htarget).mpr ?_
        by_contra hmatch
        rw [(pushTarget_eq_none_iff hspent (by simpa using hmatch)).mpr hlen] at htarget
        cases htarget

/-- What is taken over is what a poll reads off the wanted channel, once the chip has settled. -/
theorem peerMove_eq_some_iff {x : Channel} :
    peerMove cfg i s.ctx = some x ↔ s.ctx.chanSettled = true ∧
      ∃ r, TrackReads cfg i s.ctx r ∧ lcChannelMatches s.ctx.channel r = false ∧
        r.observed = x := by
  constructor
  · intro h
    rw [peerMove] at h
    split_ifs at h with hcond
    obtain ⟨hx, hne⟩ := Option.mem_filter_iff.mp h
    obtain ⟨r, hr, rfl⟩ := Option.map_eq_some_iff.mp hx
    have hmatch : lcChannelMatches s.ctx.channel r = false := by
      by_contra hmatch
      exact absurd (lcChannelMatches_iff.mp (by simpa using hmatch)).symm (by simpa using hne)
    exact ⟨hcond.2.2.2.1, r, ⟨hcond.1, hcond.2.1, hcond.2.2.1, hcond.2.2.2.2, hr⟩, hmatch, rfl⟩
  · rintro ⟨hsettled, r, ⟨hlive, hpoll, hnone, hspent, hr⟩, hmatch, rfl⟩
    rw [peerMove, if_pos ⟨hlive, hpoll, hnone, hsettled, hspent⟩, hr, Option.map_some]
    refine Option.filter_some_pos ?_
    have hne : r.observed ≠ s.ctx.channel := fun h => by
      rw [lcChannelMatches_iff.mpr h.symm] at hmatch
      cases hmatch
    simpa using hne

/-- A tick that uses up no push is right exactly if no detour is read for the peer's channel. -/
theorem channelKept_of_not_spent (h : Budget s) (hs : s.ctx.state = .connected)
    (hlast : s.ctx.chanPushesLeft = 0 → LastWanted s) (hspent : spentOn cfg i s.ctx = none) :
    ChannelKept cfg s (.tick i) ↔ Undisturbed cfg s i := by
  obtain ⟨hpushes, hleft, hchannel⟩ := step_of_not_spent hs h.noRequest hspent
  obtain ⟨-, -, -, -, hsaved⟩ := tick_channel cfg i s.ctx hs h.noRequest
  have hbounded : s.pushes.length ≤ lcChanPushes := Nat.le_of_add_right_le h.pushes
  have hlast' : (s.step cfg (.tick i)).ctx.chanPushesLeft = 0 →
      LastWanted (s.step cfg (.tick i)) := by
    rw [hleft, LastWanted, hpushes]
    exact hlast
  cases hmove : peerMove cfg i s.ctx with
  | none =>
    rw [hmove] at hchannel hsaved
    have hsame : (s.step cfg (.tick i)).ctx.channel = s.ctx.channel := hchannel
    refine iff_of_true ⟨?_, hlast', fun hne => absurd hsame hne, ?_⟩ ⟨by simp [hspent], ?_⟩
    · rw [hpushes]
      exact hbounded
    · rw [lcStep, hsaved]
      simp
    · intro hsettled r hr hmatch
      have hsome := peerMove_eq_some_iff.mpr ⟨hsettled, r, hr, hmatch, rfl⟩
      rw [hmove] at hsome
      cases hsome
  | some x =>
    rw [hmove] at hchannel hsaved
    have hmoved : (s.step cfg (.tick i)).ctx.channel = x := hchannel
    have hne := (peerMove_some hmove).1
    constructor
    · intro hkept
      refine ⟨by simp [hspent], fun hsettled r hr hmatch => ?_⟩
      have hsome := peerMove_eq_some_iff.mpr ⟨hsettled, r, hr, hmatch, rfl⟩
      obtain rfl : x = r.observed := Option.some.inj (hmove.symm.trans hsome)
      have htracked := hkept.tracked (by rw [hmoved]; exact hne)
      rw [hpushes, hmoved] at htracked
      exact not_detourOnly_iff.mp htracked
    · intro hund
      obtain ⟨hsettled, r, hr, hmatch, rfl⟩ := peerMove_eq_some_iff.mp hmove
      have hown := not_detourOnly_iff.mpr (hund.poll hsettled r hr hmatch)
      refine ⟨by rw [hpushes]; exact hbounded, hlast', fun _ => ?_, fun y hy => ?_⟩
      · rw [hpushes, hmoved]
        exact hown
      · obtain rfl : y = r.observed := by
          rw [lcStep, hsaved] at hy
          split_ifs at hy
          · simpa using hy
          · simp at hy
        rw [hpushes]
        exact hown

/-- A tick that uses up a push is right exactly if the last one is the wanted channel. -/
theorem channelKept_of_spent {r : ChanReading} (h : Budget s) (hs : s.ctx.state = .connected)
    (hspent : spentOn cfg i s.ctx = some r) :
    ChannelKept cfg s (.tick i) ↔ Undisturbed cfg s i := by
  obtain ⟨hpushes, hleft, hsame⟩ := step_of_spent hs h.noRequest hspent
  have hpos := (spentOn_some hspent).1
  have hmove : peerMove cfg i s.ctx = none := peerMove_eq_none hspent
  obtain ⟨-, -, -, -, hsaved⟩ := tick_channel cfg i s.ctx hs h.noRequest
  have hbudget := (@Budget.tick cfg s h hs i).pushes
  -- all but the last push is right in any case
  have hkept : ChannelKept cfg s (.tick i) ↔
      (s.ctx.chanPushesLeft = 1 → LastWanted (s.step cfg (.tick i))) := by
    refine ⟨fun hk hone => hk.lastWanted (by rw [hleft, hone]), fun hlast =>
      ⟨Nat.le_of_add_right_le hbudget, fun hzero => hlast (by omega),
        fun hne => absurd hsame hne, ?_⟩⟩
    rw [lcStep, hsaved, hmove]
    simp
  have hund : Undisturbed cfg s i ↔
      (s.ctx.chanPushesLeft = 1 → lcChannelMatches s.ctx.channel r = true →
        s.ctx.chanTable.length ≤ 1) := by
    refine ⟨fun hu hone => hu.check hone r hspent, fun hcheck =>
      ⟨fun hone r' hr' => ?_, fun _ r' hr' => ?_⟩⟩
    · obtain rfl : r = r' := Option.some.inj (hspent.symm.trans hr')
      exact hcheck hone
    · exact absurd (hspent.symm.trans hr'.2.2.2.1) (by simp)
  rw [hkept, hund]
  refine imp_congr_right fun _ => ?_
  rw [LastWanted, hpushes]
  cases htarget : pushTarget s.ctx r with
  | none =>
    have hmatch : lcChannelMatches s.ctx.channel r = true := by
      by_contra hmatch
      rw [pushTarget, if_neg hmatch] at htarget
      simp at htarget
    have hlen := (pushTarget_eq_none_iff hspent hmatch).mp htarget
    refine iff_of_true (fun p hp => ?_) fun _ => hlen
    exact h.plain hlen p (List.mem_of_getLast? (by simpa using hp))
  | some target =>
    simp only [Option.toList_some, List.map_cons, List.map_nil, List.getLast?_concat,
      Option.some.injEq, forall_eq']
    rw [pushTarget_eq_channel_iff htarget]
    refine ⟨fun hoff hmatch => by simp [hmatch] at hoff, fun hlen => ?_⟩
    by_contra hmatch
    have hmatch : lcChannelMatches s.ctx.channel r = true := by simpa using hmatch
    rw [(pushTarget_eq_none_iff hspent hmatch).mpr (hlen hmatch)] at htarget
    cases htarget

/-- A request other than for a channel changes nothing of this. -/
theorem step_of_request {a : LcAction} (ha : ∀ i, a ≠ .tick i) (hchan : a.isChannel = false) :
    (s.step cfg a).pushes = s.pushes ∧ (s.step cfg a).ctx.channel = s.ctx.channel ∧
      (s.step cfg a).ctx.chanPushesLeft = s.ctx.chanPushesLeft ∧
      (s.step cfg a).ctx.chanTable = s.ctx.chanTable ∧
      (s.step cfg a).ctx.pendingChannel = s.ctx.pendingChannel := by
  have hframe := lcStep_frame cfg ha s.ctx
  refine ⟨by simp [Conn.step, lcStep_silent cfg ha], ?_, ?_, ?_, ?_⟩
  · rw [Conn.step, hframe]
  · rw [Conn.step, hframe]
  · rw [Conn.step, hframe]
  · cases a with
    | tick i => exact absurd rfl (ha i)
    | channel chan => simp [LcAction.isChannel] at hchan
    | bandwidth mhz =>
      rw [Conn.step, lcStep, requestBandwidth]
      split_ifs <;> rfl
    | retx retx =>
      rw [Conn.step, lcStep, requestRetx]
      split_ifs <;> rfl
    | power level =>
      rw [Conn.step, lcStep, requestPower]
      split_ifs <;> rfl
    | armed armed => rfl

variable {c : Ctx} {actions : List LcAction}

/-- The actions lie within one connection and none of them requests a channel. -/
def WithinConnection (cfg : LcConfig) (c : Ctx) : List LcAction → Prop :=
  Always fun past a =>
    (Conn.run cfg c past).ctx.state = .connected ∧ a.isChannel = false

instance : Decidable (WithinConnection cfg c actions) :=
  inferInstanceAs (Decidable (Always _ actions))

/-- The context a connection starts with. -/
structure JustConnected (c : Ctx) : Prop where
  left : c.chanPushesLeft = lcChanPushes
  noRequest : c.pendingChannel = none

theorem Conn.run_budget (hc : JustConnected c) (hwithin : WithinConnection cfg c actions) :
    Budget (Conn.run cfg c actions) := by
  induction actions using List.reverseRecOn with
  | nil => exact ⟨hc.noRequest, by simp [Conn.run, hc.left], fun _ => by simp [Conn.run]⟩
  | append_singleton actions a ih =>
    obtain ⟨hpast, hs, hchan⟩ := always_concat_iff.mp hwithin
    have hbudget := ih hpast
    rw [Conn.run_concat]
    by_cases ha : ∃ i, a = .tick i
    · obtain ⟨i, rfl⟩ := ha
      exact hbudget.tick hs i
    · obtain ⟨hpushes, -, hleft, htable, hreq⟩ :=
        @step_of_request cfg (Conn.run cfg c actions) a (fun i h => ha ⟨i, h⟩) hchan
      refine ⟨hreq.trans hbudget.noRequest, by rw [hpushes, hleft]; exact hbudget.pushes, ?_⟩
      rw [htable, hpushes]
      exact hbudget.plain

theorem lastWanted_of_kept
    (hkept : Always (fun past a => ChannelKept cfg (Conn.run cfg c past) a) actions) :
    (Conn.run cfg c actions).ctx.chanPushesLeft = 0 → LastWanted (Conn.run cfg c actions) := by
  induction actions using List.reverseRecOn with
  | nil => simp [Conn.run, LastWanted]
  | append_singleton past a _ =>
    rw [Conn.run_concat]
    exact (always_concat_iff.mp hkept).2.lastWanted

/-- **The channel check of a connection.** Whatever the chip reports, a connection without a
channel request has at most `LC_CHAN_PUSHES` pushes. The channel pushed last is the wanted one
whenever all pushes are used up, and no channel pushed only as a detour is ever taken over for
the peer's, if and only if what the chip reports leaves every tick undisturbed. -/
theorem channel_kept_iff (hc : JustConnected c) (hwithin : WithinConnection cfg c actions) :
    (Conn.run cfg c actions).pushes.length ≤ lcChanPushes ∧
      (Always (fun past a => ChannelKept cfg (Conn.run cfg c past) a) actions ↔
        Always (fun past a => ∀ i, a = .tick i → Undisturbed cfg (Conn.run cfg c past) i)
          actions) := by
  refine ⟨Nat.le_of_add_right_le (Conn.run_budget hc hwithin).pushes, ?_⟩
  induction actions using List.reverseRecOn with
  | nil => exact iff_of_true always_nil always_nil
  | append_singleton actions a ih =>
    obtain ⟨hpast, hs, hchan⟩ := always_concat_iff.mp hwithin
    have hbudget := Conn.run_budget hc hpast
    rw [always_concat_iff, always_concat_iff, ← ih hpast]
    -- what was kept so far says what the last push was for
    refine and_congr_right fun hkept => ?_
    have hlast := lastWanted_of_kept hkept
    by_cases ha : ∃ i, a = .tick i
    · obtain ⟨i, rfl⟩ := ha
      simp only [LcAction.tick.injEq, forall_eq']
      cases hspent : spentOn cfg i (Conn.run cfg c actions).ctx with
      | none => exact channelKept_of_not_spent hbudget hs hlast hspent
      | some r => exact channelKept_of_spent hbudget hs hspent
    · have hreq : ∀ i, a ≠ .tick i := fun i h => ha ⟨i, h⟩
      obtain ⟨hpushes, hchannel, hleft, -⟩ :=
        @step_of_request cfg (Conn.run cfg c actions) a hreq hchan
      refine iff_of_true ⟨?_, ?_, fun hne => absurd hchannel hne, ?_⟩
        fun i h => absurd ⟨i, h⟩ ha
      · rw [hpushes]
        exact Nat.le_of_add_right_le hbudget.pushes
      · rw [hleft, LastWanted, hpushes]
        exact hlast
      · rw [lcStep_silent cfg hreq]
        simp

/-- A tick that connects starts a connection. -/
theorem tick_justConnected (hidle : c.state = .idle)
    (hconn : (tick cfg i c).1.state = .connected) : JustConnected (tick cfg i c).1 := by
  have hpending := tickDrains_pendingChannel cfg i c
  have hstate := (tickDrains_state cfg i c).trans hidle
  generalize hd : (inTurn (tickDrains cfg i) c).1 = d at hpending hstate
  have htick : (tick cfg i c).1.chanView = (idleTick cfg i d).1.chanView := by
    rw [tick, inTurn_append, hd, tickUpdates, inTurn_cons, switchState, hstate]
    exact (afterSwitch_channel cfg i _).1
  have hconn' : (idleTick cfg i d).1.state = .connected :=
    (congrArg ChanView.state htick).symm.trans hconn
  have hstart : (idleTick cfg i d).1.chanPushesLeft = lcChanPushes ∧
      (idleTick cfg i d).1.pendingChannel = none := by
    rw [idleTick] at hconn' ⊢
    split_ifs at hconn' ⊢
    · cases hstate.symm.trans hconn'
    · exact ⟨rfl, hpending⟩
    · cases hstate.symm.trans hconn'
    · cases hstate.symm.trans hconn'
  exact ⟨(congrArg ChanView.chanPushesLeft htick).trans hstart.1,
    (congrArg ChanView.pendingChannel htick).trans hstart.2⟩

end Connection

/-! ### Two connections that go wrong -/

/-- An AP that wants the first of two channels. -/
def channelCfg : LcConfig := { plainCfg .ap with defaultChannel := .index 0 }

/-- The link, on the second of the two channels. -/
def offTick (now : ℕ) (check track : Option ℕ) : TickInput :=
  { plainTick now .connect with
    checkRead := check.map fun n => ⟨false, n, 2⟩
    trackRead := track.map fun n => ⟨false, n, 2⟩
    downKhz := 5785000
    upKhz := 5785000 }

/-- The context after the connect. -/
def connectedCtx : Ctx :=
  (lcRun channelCfg ⟨none, none⟩ [5745000, 5785000]
    [.tick (offTick 0 none none), .tick (offTick 0 none none), .tick (offTick 0 none none)]).1

/-- The chip says it is on the channel, or not, at each of five checks. -/
def fiveChecks (chans : List ℕ) : List LcAction :=
  (chans.zip [3, 6, 9, 12, 15]).map fun p => .tick (offTick p.2 (some p.1) none)

/-- The tick takes over no channel that was pushed, and uses up the last push with the chip on
another channel. -/
def isQuiet (cfg : LcConfig) (s : Conn) : LcAction → Bool
  | .tick i => ((peerMove cfg i s.ctx).all fun x => s.pushes.all fun p => p.chan != x) &&
      (s.ctx.chanPushesLeft != 1 ||
        (spentOn cfg i s.ctx).all fun r => !lcChannelMatches s.ctx.channel r)
  | _ => true

theorem undisturbed_of_isQuiet {cfg : LcConfig} {s : Conn} {i : TickInput}
    (h : isQuiet cfg s (.tick i) = true) : Undisturbed cfg s i := by
  rw [isQuiet, Bool.and_eq_true] at h
  refine ⟨fun hone r hr hmatch => ?_, fun hsettled r hr hmatch p hp _ hchan => ?_⟩
  · simp [hone, hr, hmatch] at h
  · have hquiet := h.1
    rw [peerMove_eq_some_iff.mpr ⟨hsettled, r, hr, hmatch, rfl⟩, Option.all_some,
      List.all_eq_true] at hquiet
    exact absurd hchan.symm (by simpa using hquiet p hp)

/-- A detour first, the wanted channel last, and then the peer moves to a third channel: all is
well. -/
theorem channel_kept_detour_first :
    let actions := fiveChecks [0, 1, 0, 1, 1] ++
      [.tick (offTick 20 none (some 0)), .tick (offTick 25 none (some 2))]
    JustConnected connectedCtx ∧
      (Conn.run channelCfg connectedCtx actions).ctx.channel = .index 2 ∧
      Always (fun past a => ChannelKept channelCfg (Conn.run channelCfg connectedCtx past) a)
        actions := by
  intro actions
  have hc : JustConnected connectedCtx := ⟨by decide, by decide⟩
  have hquiet : Always (fun past a => isQuiet channelCfg (Conn.run channelCfg connectedCtx past) a)
      actions := by decide
  refine ⟨hc, by decide, (channel_kept_iff hc (by decide)).2.mpr fun past a post heq i hi => ?_⟩
  subst hi
  exact undisturbed_of_isQuiet (hquiet past _ post heq)

/-- With the wanted channel pushed first the last push is a detour; and a detour is taken for a
move of the peer once the chip was still seen on the wanted channel after it. -/
theorem channel_not_kept :
    (JustConnected connectedCtx ∧
      WithinConnection channelCfg connectedCtx (fiveChecks [1, 0, 1, 0, 1]) ∧
      ¬Always (fun past a => ChannelKept channelCfg (Conn.run channelCfg connectedCtx past) a)
        (fiveChecks [1, 0, 1, 0, 1])) ∧
    WithinConnection channelCfg connectedCtx
      [.tick (offTick 3 (some 0) none), .tick (offTick 5 none (some 0)),
        .tick (offTick 10 none (some 1))] ∧
      ¬Always (fun past a => ChannelKept channelCfg (Conn.run channelCfg connectedCtx past) a)
        [.tick (offTick 3 (some 0) none), .tick (offTick 5 none (some 0)),
          .tick (offTick 10 none (some 1))] := by
  refine ⟨⟨⟨by decide, by decide⟩, by decide, fun h => ?_⟩, by decide, fun h => ?_⟩
  · have hkept := h (fiveChecks [1, 0, 1]) (.tick (offTick 12 (some 0) none))
      [.tick (offTick 15 (some 1) none)] rfl
    have hlast := hkept.lastWanted (by decide) ⟨.index 1, .index 0⟩ (by decide)
    exact absurd hlast (by decide)
  · have hkept := h [.tick (offTick 3 (some 0) none), .tick (offTick 5 none (some 0))]
      (.tick (offTick 10 none (some 1))) [] rfl
    refine hkept.tracked (by decide) ⟨⟨⟨.index 1, .index 0⟩, by decide, by decide⟩, ?_⟩
    decide

end Ar8030
