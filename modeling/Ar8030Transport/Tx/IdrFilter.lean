import Mathlib.Algebra.Order.Group.Int
import Mathlib.Data.List.Count
import Mathlib.Data.List.GetD
import Mathlib.Tactic.SplitIfs
import Ar8030Transport.Library.Mealy
import Ar8030Transport.Library.Trace
import Ar8030Transport.Wire.Control

/-!
# The filter for keyframe requests

`handle_idr` of `tx/idr_ctrl.c` decides which of the ground's `IDR` tokens become a request to
waybeam. A token seen within `dedup_ms` is a duplicate; any other is written over the oldest of
the 16 remembered ones, also when the link is congested or the last request was made less than
`coalesce_ms` ago.

A duplicate does not renew the entry of its token, and 16 other tokens push an entry out. What
the filter promises is therefore about the arrivals it has recorded: `IdrInv` says that each of
them is remembered or has been followed by 16 others.
-/

namespace Ar8030

open Trace

/-- `IDR_CTRL_TOKENS`. -/
def idrCtrlTokens : ℕ := 16

/-- `struct seen_token`. No entry has time 0. -/
structure SeenToken where
  token : List UInt8
  atMs : ℤ
  deriving DecidableEq, Repr

/-- The fields of `idr_ctrl_cfg_t` that the filter reads. -/
structure IdrCtrlCfg where
  coalesceMs : ℕ
  dedupMs : ℕ

/-- A call of `handle_idr`: the token, which is shorter than a control message, and what
`now_ms` and `bitrate_ctl_congested` say. -/
structure IdrArrival where
  token : List UInt8
  now : ℤ
  congested : Bool
  length_lt : token.length < ctrlMaxPayload
  deriving DecidableEq

/-- What becomes of a token. -/
inductive IdrAnswer where
  | duplicate
  | suppressed
  | coalesced
  /-- `GET /request/idr`. -/
  | honoured
  deriving DecidableEq, Repr

/-- The locals of `idr_ctrl_thread_main` that `handle_idr` works on. -/
structure IdrFilter where
  seen : List SeenToken
  lastHonoredMs : ℤ

/-- The tokens seen after `memset`, and no request made. -/
def IdrFilter.init : IdrFilter where
  seen := List.replicate idrCtrlTokens ⟨[], 0⟩
  lastHonoredMs := 0

/-- `seen[i].at_ms`. -/
def atMsOf (seen : List SeenToken) (i : ℕ) : ℤ := (seen.getD i ⟨[], 0⟩).atMs

/-- The first loop of `handle_idr`. -/
def isDuplicate (cfg : IdrCtrlCfg) (seen : List SeenToken) (a : IdrArrival) : Bool :=
  seen.any fun e => e.atMs != 0 && decide (a.now - e.atMs < cfg.dedupMs) && e.token == a.token

/-- The second loop: the first of the entries with the smallest time. -/
def oldestSeen (seen : List SeenToken) : ℕ :=
  (List.range' 1 (idrCtrlTokens - 1)).foldl
    (fun oldest i => if atMsOf seen i < atMsOf seen oldest then i else oldest) 0

/-- `snprintf` of the token over the oldest entry. -/
def rememberToken (seen : List SeenToken) (a : IdrArrival) : List SeenToken :=
  seen.set (oldestSeen seen) ⟨a.token.take (ctrlMaxPayload - 1), a.now⟩

/-- An arrival with its answer. -/
abbrev IdrEvent := IdrArrival × IdrAnswer

/-- `handle_idr`. -/
def handleIdr (cfg : IdrCtrlCfg) (s : IdrFilter) (a : IdrArrival) : IdrFilter × List IdrEvent :=
  if isDuplicate cfg s.seen a then (s, [(a, .duplicate)])
  else
    let s := { s with seen := rememberToken s.seen a }
    if a.congested then (s, [(a, .suppressed)])
    else if s.lastHonoredMs ≠ 0 ∧ a.now - s.lastHonoredMs < cfg.coalesceMs then
      (s, [(a, .coalesced)])
    else ({ s with lastHonoredMs := a.now }, [(a, .honoured)])

/-- All calls of a run. -/
def idrLog (cfg : IdrCtrlCfg) (arrivals : List IdrArrival) : List IdrEvent :=
  (Mealy.run (handleIdr cfg) .init arrivals).2

/-! ### What the filter promises -/

/-- Times are positive and do not go back. -/
structure InOrder (arrivals : List IdrArrival) : Prop where
  pos : ∀ a ∈ arrivals, 0 < a.now
  sorted : arrivals.Pairwise (fun a b => a.now ≤ b.now)

/-- The arrival was recorded, at the time `t` or later. -/
def recordedSince (t : ℤ) (x : IdrEvent) : Bool := x.2 != .duplicate && decide (t ≤ x.1.now)

/-- A request is made at `e`, after the events `before`. -/
structure Allowed (cfg : IdrCtrlCfg) (before : List IdrEvent) (e : IdrEvent) : Prop where
  /-- Requests are `coalesce_ms` apart. -/
  apart : ∀ x ∈ before, x.2 = .honoured → x.1.now + cfg.coalesceMs ≤ e.1.now
  quiet : e.1.congested = false
  /-- A token recorded less than `dedup_ms` ago has been pushed out by 16 others. -/
  fresh : ∀ pre x mid, before = pre ++ x :: mid → x.2 ≠ .duplicate → x.1.token = e.1.token →
    e.1.now < x.1.now + cfg.dedupMs →
      idrCtrlTokens ≤ (pre ++ mid).countP (recordedSince x.1.now)

/-- The filter as its contract puts it: no token is honoured less than `dedup_ms` after an earlier
arrival of it. -/
def HonouredOnce (cfg : IdrCtrlCfg) (before : List IdrEvent) (e : IdrEvent) : Prop :=
  e.2 = .honoured → ∀ x ∈ before, x.1.token = e.1.token → x.1.now + cfg.dedupMs ≤ e.1.now

/-! ### The oldest entry -/

theorem foldl_oldest (seen : List SeenToken) (is : List ℕ) (o : ℕ) :
    (is.foldl (fun o i => if atMsOf seen i < atMsOf seen o then i else o) o) ∈ o :: is ∧
      ∀ i ∈ o :: is, atMsOf seen
        (is.foldl (fun o i => if atMsOf seen i < atMsOf seen o then i else o) o) ≤
          atMsOf seen i := by
  induction is generalizing o with
  | nil => simp
  | cons j is ih =>
    rw [List.foldl_cons]
    obtain ⟨hmem, hle⟩ := ih (if atMsOf seen j < atMsOf seen o then j else o)
    split_ifs at hmem hle ⊢ with hlt
    · refine ⟨List.mem_cons_of_mem _ hmem, fun i hi => ?_⟩
      obtain rfl | hi := List.mem_cons.mp hi
      · exact (hle j List.mem_cons_self).trans hlt.le
      · exact hle i hi
    · refine ⟨?_, fun i hi => ?_⟩
      · obtain h | h := List.mem_cons.mp hmem
        · exact List.mem_cons.mpr (.inl h)
        · exact List.mem_cons_of_mem _ (List.mem_cons_of_mem _ h)
      · obtain rfl | hi := List.mem_cons.mp hi
        · exact hle i List.mem_cons_self
        · obtain rfl | hi := List.mem_cons.mp hi
          · exact (hle o List.mem_cons_self).trans (not_lt.mp hlt)
          · exact hle i (List.mem_cons_of_mem _ hi)

section Table

variable {seen : List SeenToken}

theorem oldestSeen_lt : oldestSeen seen < idrCtrlTokens := by
  have hmem := (foldl_oldest seen (List.range' 1 (idrCtrlTokens - 1)) 0).1
  rw [List.mem_cons, List.mem_range'_1] at hmem
  rw [oldestSeen, idrCtrlTokens] at *
  omega

theorem oldestSeen_le (hlen : seen.length = idrCtrlTokens) {x : SeenToken} (hx : x ∈ seen) :
    atMsOf seen (oldestSeen seen) ≤ x.atMs := by
  obtain ⟨i, hi, rfl⟩ := List.getElem_of_mem hx
  have hmem : i ∈ 0 :: List.range' 1 (idrCtrlTokens - 1) := by
    rw [List.mem_cons, List.mem_range'_1]
    rw [hlen, idrCtrlTokens] at hi
    rw [idrCtrlTokens]
    omega
  have hle := (foldl_oldest seen _ 0).2 i hmem
  rwa [atMsOf, atMsOf, List.getD_eq_getElem _ _ hi] at hle

/-- An entry stays, or it was the oldest. -/
theorem mem_rememberToken (hlen : seen.length = idrCtrlTokens) (a : IdrArrival) {x : SeenToken}
    (hx : x ∈ seen) :
    x ∈ rememberToken seen a ∨ ∀ y ∈ seen, x.atMs ≤ y.atMs := by
  obtain ⟨i, hi, rfl⟩ := List.getElem_of_mem hx
  by_cases hold : i = oldestSeen seen
  · right
    intro y hy
    have hle := oldestSeen_le hlen hy
    rwa [← hold, atMsOf, List.getD_eq_getElem _ _ hi] at hle
  · left
    rw [rememberToken, List.mem_iff_getElem]
    exact ⟨i, by rwa [List.length_set], by rw [List.getElem_set_ne (Ne.symm hold)]⟩

theorem countP_rememberToken_le (hlen : seen.length = idrCtrlTokens) (a : IdrArrival)
    (p : SeenToken → Bool) :
    (rememberToken seen a).countP p ≤ seen.countP p +
      if p ⟨a.token.take (ctrlMaxPayload - 1), a.now⟩ then 1 else 0 := by
  rw [rememberToken, List.countP_set (hlen ▸ oldestSeen_lt)]
  omega

theorem self_mem_rememberToken (hlen : seen.length = idrCtrlTokens) (a : IdrArrival) :
    ⟨a.token, a.now⟩ ∈ rememberToken seen a := by
  have htake : a.token.take (ctrlMaxPayload - 1) = a.token :=
    List.take_of_length_le (Nat.le_sub_one_of_lt a.length_lt)
  rw [rememberToken, htake]
  exact List.mem_set (hlen ▸ oldestSeen_lt) _

end Table

/-! ### Runs -/

/-- The table and the time of the last request after the events of `log`. -/
structure IdrInv (log : List IdrEvent) (s : IdrFilter) : Prop where
  length : s.seen.length = idrCtrlTokens
  /-- Every entry with a time is that of an arrival. -/
  count : ∀ t, 0 < t →
    s.seen.countP (fun e => decide (t ≤ e.atMs)) ≤ log.countP (recordedSince t)
  /-- A recorded arrival is remembered, or was followed by enough others. -/
  kept : ∀ x ∈ log, x.2 ≠ .duplicate → ⟨x.1.token, x.1.now⟩ ∈ s.seen ∨
    idrCtrlTokens + 1 ≤ log.countP (recordedSince x.1.now)
  last : ∀ x ∈ log, x.2 = .honoured → x.1.now ≤ s.lastHonoredMs

theorem idrInv_init : IdrInv [] .init where
  length := rfl
  count := by
    intro t ht
    have hnone : ¬ (decide (t ≤ (⟨[], 0⟩ : SeenToken).atMs)) = true := by
      rw [decide_eq_true_iff]
      exact not_le.mpr ht
    rw [IdrFilter.init, List.countP_replicate, if_neg hnone]
    exact Nat.zero_le _
  kept := nofun
  last := nofun

section Step

variable {cfg : IdrCtrlCfg} {log : List IdrEvent} {s : IdrFilter} {a : IdrArrival}

theorem recordedSince_of_ne {t : ℤ} {answer : IdrAnswer} (h : answer ≠ .duplicate) :
    recordedSince t (a, answer) = decide (t ≤ a.now) := by
  rw [recordedSince, bne_iff_ne.mpr h, Bool.true_and]

/-- A duplicate leaves all as it is. -/
theorem IdrInv.duplicate (h : IdrInv log s) : IdrInv (log ++ [(a, .duplicate)]) s where
  length := h.length
  count := fun t ht => (h.count t ht).trans (by rw [List.countP_append]; exact Nat.le_add_right _ _)
  kept := by
    intro x hx hrec
    obtain hx | hx := List.mem_append.mp hx
    · refine (h.kept x hx hrec).imp_right fun hmany => ?_
      rw [List.countP_append]
      exact hmany.trans (Nat.le_add_right _ _)
    · rw [List.mem_singleton.mp hx] at hrec
      exact absurd rfl hrec
  last := by
    intro x hx hhon
    obtain hx | hx := List.mem_append.mp hx
    · exact h.last x hx hhon
    · rw [List.mem_singleton.mp hx] at hhon
      cases hhon

/-- Recording an arrival pushes out at most an entry that 15 others are not older than. -/
theorem IdrInv.remember (h : IdrInv log s) (hpos : ∀ x ∈ log, 0 < x.1.now)
    (hsorted : ∀ x ∈ log, x.1.now ≤ a.now) {answer : IdrAnswer} (hans : answer ≠ .duplicate)
    {last : ℤ} (hlast : ∀ x ∈ log ++ [(a, answer)], x.2 = .honoured → x.1.now ≤ last) :
    IdrInv (log ++ [(a, answer)]) ⟨rememberToken s.seen a, last⟩ where
  length := by rw [rememberToken, List.length_set, h.length]
  count := by
    intro t ht
    have hset := countP_rememberToken_le h.length a (fun e => decide (t ≤ e.atMs))
    have hold := h.count t ht
    rw [List.countP_append, List.countP_singleton, recordedSince_of_ne hans]
    exact hset.trans (Nat.add_le_add_right hold _)
  kept := by
    intro x hx hrec
    obtain hx | hx := List.mem_append.mp hx
    · rw [List.countP_append]
      obtain hseen | hmany := h.kept x hx hrec
      · obtain hstay | hmin := mem_rememberToken h.length a hseen
        · exact .inl hstay
        · -- the entry was the oldest of 16, and each of the others is that of an arrival
          right
          have hall : s.seen.countP (fun e => decide (x.1.now ≤ e.atMs)) = s.seen.length :=
            List.countP_eq_length.mpr fun y hy => decide_eq_true (hmin y hy)
          have hcount := h.count x.1.now (hpos x hx)
          rw [hall, h.length] at hcount
          rw [List.countP_singleton, recordedSince_of_ne hans,
            if_pos (decide_eq_true (hsorted x hx))]
          exact Nat.add_le_add_right hcount 1
      · exact .inr (hmany.trans (Nat.le_add_right _ _))
    · rw [List.mem_singleton.mp hx]
      exact .inl (self_mem_rememberToken h.length a)
  last := hlast

/-- A token that is remembered is a duplicate while its entry is younger than `dedup_ms`. -/
theorem isDuplicate_of_mem {t : ℤ} (hmem : ⟨a.token, t⟩ ∈ s.seen) (ht : t ≠ 0)
    (hnow : a.now < t + cfg.dedupMs) : isDuplicate cfg s.seen a = true := by
  refine List.any_eq_true.mpr ⟨_, hmem, ?_⟩
  rw [Bool.and_eq_true, Bool.and_eq_true, bne_iff_ne, decide_eq_true_iff, beq_iff_eq]
  exact ⟨⟨ht, by dsimp only; omega⟩, rfl⟩

theorem IdrInv.allowed (h : IdrInv log s) (hpos : ∀ x ∈ log, 0 < x.1.now)
    (hdup : ¬ isDuplicate cfg s.seen a = true) (hquiet : ¬ a.congested = true)
    (hlast : ¬ (s.lastHonoredMs ≠ 0 ∧ a.now - s.lastHonoredMs < cfg.coalesceMs)) :
    Allowed cfg log (a, .honoured) where
  apart := by
    intro x hx hhon
    have hle := h.last x hx hhon
    have hx0 := hpos x hx
    have hge : ¬ a.now - s.lastHonoredMs < cfg.coalesceMs := fun hlt => hlast ⟨by omega, hlt⟩
    dsimp only
    omega
  quiet := Bool.eq_false_iff.mpr hquiet
  fresh := by
    intro pre x mid hlog hrec htok hnow
    have hx : x ∈ log := by
      rw [hlog]
      exact List.mem_append_right _ List.mem_cons_self
    obtain hseen | hmany := h.kept x hx hrec
    · -- a token that is remembered would have been a duplicate
      rw [htok] at hseen
      exact absurd (isDuplicate_of_mem hseen (hpos x hx).ne' hnow) hdup
    · have hself : recordedSince x.1.now x = true := by
        rw [recordedSince, bne_iff_ne.mpr hrec, decide_eq_true le_rfl, Bool.and_self]
      rw [hlog, List.countP_append, List.countP_cons_of_pos hself] at hmany
      rw [List.countP_append]
      omega

/-- **One call** keeps the invariant, and makes a request only where it is allowed. -/
theorem IdrInv.step (h : IdrInv log s) (hpos : ∀ x ∈ log, 0 < x.1.now)
    (hsorted : ∀ x ∈ log, x.1.now ≤ a.now) :
    ∃ answer, (handleIdr cfg s a).2 = [(a, answer)] ∧
      (answer = .honoured → Allowed cfg log (a, answer)) ∧
      IdrInv (log ++ [(a, answer)]) (handleIdr cfg s a).1 := by
  have hold : ∀ answer : IdrAnswer, answer ≠ .honoured → ∀ x ∈ log ++ [(a, answer)],
      x.2 = .honoured → x.1.now ≤ s.lastHonoredMs := by
    intro answer hans x hx hhon
    obtain hx | hx := List.mem_append.mp hx
    · exact h.last x hx hhon
    · rw [List.mem_singleton.mp hx] at hhon
      exact absurd hhon hans
  rw [handleIdr]
  dsimp only
  split_ifs with hdup hcong hcoal
  · exact ⟨.duplicate, rfl, nofun, h.duplicate⟩
  · exact ⟨.suppressed, rfl, nofun, h.remember hpos hsorted (by decide) (hold _ (by decide))⟩
  · exact ⟨.coalesced, rfl, nofun, h.remember hpos hsorted (by decide) (hold _ (by decide))⟩
  · refine ⟨.honoured, rfl, fun _ => h.allowed hpos hdup hcong hcoal,
      h.remember hpos hsorted (by decide) fun x hx _ => ?_⟩
    obtain hx | hx := List.mem_append.mp hx
    · exact hsorted x hx
    · rw [List.mem_singleton.mp hx]

end Step

/-- **Keyframe requests are filtered**: over every run, a request is made only `coalesce_ms` after
the one before it, never on a congested link, and for no token recorded less than `dedup_ms` ago
unless 16 others have been recorded since. -/
theorem idrLog_allowed (cfg : IdrCtrlCfg) {arrivals : List IdrArrival} (h : InOrder arrivals) :
    (idrLog cfg arrivals).map Prod.fst = arrivals ∧
      Always (fun before e => e.2 = .honoured → Allowed cfg before e) (idrLog cfg arrivals) := by
  suffices hrun : (idrLog cfg arrivals).map Prod.fst = arrivals ∧
      IdrInv (idrLog cfg arrivals) (Mealy.run (handleIdr cfg) .init arrivals).1 ∧
      Always (fun before e => e.2 = .honoured → Allowed cfg before e) (idrLog cfg arrivals) from
    ⟨hrun.1, hrun.2.2⟩
  revert h
  refine Mealy.run_induction (handleIdr cfg) (motive := fun is s log => InOrder is →
    log.map Prod.fst = is ∧ IdrInv log s ∧
      Always (fun before e => e.2 = .honoured → Allowed cfg before e) log)
    (fun _ => ⟨rfl, idrInv_init, always_nil⟩) (fun is a s log ih hin => ?_) arrivals
  obtain ⟨hmap, hinv, halways⟩ := ih
    ⟨fun x hx => hin.pos x (List.mem_append_left _ hx), (List.pairwise_append.mp hin.sorted).1⟩
  have hmem : ∀ x ∈ log, x.1 ∈ is := fun x hx => hmap ▸ List.mem_map_of_mem hx
  have hpos : ∀ x ∈ log, 0 < x.1.now := fun x hx =>
    hin.pos x.1 (List.mem_append_left _ (hmem x hx))
  have hsorted : ∀ x ∈ log, x.1.now ≤ a.now := fun x hx =>
    (List.pairwise_append.mp hin.sorted).2.2 x.1 (hmem x hx) a (List.mem_singleton_self a)
  obtain ⟨answer, hout, hallowed, hinv⟩ := @IdrInv.step cfg _ _ _ hinv hpos hsorted
  rw [hout]
  exact ⟨by rw [List.map_append, hmap]; rfl, hinv, halways.concat hallowed⟩

/-- What `tx` runs with. -/
def IdrCtrlCfg.shipped : IdrCtrlCfg where
  coalesceMs := 250
  dedupMs := 2000

/-- A token that comes again while it is ignored, and then once more. -/
def ignoredRepeat : List IdrArrival :=
  [⟨[65], 1, false, by decide⟩, ⟨[65], 1500, false, by decide⟩, ⟨[65], 2100, false, by decide⟩]

/-- A token that comes again after 16 others. -/
def crowdedRepeat : List IdrArrival :=
  ⟨[65], 1, false, by decide⟩ ::
    (List.range 16).map
      (fun i => ⟨[66, UInt8.ofNat (97 + i)], 2 + i, false, (by decide : 2 < 64)⟩) ++
    [⟨[65], 500, false, by decide⟩]

theorem idrLog_allowed_crowdedRepeat :
    (idrLog .shipped crowdedRepeat).map Prod.fst = crowdedRepeat ∧
      Always (fun before e => e.2 = .honoured → Allowed .shipped before e)
        (idrLog .shipped crowdedRepeat) :=
  idrLog_allowed .shipped ⟨by decide, by decide⟩

instance (cfg : IdrCtrlCfg) (before : List IdrEvent) (e : IdrEvent) :
    Decidable (HonouredOnce cfg before e) :=
  inferInstanceAs (Decidable (e.2 = .honoured → _))

/-- An ignored repetition does not keep a token ignored, and 16 other tokens make it new. -/
theorem token_honoured_again :
    (InOrder ignoredRepeat ∧
      ¬ Always (HonouredOnce .shipped) (idrLog .shipped ignoredRepeat)) ∧
    (InOrder crowdedRepeat ∧
      ¬ Always (HonouredOnce .shipped) (idrLog .shipped crowdedRepeat)) :=
  ⟨⟨⟨by decide, by decide⟩, by decide⟩, ⟨⟨by decide, by decide⟩, by decide⟩⟩

end Ar8030
