import Ar8030Transport.Library.LittleEndian
import Ar8030Transport.Library.Leases
import Ar8030Transport.Library.Mealy

/-!
# The sidecar server

`rx/sidecar_srv.c` hands the datagrams of the air unit's timing sidecar to those who have
subscribed. `subscribe` keeps a table of `SIDECAR_MAX_SUBS` entries that expire, and
`SidecarSrv.publish` is `sidecar_srv_publish`: it sends a datagram to every entry that has not.

The table is one of leases (`table_subscribe`). Times are those of the monotonic clock, which
does not go back.
-/

namespace Ar8030

/-- `SIDECAR_MAX_SUBS`. -/
def sidecarMaxSubs : ℕ := 4

/-- `SIDECAR_SUB_TTL_US`. -/
def sidecarSubTtlUs : ℕ := 5 * 1000000

/-- `struct sockaddr_in`, all of family `AF_INET`. -/
structure SockaddrIn where
  sAddr : UInt32
  sinPort : UInt16
  deriving DecidableEq, Repr

/-- An entry of `subs`. -/
structure SidecarSub where
  addr : SockaddrIn
  expiresUs : ℕ
  deriving DecidableEq, Repr

/-- `sidecar_srv_t`. -/
structure SidecarSrv where
  fd : ℤ
  subs : Fin sidecarMaxSubs → SidecarSub
  encodeAvgUs : ℕ
  published : ℕ

/-- `sidecar_srv_open`, with the socket it got, or -1. -/
def sidecarSrvOpen (fd : ℤ) : SidecarSrv where
  fd := fd
  subs _ := ⟨⟨0, 0⟩, 0⟩
  encodeAvgUs := 0
  published := 0

/-- The slot for a subscriber: its own if it is live, else a free one. -/
def SidecarSrv.slotFor (s : SidecarSrv) (addr : SockaddrIn) (now : ℕ) :
    Option (Fin sidecarMaxSubs) :=
  ((List.finRange sidecarMaxSubs).find? fun i =>
      now < (s.subs i).expiresUs ∧ (s.subs i).addr.sAddr = addr.sAddr ∧
        (s.subs i).addr.sinPort = addr.sinPort).or
    ((List.finRange sidecarMaxSubs).find? fun i => (s.subs i).expiresUs ≤ now)

/-- `subscribe`. -/
def SidecarSrv.subscribe (s : SidecarSrv) (addr : SockaddrIn) (now : ℕ) : SidecarSrv :=
  match s.slotFor addr now with
  | some i => { s with subs := Function.update s.subs i ⟨addr, now + sidecarSubTtlUs⟩ }
  | none => s

/-- `sizeof(struct sidecar_frame)`. -/
def sidecarFrameSize : ℕ := 52

/-- A 64-bit field in network byte order. -/
def sidecarBe64 (off : ℕ) (dgram : List UInt8) : ℕ :=
  LittleEndian.decode ((dgram.drop off).take 8).reverse

/-- The encode time in a `MSG_FRAME`, if it is plausible. -/
def encodeTimeUs (dgram : List UInt8) : Option ℕ :=
  let capture := sidecarBe64 36 dgram
  let ready := sidecarBe64 24 dgram
  if sidecarFrameSize ≤ dgram.length ∧ capture ≠ 0 ∧ capture < ready ∧
      ready - capture < 200000 then
    some (ready - capture)
  else none

/-- The average of the encode times, weighted by 7 to 1. -/
def SidecarSrv.trackEncode (s : SidecarSrv) (dgram : List UInt8) : SidecarSrv :=
  match encodeTimeUs dgram with
  | some enc =>
    { s with
      encodeAvgUs := if s.encodeAvgUs = 0 then enc else (s.encodeAvgUs * 7 + enc) / 8 }
  | none => s

/-- `sidecar_srv_publish`, and what it sends to whom. -/
def SidecarSrv.publish (s : SidecarSrv) (dgram : List UInt8) (now : ℕ) :
    SidecarSrv × List (SockaddrIn × List UInt8) :=
  ({ s.trackEncode dgram with published := s.published + 1 },
    if s.fd < 0 then []
    else
      ((List.finRange sidecarMaxSubs).filter fun i => now < (s.subs i).expiresUs).map fun i =>
        ((s.subs i).addr, dgram))

/-- What happens to the server; each holds its mutex. -/
inductive SidecarAction where
  | subscribe (addr : SockaddrIn) (now : ℕ)
  | publish (dgram : List UInt8) (now : ℕ)
  deriving DecidableEq, Repr

/-- The call of `subscribe` an action is. -/
def SidecarAction.subscribe? : SidecarAction → Option (SockaddrIn × ℕ)
  | .subscribe addr now => some (addr, now)
  | .publish _ _ => none

/-- One action. -/
def sidecarStep (s : SidecarSrv) : SidecarAction → SidecarSrv × List (SockaddrIn × List UInt8)
  | .subscribe addr now => (s.subscribe addr now, [])
  | .publish dgram now => s.publish dgram now

/-- A run of the server from its start. -/
def sidecarRun (fd : ℤ) (actions : List SidecarAction) :
    SidecarSrv × List (SockaddrIn × List UInt8) :=
  Mealy.run sidecarStep (sidecarSrvOpen fd) actions

/-! ### What is required -/

/-- The address has a live entry. -/
def SidecarSrv.Live (s : SidecarSrv) (t : ℕ) (addr : SockaddrIn) : Prop :=
  ∃ i, t < (s.subs i).expiresUs ∧ (s.subs i).addr = addr

/-- The live entries have different addresses. -/
def SidecarSrv.Unique (s : SidecarSrv) (t : ℕ) : Prop :=
  ∀ i j, t < (s.subs i).expiresUs → t < (s.subs j).expiresUs →
    (s.subs i).addr = (s.subs j).addr → i = j

/-- A subscriber finds its entry live, or a free one. -/
def SidecarSrv.Finds (s : SidecarSrv) (addr : SockaddrIn) (now : ℕ) : Prop :=
  s.Live now addr ∨ ∃ i, (s.subs i).expiresUs ≤ now

/-! ### The table of leases -/

/-- The subscriptions as leases. -/
def SidecarSrv.table (s : SidecarSrv) : LeaseTable SockaddrIn sidecarMaxSubs :=
  fun i => ⟨(s.subs i).addr, (s.subs i).expiresUs⟩

/-- **A subscription** is a request for a lease. -/
theorem table_subscribe (s : SidecarSrv) (addr : SockaddrIn) (now : ℕ) :
    (s.subscribe addr now).table = s.table.renew sidecarSubTtlUs addr now := by
  have hkey : ∀ a : SockaddrIn, a.sAddr = addr.sAddr ∧ a.sinPort = addr.sinPort ↔ a = addr := by
    rintro ⟨ip, port⟩
    cases addr
    simp
  have hown : (fun i => decide (now < (s.subs i).expiresUs ∧
      (s.subs i).addr.sAddr = addr.sAddr ∧ (s.subs i).addr.sinPort = addr.sinPort)) =
      fun i => decide (now < (s.table i).ends ∧ (s.table i).key = addr) := by
    funext i
    exact decide_eq_decide.mpr (and_congr_right fun _ => hkey (s.subs i).addr)
  have hslot : s.slotFor addr now = s.table.slotFor addr now := by
    rw [SidecarSrv.slotFor, LeaseTable.slotFor, hown]
    rfl
  rw [SidecarSrv.subscribe, LeaseTable.renew, hslot]
  cases s.table.slotFor addr now with
  | none => rfl
  | some i =>
    funext j
    by_cases hj : j = i
    · subst hj
      simp [SidecarSrv.table]
    · simp [SidecarSrv.table, Function.update_of_ne hj]

theorem table_publish (s : SidecarSrv) (dgram : List UInt8) (now : ℕ) :
    (s.publish dgram now).1.table = s.table := by
  have hsubs : (s.trackEncode dgram).subs = s.subs := by
    rw [SidecarSrv.trackEncode]
    cases encodeTimeUs dgram <;> rfl
  funext i
  show Lease.mk ((s.trackEncode dgram).subs i).addr ((s.trackEncode dgram).subs i).expiresUs = _
  rw [hsubs]
  rfl

section Run

variable (fd : ℤ) (actions : List SidecarAction)

/-- The run on the leases: datagrams do not touch them. -/
theorem table_sidecarRun : (sidecarRun fd actions).1.table =
    LeaseTable.run sidecarSubTtlUs (sidecarSrvOpen fd).table
      (actions.filterMap SidecarAction.subscribe?) := by
  induction actions using List.reverseRecOn with
  | nil => rfl
  | append_singleton actions a ih =>
    rw [sidecarRun, Mealy.run_concat, List.filterMap_append]
    cases a with
    | subscribe addr now =>
      rw [sidecarStep, table_subscribe]
      exact (congrArg (LeaseTable.renew sidecarSubTtlUs · addr now) ih).trans
        (LeaseTable.run_concat (actions.filterMap SidecarAction.subscribe?) (addr, now)).symm
    | publish dgram now =>
      rw [sidecarStep, table_publish]
      refine ih.trans ?_
      rw [List.filterMap_cons_none (show SidecarAction.subscribe? (.publish dgram now) = none from
        rfl), List.filterMap_nil, List.append_nil]

end Run

/-! ### Subscribers are served -/

/-- What holds of the server at a time: a datagram goes once to each live subscriber, and the next
subscription takes no live entry from another and is only ignored for want of a free one. -/
structure SidecarSrv.Serves (s : SidecarSrv) (t : ℕ) : Prop where
  unique : s.Unique t
  sends : 0 ≤ s.fd → ∀ dgram, ((s.publish dgram t).2.map Prod.fst).Nodup ∧
    ∀ addr d, (addr, d) ∈ (s.publish dgram t).2 ↔ s.Live t addr ∧ d = dgram
  kept : ∀ addr i, t < (s.subs i).expiresUs → (s.subs i).addr ≠ addr →
    (s.subscribe addr t).subs i = s.subs i
  ignored : ∀ addr, ¬s.Live t addr → s.subscribe addr t = s → ∀ i, t < (s.subs i).expiresUs

/-- One datagram, to every live entry. -/
theorem publish_sends {s : SidecarSrv} {t : ℕ} (h : s.Unique t) (hfd : 0 ≤ s.fd)
    (dgram : List UInt8) :
    ((s.publish dgram t).2.map Prod.fst).Nodup ∧
      ∀ addr d, (addr, d) ∈ (s.publish dgram t).2 ↔ s.Live t addr ∧ d = dgram := by
  have hsent : (s.publish dgram t).2 =
      ((List.finRange sidecarMaxSubs).filter fun i => t < (s.subs i).expiresUs).map fun i =>
        ((s.subs i).addr, dgram) := if_neg (not_lt.mpr hfd)
  rw [hsent]
  constructor
  · rw [List.map_map]
    refine List.Nodup.map_on (fun i hi j hj heq => ?_)
      ((List.nodup_finRange sidecarMaxSubs).filter _)
    exact h i j (by simpa using hi) (by simpa using hj) heq
  · intro addr d
    simp only [List.mem_map, List.mem_filter, List.mem_finRange, true_and, decide_eq_true_eq,
      Prod.mk.injEq, SidecarSrv.Live]
    constructor
    · rintro ⟨i, hi, haddr, rfl⟩
      exact ⟨⟨i, hi, haddr⟩, rfl⟩
    · rintro ⟨⟨i, hi, haddr⟩, rfl⟩
      exact ⟨i, hi, haddr, rfl⟩

/-- A server whose live entries have different addresses serves. -/
theorem SidecarSrv.Unique.serves {s : SidecarSrv} {t : ℕ} (h : s.Unique t) : s.Serves t where
  unique := h
  sends hfd dgram := publish_sends h hfd dgram
  kept addr i hi hne := by
    have hstays : s.table.renew sidecarSubTtlUs addr t i = s.table i :=
      LeaseTable.renew_of_ne hi hne
    rw [← table_subscribe] at hstays
    obtain ⟨haddr, hexpires⟩ := Lease.mk.inj hstays
    cases hsub : (s.subscribe addr t).subs i
    cases hold : s.subs i
    rw [hsub, hold] at haddr hexpires
    exact congrArg₂ _ haddr hexpires
  ignored addr hnot hsame i := by
    by_contra hfree
    have hgrants : s.table.Grants addr t := .inr ⟨i, Nat.not_lt.mp hfree⟩
    -- it would have been granted, and be live now
    have hlive : (s.subscribe addr t).Live t addr := by
      have hdistinct : s.table.Distinct t := h
      have hholds : (s.table.renew sidecarSubTtlUs addr t).Holds t addr :=
        (LeaseTable.holds_renew_self hdistinct le_rfl).mpr
          ⟨hgrants, Nat.lt_add_of_pos_right (by decide)⟩
      rwa [← table_subscribe] at hholds
    rw [hsame] at hlive
    exact hnot hlive

section Served

variable {fd : ℤ} {actions : List SidecarAction} {t : ℕ}

/-- **Subscriptions stay unique and are honoured for their whole time**, over every run of the
server. -/
theorem subscriptions_honoured
    (hcalls : (actions.filterMap SidecarAction.subscribe?).Pairwise fun c d => c.2 ≤ d.2)
    (hle : ∀ c ∈ actions.filterMap SidecarAction.subscribe?, c.2 ≤ t) :
    (sidecarRun fd actions).1.Serves t ∧
      ∀ pre addr now post, actions = pre ++ .subscribe addr now :: post →
        (∀ a ∈ post, ∀ c ∈ a.subscribe?, c.1 ≠ addr) → (sidecarRun fd pre).1.Finds addr now →
          t < now + sidecarSubTtlUs → (sidecarRun fd actions).1.Live t addr := by
  have hempty : ∀ i, ((sidecarSrvOpen fd).table i).ends = 0 := fun _ => rfl
  constructor
  · have hdistinct : (sidecarRun fd actions).1.table.Distinct t := by
      rw [table_sidecarRun]
      exact LeaseTable.distinct_run hempty hcalls hle
    exact SidecarSrv.Unique.serves hdistinct
  · intro pre addr now post hsplit hlast hfinds hlt
    show (sidecarRun fd actions).1.table.Holds t addr
    rw [table_sidecarRun, LeaseTable.holds_run_iff hempty hcalls hle]
    refine ⟨pre.filterMap SidecarAction.subscribe?, now,
      post.filterMap SidecarAction.subscribe?, ?_, ?_, ?_, hlt⟩
    · rw [hsplit, List.filterMap_append]
      rfl
    · intro c hc
      obtain ⟨a, ha, hac⟩ := List.mem_filterMap.mp hc
      exact hlast a ha c hac
    · rw [← table_sidecarRun]
      exact hfinds

/-- Two subscribers, of which one refreshes in time. -/
def refreshing : List SidecarAction :=
  [.subscribe ⟨1, 5600⟩ 0, .subscribe ⟨2, 5600⟩ 1000000, .subscribe ⟨1, 5600⟩ 4000000]

theorem subscriptions_honoured_refresh :
    (sidecarRun 3 refreshing).1.Serves 6000000 ∧
      (sidecarRun 3 refreshing).1.Live 6000000 ⟨1, 5600⟩ := by
  obtain ⟨hserves, hlive⟩ := @subscriptions_honoured 3 refreshing 6000000 (by decide) (by decide)
  exact ⟨hserves, hlive [.subscribe ⟨1, 5600⟩ 0, .subscribe ⟨2, 5600⟩ 1000000] ⟨1, 5600⟩ 4000000
    [] rfl (by simp) (.inl ⟨⟨0, by decide⟩, by decide, by decide⟩) (by decide)⟩

end Served

end Ar8030
