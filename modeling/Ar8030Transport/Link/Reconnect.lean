import Mathlib.Logic.Function.Basic
import Ar8030Transport.Library.Handles
import Ar8030Transport.Library.Trace

/-!
# The link to the daemon, and its reconnect

`src/common/ar8030_link.c`: the owner of the link, the main thread of a program, connects, opens
the data socket, closes and reconnects, while the rate control's thread loads `link->dev` for its
own calls. The machine takes one access to `dev` or `sockfd`, or one call of the SDK, at a time.

What is published in `dev` is never a closed handle (`Safe`), because `ar8030_link_close()` takes
it out before it closes it; `sockfd` is closed first and cleared afterwards. A thread that loaded
the handle before may still hold it when it is closed (`live_since_load`).
-/

namespace Ar8030

open Trace

/-! ### The machine -/

/-- `ar8030_link_t`, with `none` for `NULL` and for the descriptor -1. -/
structure Link where
  host : Option ℕ
  dev : Option ℕ
  sockfd : Option ℕ
  deriving DecidableEq, Repr

/-- No host, no device, no socket. -/
def Link.zeroed : Link := ⟨none, none, none⟩

/-- The functions that make one `bb_ioctl()` on the device. -/
inductive LinkIoctl where
  | forceCloseSocket
  | forceCloseAllSockets
  | isAlive
  deriving DecidableEq, Repr

/-- What the function returns for what `bb_ioctl()` did, or without a device. -/
def LinkIoctl.result : LinkIoctl → Option ℤ → ℤ
  | .isAlive, none => 0
  | .isAlive, some ret => if ret = 0 then 1 else 0
  | _, none => -1
  | _, some ret => ret

/-- Where the owner is. -/
inductive OwnerAt where
  /-- Between two calls, with what the last one returned. -/
  | idle (ret : ℤ)
  /-- `ar8030_link_connect`, before it clears `dev`. -/
  | resetDev
  /-- Before it clears the other two fields. -/
  | resetRest
  /-- Before `bb_host_connect`. -/
  | hostConnect
  /-- Before `bb_dev_getlist`. -/
  | getlist
  /-- Before `bb_dev_open`. -/
  | devOpen
  /-- Before it publishes the device. -/
  | publish (dev : ℕ)
  /-- `ar8030_link_connect_retry` behind an attempt that failed. -/
  | failed
  /-- `ar8030_link_open_socket`, before `bb_socket_open`. -/
  | socketOpen (dev : ℕ)
  /-- Before it stores the descriptor. -/
  | storeSockfd (fd : ℕ)
  /-- Before a `bb_ioctl`. -/
  | ioctl (call : LinkIoctl) (dev : ℕ)
  /-- `ar8030_link_close`, called by itself or for a reconnect. -/
  | socketClose (again : Bool)
  /-- Before it clears `sockfd`. -/
  | clearSockfd (again : Bool)
  /-- Before the exchange of `dev`. -/
  | exchange (again : Bool)
  /-- Before `bb_dev_close`. -/
  | devClose (again : Bool) (dev : ℕ)
  /-- Before `bb_host_disconnect`. -/
  | disconnect (again : Bool)
  deriving DecidableEq, Repr

variable {T : Type*}

/-- The link, where its owner is, the SDK's handles, and what the other threads have loaded. -/
structure LinkSys (T : Type*) where
  link : Link
  owner : OwnerAt
  hosts : HandleTable
  devs : HandleTable
  socks : HandleTable
  loaded : T → Option ℕ

/-- Before the first call, which in every program is `ar8030_link_connect_retry`: it sets the
fields, so that it does not matter what they are until then (`sockfd` is 0 in a zeroed C
structure, which would be a socket). -/
def LinkSys.start : LinkSys T where
  link := .zeroed
  owner := .idle 0
  hosts := .empty
  devs := .empty
  socks := .empty
  loaded := fun _ => none

/-- What the world outside decides at a step: whether the SDK's call succeeds, what `bb_ioctl`
returns, and whether the stop flag is set. -/
structure LinkAnswer where
  ok : Bool
  ret : ℤ
  stop : Bool
  deriving DecidableEq, Repr

/-- What can happen next. -/
inductive LinkMove (T : Type*) where
  | connectRetry
  | openSocket
  | ioctl (call : LinkIoctl)
  | close
  | reconnectRetry
  /-- The owner goes on in the function it is in. -/
  | next (ans : LinkAnswer)
  /-- A thread loads `link->dev`. -/
  | load (t : T)
  deriving DecidableEq, Repr

/-- A failed attempt of `ar8030_link_connect` hangs up. -/
def LinkSys.hangUp (s : LinkSys T) : LinkSys T :=
  match s.link.host with
  | none => s
  | some h => { s with hosts := s.hosts.close h, link.host := none }

/-- `ar8030_link_close` is through: the owner returns, or connects again. -/
def OwnerAt.afterClose (again : Bool) : OwnerAt := if again then .resetDev else .idle 0

/-- The owner goes on. -/
def LinkSys.next (s : LinkSys T) (ans : LinkAnswer) : LinkSys T :=
  match s.owner with
  | .idle _ => s
  | .resetDev => { s with link.dev := none, owner := .resetRest }
  | .resetRest => { s with link.host := none, link.sockfd := none, owner := .hostConnect }
  | .hostConnect =>
    if ans.ok then
      { s with hosts := s.hosts.openNext, link.host := some s.hosts.opened, owner := .getlist }
    else { s with owner := .failed }
  | .getlist =>
    if ans.ok then { s with owner := .devOpen } else { s.hangUp with owner := .failed }
  | .devOpen =>
    if ans.ok then { s with devs := s.devs.openNext, owner := .publish s.devs.opened }
    else { s.hangUp with owner := .failed }
  | .publish dev => { s with link.dev := some dev, owner := .idle 0 }
  | .failed => { s with owner := if ans.stop then .idle (-1) else .resetDev }
  | .socketOpen _ =>
    if ans.ok then { s with socks := s.socks.openNext, owner := .storeSockfd s.socks.opened }
    else { s with owner := .idle (-1) }
  | .storeSockfd fd => { s with link.sockfd := some fd, owner := .idle 0 }
  | .ioctl call _ => { s with owner := .idle (call.result (some ans.ret)) }
  | .socketClose again =>
    match s.link.sockfd with
    | none => { s with owner := .exchange again }
    | some fd => { s with socks := s.socks.close fd, owner := .clearSockfd again }
  | .clearSockfd again => { s with link.sockfd := none, owner := .exchange again }
  | .exchange again =>
    match s.link.dev with
    | none => { s with owner := .disconnect again }
    | some dev => { s with link.dev := none, owner := .devClose again dev }
  | .devClose again dev => { s with devs := s.devs.close dev, owner := .disconnect again }
  | .disconnect again => { s.hangUp with owner := .afterClose again }

/-- A function of the link is called: the owner is where its first access is made, or, where that
is the load of `dev`, behind it. -/
def LinkSys.call (s : LinkSys T) (first : Option ℕ → OwnerAt) : LinkSys T :=
  match s.owner with
  | .idle _ => { s with owner := first s.link.dev }
  | _ => s

/-- `ar8030_link_open_socket` behind its load. -/
def openSocketAt : Option ℕ → OwnerAt
  | none => .idle (-1)
  | some dev => .socketOpen dev

/-- `ar8030_link_force_close_socket`, `ar8030_link_force_close_all_sockets` and
`ar8030_link_is_alive` behind their load. -/
def ioctlAt (call : LinkIoctl) : Option ℕ → OwnerAt
  | none => .idle (call.result none)
  | some dev => .ioctl call dev

/-- One move. -/
def LinkSys.step [DecidableEq T] (s : LinkSys T) : LinkMove T → LinkSys T
  | .connectRetry => s.call fun _ => .resetDev
  | .openSocket => s.call openSocketAt
  | .ioctl call => s.call (ioctlAt call)
  | .close => s.call fun _ => .socketClose false
  | .reconnectRetry => s.call fun _ => .socketClose true
  | .next ans => s.next ans
  | .load t => { s with loaded := Function.update s.loaded t s.link.dev }

/-- What a list of moves comes to. -/
def linkRun [DecidableEq T] (moves : List (LinkMove T)) : LinkSys T :=
  moves.foldl LinkSys.step .start

/-! ### Closed handles are not published -/

/-- What holds where the owner is. -/
def LinkSys.Placed (s : LinkSys T) : Prop :=
  match s.owner with
  | .publish dev | .devClose _ dev => s.devs.Live dev ∧ s.link.dev = none
  | .resetRest | .hostConnect | .getlist | .devOpen | .disconnect _ => s.link.dev = none
  | .socketOpen dev | .ioctl _ dev => s.link.dev = some dev
  | .storeSockfd fd => s.socks.Live fd
  | .clearSockfd _ => ∀ fd, s.link.sockfd = some fd → ¬ s.socks.Live fd
  | _ => True

/-- Only open handles are closed, and the link names open handles, except for the descriptor that
`ar8030_link_close` has closed and not cleared yet. -/
structure Safe (s : LinkSys T) : Prop where
  hosts : s.hosts.Sound
  devs : s.devs.Sound
  socks : s.socks.Sound
  host_live : ∀ h, s.link.host = some h → s.hosts.Live h
  dev_live : ∀ d, s.link.dev = some d → s.devs.Live d
  sockfd_live : (∀ again, s.owner ≠ .clearSockfd again) →
    ∀ fd, s.link.sockfd = some fd → s.socks.Live fd
  placed : s.Placed

variable {s : LinkSys T}

theorem Safe.start : Safe (LinkSys.start : LinkSys T) where
  hosts := HandleTable.sound_empty
  devs := HandleTable.sound_empty
  socks := HandleTable.sound_empty
  host_live := by simp [LinkSys.start, Link.zeroed]
  dev_live := by simp [LinkSys.start, Link.zeroed]
  sockfd_live := by simp [LinkSys.start, Link.zeroed]
  placed := trivial

/-- The owner goes on and touches nothing. -/
theorem Safe.move (h : Safe s) (hclear : ∀ again, s.owner ≠ .clearSockfd again) {owner : OwnerAt}
    (hplaced : LinkSys.Placed { s with owner }) : Safe { s with owner } :=
  { h with sockfd_live := fun _ => h.sockfd_live hclear, placed := hplaced }

@[simp]
theorem hangUp_owner : s.hangUp.owner = s.owner := by
  unfold LinkSys.hangUp
  split <;> rfl

@[simp]
theorem hangUp_devs : s.hangUp.devs = s.devs := by
  unfold LinkSys.hangUp
  split <;> rfl

@[simp]
theorem hangUp_socks : s.hangUp.socks = s.socks := by
  unfold LinkSys.hangUp
  split <;> rfl

@[simp]
theorem hangUp_loaded : s.hangUp.loaded = s.loaded := by
  unfold LinkSys.hangUp
  split <;> rfl

@[simp]
theorem hangUp_link : s.hangUp.link = { s.link with host := none } := by
  unfold LinkSys.hangUp
  split
  · next heq => rw [← heq]
  · rfl

theorem Safe.hangUp (h : Safe s) : Safe s.hangUp where
  hosts := by
    unfold LinkSys.hangUp
    split
    · exact h.hosts
    · next host hhost => exact h.hosts.close (h.host_live host hhost)
  devs := by simpa using h.devs
  socks := by simpa using h.socks
  host_live := by simp
  dev_live := by simpa using h.dev_live
  sockfd_live := by simpa using h.sockfd_live
  placed := by simpa [LinkSys.Placed] using h.placed

/-- The owner goes on where it has not closed a socket just now. -/
theorem Safe.next (h : Safe s) (ans : LinkAnswer) : Safe (s.next ans) := by
  obtain ⟨link, owner, hosts, devs, socks, loaded⟩ := s
  have hplaced := h.placed
  cases owner with
  | idle ret => exact h
  | resetDev =>
    exact { h with
      dev_live := by simp [LinkSys.next]
      sockfd_live := fun _ => h.sockfd_live (by simp)
      placed := rfl }
  | resetRest =>
    exact { h with
      host_live := by simp [LinkSys.next]
      sockfd_live := by simp [LinkSys.next]
      placed := hplaced }
  | hostConnect =>
    dsimp only [LinkSys.next]
    split
    · exact { h with
        hosts := h.hosts.openNext
        host_live := fun host hhost => Option.some.inj hhost ▸ h.hosts.live_opened
        sockfd_live := fun _ => h.sockfd_live (by simp)
        placed := hplaced }
    · exact h.move (by simp) trivial
  | getlist =>
    dsimp only [LinkSys.next]
    split
    · exact h.move (by simp) hplaced
    · exact h.hangUp.move (by simp) trivial
  | devOpen =>
    dsimp only [LinkSys.next]
    split
    · exact { h with
        devs := h.devs.openNext
        dev_live := fun d hd => (h.dev_live d hd).openNext
        sockfd_live := fun _ => h.sockfd_live (by simp)
        placed := ⟨h.devs.live_opened, hplaced⟩ }
    · exact h.hangUp.move (by simp) trivial
  | publish dev =>
    exact { h with
      dev_live := fun d hd => Option.some.inj hd ▸ hplaced.1
      sockfd_live := fun _ => h.sockfd_live (by simp)
      placed := trivial }
  | failed =>
    dsimp only [LinkSys.next]
    split <;> exact h.move (by simp) trivial
  | socketOpen dev =>
    dsimp only [LinkSys.next]
    split
    · exact { h with
        socks := h.socks.openNext
        sockfd_live := fun _ fd hfd => (h.sockfd_live (by simp) fd hfd).openNext
        placed := h.socks.live_opened }
    · exact h.move (by simp) trivial
  | storeSockfd fd =>
    exact { h with
      sockfd_live := fun _ k hk => Option.some.inj hk ▸ hplaced
      placed := trivial }
  | ioctl call dev => exact h.move (by simp) trivial
  | socketClose again =>
    cases hfd : link.sockfd with
    | none =>
      simp only [LinkSys.next, hfd]
      exact h.move (by simp) trivial
    | some fd =>
      simp only [LinkSys.next, hfd]
      exact { h with
        socks := h.socks.close (h.sockfd_live (by simp) fd hfd)
        sockfd_live := fun hclear => absurd rfl (hclear again)
        placed := fun k hk => Option.some.inj (hfd.symm.trans hk) ▸ HandleTable.not_live_close }
  | clearSockfd again =>
    exact { h with
      sockfd_live := by simp [LinkSys.next]
      placed := trivial }
  | exchange again =>
    cases hdev : link.dev with
    | none =>
      simp only [LinkSys.next, hdev]
      exact h.move (by simp) hdev
    | some dev =>
      simp only [LinkSys.next, hdev]
      exact { h with
        dev_live := by simp
        sockfd_live := fun _ => h.sockfd_live (by simp)
        placed := ⟨h.dev_live dev hdev, rfl⟩ }
  | devClose again dev =>
    obtain ⟨hlive, hnone⟩ := hplaced
    exact { h with
      devs := h.devs.close hlive
      dev_live := fun d hd => absurd (hnone.symm.trans hd) (by simp)
      sockfd_live := fun _ => h.sockfd_live (by simp)
      placed := hnone }
  | disconnect again =>
    refine h.hangUp.move (by simp) ?_
    cases again <;> trivial

theorem Safe.call (h : Safe s) (first : Option ℕ → OwnerAt)
    (hplaced : LinkSys.Placed { s with owner := first s.link.dev }) : Safe (s.call first) := by
  unfold LinkSys.call
  split
  · next ret howner => exact h.move (by simp [howner]) hplaced
  · exact h

theorem Safe.step [DecidableEq T] (h : Safe s) (m : LinkMove T) : Safe (s.step m) := by
  cases m with
  | connectRetry => exact h.call (fun _ => .resetDev) trivial
  | close => exact h.call (fun _ => .socketClose false) trivial
  | reconnectRetry => exact h.call (fun _ => .socketClose true) trivial
  | openSocket =>
    refine h.call openSocketAt ?_
    cases hdev : s.link.dev with
    | none => trivial
    | some dev => exact hdev
  | ioctl call =>
    refine h.call (ioctlAt call) ?_
    cases hdev : s.link.dev with
    | none => trivial
    | some dev => exact hdev
  | next ans => exact h.next ans
  | load t => exact { h with }

theorem linkRun_concat [DecidableEq T] (moves : List (LinkMove T)) (m : LinkMove T) :
    linkRun (moves ++ [m]) = (linkRun moves).step m := by
  rw [linkRun, List.foldl_concat]
  rfl

/-- Every state a run comes to is safe, whatever the calls and their order. -/
theorem safe_linkRun [DecidableEq T] (moves : List (LinkMove T)) : Safe (linkRun moves) := by
  induction moves using List.reverseRecOn with
  | nil => exact Safe.start
  | append_singleton moves m ih =>
    rw [linkRun_concat]
    exact ih.step m

/-! ### A handle that was loaded -/

/-- The move is the `bb_dev_close` of the handle. -/
def LinkSys.Closes (s : LinkSys T) (dev : ℕ) : LinkMove T → Prop
  | .next _ => ∃ again, s.owner = .devClose again dev
  | _ => False

@[simp]
theorem call_devs {first : Option ℕ → OwnerAt} : (s.call first).devs = s.devs := by
  unfold LinkSys.call
  split <;> rfl

@[simp]
theorem call_loaded {first : Option ℕ → OwnerAt} : (s.call first).loaded = s.loaded := by
  unfold LinkSys.call
  split <;> rfl

@[simp]
theorem next_loaded (ans : LinkAnswer) : (s.next ans).loaded = s.loaded := by
  unfold LinkSys.next
  repeat' split
  all_goals simp

/-- What one step of the owner does to a device that was opened before. -/
theorem live_next {d : ℕ} (hd : d < s.devs.opened) (ans : LinkAnswer) :
    (s.next ans).devs.Live d ↔ s.devs.Live d ∧ ∀ again, s.owner ≠ .devClose again d := by
  cases howner : s.owner with
  | devOpen =>
    cases hok : ans.ok with
    | false => simp [LinkSys.next, howner, hok]
    | true =>
      simp only [LinkSys.next, howner, hok, if_true]
      refine ⟨fun h => ⟨h.of_openNext.resolve_right hd.ne, by simp⟩, fun h => h.1.openNext⟩
  | devClose again dev =>
    simp [LinkSys.next, howner, HandleTable.live_close, eq_comm]
  | socketClose again => cases hfd : s.link.sockfd <;> simp [LinkSys.next, howner, hfd]
  | exchange again => cases hdev : s.link.dev <;> simp [LinkSys.next, howner, hdev]
  | hostConnect | getlist | socketOpen =>
    cases hok : ans.ok <;> simp [LinkSys.next, howner, hok]
  | _ => simp [LinkSys.next, howner]

theorem live_step [DecidableEq T] {d : ℕ} (hd : d < s.devs.opened) (m : LinkMove T) :
    (s.step m).devs.Live d ↔ s.devs.Live d ∧ ¬ s.Closes d m := by
  cases m with
  | next ans => simpa [LinkSys.step, LinkSys.Closes] using live_next hd ans
  | _ => simp [LinkSys.step, LinkSys.Closes]

theorem opened_le_step [DecidableEq T] (m : LinkMove T) :
    s.devs.opened ≤ (s.step m).devs.opened := by
  cases m with
  | next ans =>
    simp only [LinkSys.step, LinkSys.next]
    repeat' split
    all_goals simp [HandleTable.openNext, HandleTable.close]
  | _ => simp [LinkSys.step]

theorem loaded_step [DecidableEq T] {m : LinkMove T} {t : T} (hm : m ≠ .load t) :
    (s.step m).loaded t = s.loaded t := by
  cases m with
  | load t' =>
    have hne : t ≠ t' := fun heq => hm (heq ▸ rfl)
    exact Function.update_of_ne hne _ _
  | _ => simp [LinkSys.step]

/-- **A device a thread has loaded stays open until the owner closes it**, and no longer: the
thread keeps the handle whatever is published since. -/
theorem live_since_load [DecidableEq T] (pre mid : List (LinkMove T)) (t : T)
    (hmid : .load t ∉ mid) {d : ℕ} (hd : (linkRun pre).link.dev = some d) :
    (linkRun (pre ++ .load t :: mid)).loaded t = some d ∧
      d < (linkRun (pre ++ .load t :: mid)).devs.opened ∧
      ((linkRun (pre ++ .load t :: mid)).devs.Live d ↔
        Always (fun past m => ¬ (linkRun (pre ++ .load t :: past)).Closes d m) mid) := by
  induction mid using List.reverseRecOn with
  | nil =>
    have hlive := (safe_linkRun pre).dev_live d hd
    rw [linkRun_concat]
    refine ⟨?_, hlive.1, iff_of_true hlive always_nil⟩
    simp [LinkSys.step, hd]
  | append_singleton mid m ih =>
    rw [List.mem_append, not_or, List.mem_singleton] at hmid
    obtain ⟨hloaded, hopened, hlive⟩ := ih hmid.1
    have hrun : linkRun (pre ++ .load t :: (mid ++ [m])) =
        (linkRun (pre ++ .load t :: mid)).step m := by
      rw [← List.cons_append, ← List.append_assoc, linkRun_concat]
    rw [hrun]
    refine ⟨?_, hopened.trans_le (opened_le_step m), ?_⟩
    · exact (loaded_step (Ne.symm hmid.2)).trans hloaded
    · rw [live_step hopened, hlive, always_concat_iff]

/-! ### The link in every run -/

/-- The device the owner hands to the SDK next. -/
def OwnerAt.uses : OwnerAt → Option ℕ
  | .socketOpen dev | .ioctl _ dev | .devClose _ dev => some dev
  | _ => none

theorem Safe.uses_live (h : Safe s) {d : ℕ} (hd : s.owner.uses = some d) : s.devs.Live d := by
  have hplaced := h.placed
  unfold LinkSys.Placed at hplaced
  cases howner : s.owner with
  | socketOpen dev | ioctl call dev =>
    simp only [howner] at hplaced hd
    exact Option.some.inj hd ▸ h.dev_live dev hplaced
  | devClose again dev =>
    simp only [howner] at hplaced hd
    exact Option.some.inj hd ▸ hplaced.1
  | _ => simp [howner, OwnerAt.uses] at hd

theorem Safe.sockfd_live_iff (h : Safe s) {fd : ℕ} (hfd : s.link.sockfd = some fd) :
    s.socks.Live fd ↔ ∀ again, s.owner ≠ .clearSockfd again := by
  refine ⟨fun hlive again howner => ?_, fun hclear => h.sockfd_live hclear fd hfd⟩
  have hplaced := h.placed
  simp only [LinkSys.Placed, howner] at hplaced
  exact hplaced fd hfd hlive

/-- **No closed handle is published, and none is closed twice**, whatever is called, whatever the
SDK answers and whenever the other threads look. A published device is open, and so is every
device the owner hands to the SDK; a published descriptor is open except between
`bb_socket_close` and the store behind it. A device that a thread has loaded stays open exactly
until the owner closes it. -/
theorem link_handles [DecidableEq T] (moves : List (LinkMove T)) :
    let s := linkRun moves
    (s.hosts.Sound ∧ s.devs.Sound ∧ s.socks.Sound) ∧
      (∀ d, s.link.dev = some d ∨ s.owner.uses = some d → s.devs.Live d) ∧
      (∀ fd, s.link.sockfd = some fd →
        (s.socks.Live fd ↔ ∀ again, s.owner ≠ .clearSockfd again)) ∧
      (∀ pre mid t d, moves = pre ++ .load t :: mid → .load t ∉ mid →
        (linkRun pre).link.dev = some d →
          s.loaded t = some d ∧ (s.devs.Live d ↔
            Always (fun past m => ¬ (linkRun (pre ++ .load t :: past)).Closes d m) mid)) := by
  intro s
  have h : Safe s := safe_linkRun moves
  refine ⟨⟨h.hosts, h.devs, h.socks⟩, ?_, fun fd hfd => h.sockfd_live_iff hfd, ?_⟩
  · rintro d (hd | hd)
    · exact h.dev_live d hd
    · exact h.uses_live hd
  · rintro pre mid t d hmoves hmid hd
    have hsince := live_since_load pre mid t hmid hd
    rw [← hmoves] at hsince
    exact ⟨hsince.1, hsince.2.2⟩

/-- What an SDK does that refuses nothing. -/
def LinkAnswer.fine : LinkAnswer := ⟨true, 0, false⟩

-- A thread loads the device and a reconnect runs past it: the exchange has cleared `dev`, and the
-- thread still holds the handle that is now closed.
example :
    let s := linkRun (.connectRetry :: List.replicate 6 (.next .fine) ++
      .load () :: .reconnectRetry :: List.replicate 3 (.next .fine))
    s.link.dev = none ∧ s.loaded () = some 0 ∧ ¬ s.devs.Live 0 := by decide

end Ar8030
