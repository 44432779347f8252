import Ar8030Transport.Link.Reconnect

/-!
# The programs and their link

`ar8030_link_connect` and `ar8030_link_open_socket` overwrite what they find in the link, so
whether a handle leaks depends on who calls them when. The four programs (`src/tx/main.c`,
`src/rx/main.c`, `src/audio_tx/main.c`, `src/audio_rx/main.c`) make their calls in the same order:
connect, open the data socket, ask now and then whether the daemon is alive, reconnect and open
the socket again, close. In that order every open handle is named by the link or in the hand of
the function that is being executed (`Tidy`). One way out does not close the link: the transmitter
returns when it cannot read a `-p` setting, which it looks at behind the first opening.
-/

namespace Ar8030

variable {T : Type*} {s : LinkSys T}

/-! ### Nothing leaks -/

/-- The device the owner has and the link does not name. -/
def OwnerAt.devInHand : OwnerAt → Option ℕ
  | .publish dev | .devClose _ dev => some dev
  | _ => none

/-- The descriptor the owner has and the link does not name yet. -/
def OwnerAt.fdInHand : OwnerAt → Option ℕ
  | .storeSockfd fd => some fd
  | _ => none

/-- How the programs call: `ar8030_link_connect_retry` on a link with nothing in it, and
`ar8030_link_open_socket` on one without a socket. -/
def LinkSys.Proper (s : LinkSys T) : LinkMove T → Prop
  | .connectRetry => s.link = .zeroed
  | .openSocket => s.link.sockfd = none
  | _ => True

/-- What the owner may overwrite where it is. -/
def LinkSys.Cleared (s : LinkSys T) : Prop :=
  match s.owner with
  | .resetDev | .resetRest | .hostConnect | .failed => s.link = .zeroed
  | .getlist | .devOpen | .publish _ | .socketOpen _ | .storeSockfd _ | .exchange _
  | .devClose _ _ | .disconnect _ => s.link.sockfd = none
  | _ => True

/-- Every open handle is named by the link, or is in the owner's hand. -/
structure Tidy (s : LinkSys T) : Prop where
  hosts : ∀ h, s.hosts.Live h → s.link.host = some h
  devs : ∀ d, s.devs.Live d → s.link.dev = some d ∨ s.owner.devInHand = some d
  socks : ∀ fd, s.socks.Live fd → s.link.sockfd = some fd ∨ s.owner.fdInHand = some fd
  cleared : s.Cleared

theorem Tidy.start : Tidy (LinkSys.start : LinkSys T) where
  hosts := fun _ h => absurd h HandleTable.not_live_empty
  devs := fun _ h => absurd h HandleTable.not_live_empty
  socks := fun _ h => absurd h HandleTable.not_live_empty
  cleared := trivial

/-- The owner goes on with the same handles in its hand. -/
theorem Tidy.move (h : Tidy s) {owner : OwnerAt} (hdev : owner.devInHand = s.owner.devInHand)
    (hfd : owner.fdInHand = s.owner.fdInHand) (hcleared : LinkSys.Cleared { s with owner }) :
    Tidy { s with owner } where
  hosts := h.hosts
  devs := hdev ▸ h.devs
  socks := hfd ▸ h.socks
  cleared := hcleared

theorem Tidy.not_live_hangUp (ht : Tidy s) (k : ℕ) : ¬ s.hangUp.hosts.Live k := by
  intro hk
  unfold LinkSys.hangUp at hk
  split at hk
  · next hnone => exact absurd (ht.hosts k hk) (by simp [hnone])
  · next host hhost =>
    obtain ⟨hlive, hne⟩ := HandleTable.live_close.mp hk
    exact hne (Option.some.inj ((ht.hosts k hlive).symm.trans hhost))

theorem hangUp_zeroed (hdev : s.link.dev = none) (hfd : s.link.sockfd = none) :
    s.hangUp.link = .zeroed := by
  simp [Link.zeroed, hdev, hfd]

/-- The host is hung up when nothing else is open. -/
theorem Tidy.hangUp_move (ht : Tidy s) (hdev : s.link.dev = none) (hfd : s.link.sockfd = none)
    (hdevHand : s.owner.devInHand = none) (hfdHand : s.owner.fdInHand = none) {owner : OwnerAt}
    (hcleared : LinkSys.Cleared { s.hangUp with owner }) : Tidy { s.hangUp with owner } where
  hosts := fun k hk => absurd hk (ht.not_live_hangUp k)
  devs := fun d hd => absurd (ht.devs d (hangUp_devs ▸ hd)) (by simp [hdev, hdevHand])
  socks := fun fd hk => absurd (ht.socks fd (hangUp_socks ▸ hk)) (by simp [hfd, hfdHand])
  cleared := hcleared

theorem Tidy.next (ht : Tidy s) (h : Safe s) (ans : LinkAnswer) : Tidy (s.next ans) := by
  obtain ⟨link, owner, hosts, devs, socks, loaded⟩ := s
  have hplaced := h.placed
  have hcleared := ht.cleared
  cases owner with
  | idle ret => exact ht
  | resetDev | resetRest =>
    obtain rfl : link = .zeroed := hcleared
    exact ht.move rfl rfl rfl
  | hostConnect =>
    obtain rfl : link = .zeroed := hcleared
    dsimp only [LinkSys.next]
    split
    · exact { ht with
        hosts := fun k hk => by
          rcases hk.of_openNext with hk | rfl
          · exact absurd (ht.hosts k hk) (by simp [Link.zeroed])
          · rfl
        cleared := rfl }
    · exact ht.move rfl rfl rfl
  | getlist =>
    dsimp only [LinkSys.next]
    split
    · exact ht.move rfl rfl hcleared
    · exact ht.hangUp_move hplaced hcleared rfl rfl (hangUp_zeroed hplaced hcleared)
  | devOpen =>
    dsimp only [LinkSys.next]
    split
    · exact { ht with
        devs := fun d hd => by
          rcases hd.of_openNext with hd | rfl
          · exact (ht.devs d hd).imp_right (by simp [OwnerAt.devInHand])
          · exact .inr rfl
        cleared := hcleared }
    · exact ht.hangUp_move hplaced hcleared rfl rfl (hangUp_zeroed hplaced hcleared)
  | publish dev =>
    exact { ht with
      devs := fun d hd => by
        rcases ht.devs d hd with hdev | hdev
        · exact absurd (hplaced.2.symm.trans hdev) (by simp)
        · exact .inl hdev
      cleared := trivial }
  | failed =>
    dsimp only [LinkSys.next]
    split
    · exact ht.move rfl rfl trivial
    · exact ht.move rfl rfl hcleared
  | socketOpen dev =>
    dsimp only [LinkSys.next]
    split
    · exact { ht with
        socks := fun fd hk => by
          rcases hk.of_openNext with hk | rfl
          · exact (ht.socks fd hk).imp_right (by simp [OwnerAt.fdInHand])
          · exact .inr rfl
        cleared := hcleared }
    · exact ht.move rfl rfl trivial
  | storeSockfd fd =>
    exact { ht with
      socks := fun k hk => by
        rcases ht.socks k hk with hfd | hfd
        · exact absurd (Eq.trans (Eq.symm hcleared) hfd) (by simp)
        · exact .inl hfd
      cleared := trivial }
  | ioctl call dev => exact ht.move rfl rfl trivial
  | socketClose again =>
    cases hfd : link.sockfd with
    | none =>
      simp only [LinkSys.next, hfd]
      exact ht.move rfl rfl hfd
    | some fd =>
      simp only [LinkSys.next, hfd]
      exact { ht with
        socks := fun k hk => by
          have hlive := (HandleTable.live_close.mp hk).1
          exact ht.socks k hlive
        cleared := trivial }
  | clearSockfd again =>
    exact { ht with
      socks := fun k hk => by
        rcases ht.socks k hk with hfd | hfd
        · exact absurd hk (hplaced k hfd)
        · exact .inr hfd
      cleared := rfl }
  | exchange again =>
    cases hdev : link.dev with
    | none =>
      simp only [LinkSys.next, hdev]
      exact ht.move rfl rfl hcleared
    | some dev =>
      simp only [LinkSys.next, hdev]
      exact { ht with
        devs := fun d hd => by
          rcases ht.devs d hd with hd | hd
          · exact .inr (hdev.symm.trans hd)
          · exact absurd hd (by simp [OwnerAt.devInHand])
        cleared := hcleared }
  | devClose again dev =>
    exact { ht with
      devs := fun d hd => by
        obtain ⟨hlive, hne⟩ := HandleTable.live_close.mp hd
        rcases ht.devs d hlive with hdev | hdev
        · exact .inl hdev
        · exact absurd (Option.some.inj hdev).symm hne
      cleared := hcleared }
  | disconnect again =>
    refine ht.hangUp_move hplaced hcleared rfl rfl ?_
    cases again with
    | false => trivial
    | true => exact hangUp_zeroed hplaced hcleared

theorem Tidy.call (ht : Tidy s) (first : Option ℕ → OwnerAt)
    (hdev : (first s.link.dev).devInHand = none) (hfd : (first s.link.dev).fdInHand = none)
    (hcleared : LinkSys.Cleared { s with owner := first s.link.dev }) : Tidy (s.call first) := by
  unfold LinkSys.call
  split
  · next ret howner =>
    exact ht.move (by rw [hdev, howner]; rfl) (by rw [hfd, howner]; rfl) hcleared
  · exact ht

theorem Tidy.step [DecidableEq T] (ht : Tidy s) (h : Safe s) {m : LinkMove T}
    (hm : s.Proper m) : Tidy (s.step m) := by
  cases m with
  | connectRetry => exact ht.call (fun _ => .resetDev) rfl rfl hm
  | close => exact ht.call (fun _ => .socketClose false) rfl rfl trivial
  | reconnectRetry => exact ht.call (fun _ => .socketClose true) rfl rfl trivial
  | openSocket =>
    cases hdev : s.link.dev with
    | none => refine ht.call openSocketAt ?_ ?_ ?_ <;> rw [hdev] <;> trivial
    | some dev =>
      refine ht.call openSocketAt ?_ ?_ ?_ <;> rw [hdev]
      · rfl
      · rfl
      · exact hm
  | ioctl call =>
    refine ht.call (ioctlAt call) ?_ ?_ ?_ <;> cases s.link.dev <;> trivial
  | next ans => exact ht.next h ans
  | load t => exact { ht with }

/-- Handles of the three kinds that are open between two calls. -/
theorem Tidy.idle (ht : Tidy s) (h : Safe s) {ret : ℤ} (howner : s.owner = .idle ret) (k : ℕ) :
    (s.hosts.Live k ↔ s.link.host = some k) ∧ (s.devs.Live k ↔ s.link.dev = some k) ∧
      (s.socks.Live k ↔ s.link.sockfd = some k) := by
  refine ⟨⟨ht.hosts k, h.host_live k⟩, ⟨fun hk => ?_, h.dev_live k⟩, ⟨fun hk => ?_, ?_⟩⟩
  · exact (ht.devs k hk).resolve_right (by simp [howner, OwnerAt.devInHand])
  · exact (ht.socks k hk).resolve_right (by simp [howner, OwnerAt.fdInHand])
  · exact h.sockfd_live (by simp [howner]) k

/-! ### The programs -/

/-- Where the `main` of a program stands with its link. -/
inductive MainAt where
  /-- Before `ar8030_link_connect_retry`. -/
  | boot
  | connecting
  /-- Connected, before or between the attempts to open the data socket. -/
  | noSocket
  | opening
  /-- In its loop. -/
  | running
  | reconnecting
  /-- It was told to stop while it reconnected. -/
  | stopping
  | closing
  /-- It has closed the link, or never had it. -/
  | gone
  /-- It has returned without closing the link. -/
  | abandoned
  deriving DecidableEq, Repr

/-- The calls `main` makes, and where it is during each. -/
def MainAt.calling : MainAt → LinkMove T → Option MainAt
  | .boot, .connectRetry => some .connecting
  | .noSocket, .ioctl _ => some .noSocket
  | .noSocket, .openSocket => some .opening
  | .running, .ioctl _ => some .running
  | .running, .reconnectRetry => some .reconnecting
  | .noSocket, .close | .running, .close | .stopping, .close => some .closing
  | _, _ => none

/-- The call may have returned; `main` looks at what it returned. `badParam` is a setting of the
command line that `apply_pi_param` refuses. -/
def MainAt.settle (badParam : Bool) : MainAt → OwnerAt → MainAt
  | .connecting, .idle ret => if ret = 0 then .noSocket else .gone
  | .reconnecting, .idle ret => if ret = 0 then .noSocket else .stopping
  | .opening, .idle ret =>
    if ret = 0 then (if badParam then .abandoned else .running) else .noSocket
  | .closing, .idle _ => .gone
  | main, _ => main

/-- The link, and the `main` that owns it. -/
structure MainSys (T : Type*) where
  sys : LinkSys T
  main : MainAt
  badParam : Bool

/-- The link after a move of its owner. -/
def MainSys.settle (p : MainSys T) (sys : LinkSys T) (main : MainAt) : MainSys T :=
  { p with sys, main := main.settle p.badParam sys.owner }

/-- One move. `main` makes a call when the one before has returned. -/
def MainSys.step [DecidableEq T] (p : MainSys T) : LinkMove T → MainSys T
  | .next ans => p.settle (p.sys.next ans) p.main
  | .load t => { p with sys := p.sys.step (.load t) }
  | call =>
    match p.sys.owner, p.main.calling call with
    | .idle _, some main => p.settle (p.sys.step call) main
    | _, _ => p

/-- What a list of moves comes to, in a program that has just started. -/
def mainRun [DecidableEq T] (badParam : Bool) (moves : List (LinkMove T)) : MainSys T :=
  moves.foldl MainSys.step ⟨.start, .boot, badParam⟩

/-! ### What the functions return -/

/-- The functions of the link, as they are executed; `close true` is followed by a connect. -/
inductive LinkFn where
  | none
  | connect
  | openSocket
  | ioctl
  | close (again : Bool)
  deriving DecidableEq, Repr

/-- The function the owner is in. -/
def OwnerAt.fn : OwnerAt → LinkFn
  | .idle _ => .none
  | .resetDev | .resetRest | .hostConnect | .getlist | .devOpen | .publish _ | .failed => .connect
  | .socketOpen _ | .storeSockfd _ => .openSocket
  | .ioctl _ _ => .ioctl
  | .socketClose again | .clearSockfd again | .exchange again | .devClose again _
  | .disconnect again => .close again

/-- `ar8030_link_connect_retry` returns 0 with a device and without a socket, and -1 with
nothing. -/
theorem next_connect (ht : Tidy s) (hfn : s.owner.fn = .connect) (ans : LinkAnswer) :
    (s.next ans).owner.fn = .connect ∨
      ((s.next ans).owner = .idle 0 ∧ (s.next ans).link.dev.isSome ∧
        (s.next ans).link.sockfd = none) ∨
      ((s.next ans).owner = .idle (-1) ∧ (s.next ans).link = .zeroed) := by
  obtain ⟨link, owner, hosts, devs, socks, loaded⟩ := s
  have hcleared := ht.cleared
  cases owner with
  | resetDev | resetRest => exact .inl rfl
  | hostConnect | getlist | devOpen =>
    dsimp only [LinkSys.next]
    split <;> exact .inl rfl
  | publish dev => exact .inr (.inl ⟨rfl, rfl, hcleared⟩)
  | failed =>
    dsimp only [LinkSys.next]
    split
    · exact .inr (.inr ⟨rfl, hcleared⟩)
    · exact .inl rfl
  | _ => simp [OwnerAt.fn] at hfn

/-- `ar8030_link_open_socket` returns 0 with a socket in the link, and else leaves it as it is. -/
theorem next_openSocket (hfn : s.owner.fn = .openSocket) (ans : LinkAnswer) :
    (s.next ans).link.dev = s.link.dev ∧
      (((s.next ans).owner.fn = .openSocket ∧ (s.next ans).link = s.link) ∨
        ((s.next ans).owner = .idle 0 ∧ (s.next ans).link.sockfd.isSome) ∨
        ((s.next ans).owner = .idle (-1) ∧ (s.next ans).link = s.link)) := by
  obtain ⟨link, owner, hosts, devs, socks, loaded⟩ := s
  cases owner with
  | socketOpen dev =>
    dsimp only [LinkSys.next]
    split
    · exact ⟨rfl, .inl ⟨rfl, rfl⟩⟩
    · exact ⟨rfl, .inr (.inr ⟨rfl, rfl⟩)⟩
  | storeSockfd fd => exact ⟨rfl, .inr (.inl ⟨rfl, rfl⟩)⟩
  | _ => simp [OwnerAt.fn] at hfn

/-- The calls of `bb_ioctl` and what happens between two calls leave the link as it is. -/
theorem next_waiting (hfn : s.owner.fn = .none ∨ s.owner.fn = .ioctl) (ans : LinkAnswer) :
    (s.next ans).owner.fn = .none ∧ (s.next ans).link = s.link := by
  obtain ⟨link, owner, hosts, devs, socks, loaded⟩ := s
  cases owner with
  | idle ret | ioctl call dev => exact ⟨rfl, rfl⟩
  | _ => simp [OwnerAt.fn] at hfn

/-- `ar8030_link_close` leaves nothing in the link. -/
theorem next_close (h : Safe s) (ht : Tidy s) {again : Bool} (hfn : s.owner.fn = .close again)
    (ans : LinkAnswer) :
    (s.next ans).owner.fn = .close again ∨
      ((s.next ans).owner = .afterClose again ∧ (s.next ans).link = .zeroed) := by
  obtain ⟨link, owner, hosts, devs, socks, loaded⟩ := s
  have hplaced := h.placed
  have hcleared := ht.cleared
  cases owner with
  | socketClose more | exchange more =>
    dsimp only [LinkSys.next]
    split <;> exact .inl hfn
  | clearSockfd more | devClose more dev => exact .inl hfn
  | disconnect more =>
    obtain rfl : more = again := by simpa [OwnerAt.fn] using hfn
    exact .inr ⟨rfl, hangUp_zeroed hplaced hcleared⟩
  | _ => simp [OwnerAt.fn] at hfn

/-! ### Every open handle is accounted for -/

/-- What `main` may rely on where it is. -/
def MainSys.Stands (p : MainSys T) : Prop :=
  match p.main with
  | .boot | .gone => p.sys.owner.fn = .none ∧ p.sys.link = .zeroed
  | .connecting => p.sys.owner.fn = .connect
  | .reconnecting => p.sys.owner.fn = .connect ∨ p.sys.owner.fn = .close true
  | .noSocket => (p.sys.owner.fn = .none ∨ p.sys.owner.fn = .ioctl) ∧
      p.sys.link.dev.isSome ∧ p.sys.link.sockfd = none
  | .opening => p.sys.owner.fn = .openSocket ∧
      p.sys.link.dev.isSome ∧ p.sys.link.sockfd = none
  | .running => (p.sys.owner.fn = .none ∨ p.sys.owner.fn = .ioctl) ∧
      p.sys.link.dev.isSome ∧ p.sys.link.sockfd.isSome ∧ p.badParam = false
  | .stopping => p.sys.owner.fn = .none
  | .closing => p.sys.owner.fn = .close false
  | .abandoned => p.sys.owner.fn = .none ∧
      p.sys.link.dev.isSome ∧ p.sys.link.sockfd.isSome ∧ p.badParam = true

/-- `main` takes no notice while the function goes on. -/
theorem settle_of_fn_ne {owner : OwnerAt} (h : owner.fn ≠ .none) (badParam : Bool)
    (main : MainAt) : main.settle badParam owner = main := by
  cases owner with
  | idle ret => exact absurd rfl h
  | _ => cases main <;> rfl

/-- Where `main` does not look at what is returned. -/
theorem settle_of_not_awaits {main : MainAt} (h : main ≠ .connecting ∧ main ≠ .reconnecting ∧
    main ≠ .opening ∧ main ≠ .closing) (badParam : Bool) (owner : OwnerAt) :
    main.settle badParam owner = main := by
  cases main <;> cases owner <;> first | rfl | simp at h

theorem MainSys.Stands.next {p : MainSys T} (hs : p.Stands) (h : Safe p.sys) (ht : Tidy p.sys)
    (ans : LinkAnswer) : (p.settle (p.sys.next ans) p.main).Stands := by
  obtain ⟨s, main, badParam⟩ := p
  cases main with
  | boot | gone =>
    obtain ⟨hfn, hlink⟩ := next_waiting (.inl hs.1) ans
    rw [MainSys.settle, settle_of_not_awaits (by simp)]
    exact ⟨hfn, hlink.trans hs.2⟩
  | stopping =>
    rw [MainSys.settle, settle_of_not_awaits (by simp)]
    exact (next_waiting (.inl hs) ans).1
  | abandoned =>
    obtain ⟨hfn, hlink⟩ := next_waiting (.inl hs.1) ans
    rw [MainSys.settle, settle_of_not_awaits (by simp)]
    refine ⟨hfn, ?_⟩
    rw [hlink]
    exact hs.2
  | noSocket | running =>
    obtain ⟨hfn, hlink⟩ := next_waiting hs.1 ans
    rw [MainSys.settle, settle_of_not_awaits (by simp)]
    refine ⟨.inl hfn, ?_⟩
    rw [hlink]
    exact hs.2
  | connecting =>
    rcases next_connect ht hs ans with hfn | ⟨howner, hdev, hfd⟩ | ⟨howner, hlink⟩
    · rw [MainSys.settle, settle_of_fn_ne (by simp [hfn])]
      exact hfn
    · rw [MainSys.settle, howner]
      exact ⟨.inl (by rw [howner]; rfl), hdev, hfd⟩
    · rw [MainSys.settle, howner]
      exact ⟨by rw [howner]; rfl, hlink⟩
  | reconnecting =>
    rcases hs with hs | hs
    · rcases next_connect ht hs ans with hfn | ⟨howner, hdev, hfd⟩ | ⟨howner, hlink⟩
      · rw [MainSys.settle, settle_of_fn_ne (by simp [hfn])]
        exact .inl hfn
      · rw [MainSys.settle, howner]
        exact ⟨.inl (by rw [howner]; rfl), hdev, hfd⟩
      · rw [MainSys.settle, howner]
        show OwnerAt.fn _ = _
        rw [howner]
        rfl
    · rcases next_close h ht hs ans with hfn | ⟨howner, -⟩
      · rw [MainSys.settle, settle_of_fn_ne (by simp [hfn])]
        exact .inr hfn
      · rw [MainSys.settle, howner]
        refine .inl ?_
        rw [howner]
        rfl
  | opening =>
    obtain ⟨hfn, hdev, hfd⟩ := hs
    obtain ⟨hdev', hnext⟩ := next_openSocket hfn ans
    rw [← hdev'] at hdev
    rcases hnext with ⟨hfn', hlink⟩ | ⟨howner, hfd'⟩ | ⟨howner, hlink⟩
    · rw [MainSys.settle, settle_of_fn_ne (by simp [hfn'])]
      exact ⟨hfn', hdev, by rw [hlink]; exact hfd⟩
    · rw [MainSys.settle, howner]
      cases badParam with
      | false => exact ⟨.inl (by rw [howner]; rfl), hdev, hfd', rfl⟩
      | true => exact ⟨by rw [howner]; rfl, hdev, hfd', rfl⟩
    · rw [MainSys.settle, howner]
      exact ⟨.inl (by rw [howner]; rfl), hdev, by rw [hlink]; exact hfd⟩
  | closing =>
    rcases next_close h ht hs ans with hfn | ⟨howner, hlink⟩
    · rw [MainSys.settle, settle_of_fn_ne (by simp [hfn])]
      exact hfn
    · rw [MainSys.settle, howner]
      exact ⟨by rw [howner]; rfl, hlink⟩

/-- A call that `main` makes is one it may make. -/
theorem MainSys.Stands.proper {p : MainSys T} (hs : p.Stands) {m : LinkMove T} {main : MainAt}
    (hcall : p.main.calling m = some main) : p.sys.Proper m := by
  obtain ⟨s, main₀, badParam⟩ := p
  cases m with
  | connectRetry =>
    cases main₀ with
    | boot => exact hs.2
    | _ => simp [MainAt.calling] at hcall
  | openSocket =>
    cases main₀ with
    | noSocket => exact hs.2.2
    | _ => simp [MainAt.calling] at hcall
  | _ => trivial

theorem fn_ioctlAt (call : LinkIoctl) (dev : Option ℕ) :
    (ioctlAt call dev).fn = .none ∨ (ioctlAt call dev).fn = .ioctl := by
  cases dev with
  | none => exact .inl rfl
  | some dev => exact .inr rfl

theorem MainSys.Stands.call [DecidableEq T] {p : MainSys T} (hs : p.Stands) {m : LinkMove T}
    {main : MainAt} {ret : ℤ} (howner : p.sys.owner = .idle ret)
    (hcall : p.main.calling m = some main) :
    (p.settle (p.sys.step m) main).Stands := by
  obtain ⟨⟨link, owner, hosts, devs, socks, loaded⟩, main₀, badParam⟩ := p
  obtain rfl : owner = .idle ret := howner
  cases m with
  | connectRetry =>
    cases main₀ with
    | boot =>
      obtain rfl := Option.some.inj hcall
      exact rfl
    | _ => simp [MainAt.calling] at hcall
  | openSocket =>
    cases main₀ with
    | noSocket =>
      obtain rfl := Option.some.inj hcall
      obtain ⟨host, dev, sockfd⟩ := link
      obtain ⟨dev, rfl⟩ := Option.isSome_iff_exists.mp hs.2.1
      exact ⟨rfl, rfl, hs.2.2⟩
    | _ => simp [MainAt.calling] at hcall
  | ioctl call =>
    cases main₀ with
    | noSocket | running =>
      obtain rfl := Option.some.inj hcall
      rw [MainSys.settle, settle_of_not_awaits (by simp)]
      exact ⟨fn_ioctlAt call link.dev, hs.2⟩
    | _ => simp [MainAt.calling] at hcall
  | close =>
    cases main₀ with
    | noSocket | running | stopping =>
      obtain rfl := Option.some.inj hcall
      exact rfl
    | _ => simp [MainAt.calling] at hcall
  | reconnectRetry =>
    cases main₀ with
    | running =>
      obtain rfl := Option.some.inj hcall
      exact .inr rfl
    | _ => simp [MainAt.calling] at hcall
  | next ans | load t => cases main₀ <;> simp [MainAt.calling] at hcall

theorem exists_idle (hfn : s.owner.fn = .none) : ∃ ret, s.owner = .idle ret := by
  cases howner : s.owner with
  | idle ret => exact ⟨ret, rfl⟩
  | _ => simp [howner, OwnerAt.fn] at hfn

theorem Safe.bothOpen (h : Safe s) (hdev : s.link.dev.isSome) (hfd : s.link.sockfd.isSome)
    (hclear : ∀ again, s.owner ≠ .clearSockfd again) :
    ∃ dev fd, s.link.dev = some dev ∧ s.devs.Live dev ∧
      s.link.sockfd = some fd ∧ s.socks.Live fd := by
  obtain ⟨dev, hdev⟩ := Option.isSome_iff_exists.mp hdev
  obtain ⟨fd, hfd⟩ := Option.isSome_iff_exists.mp hfd
  exact ⟨dev, fd, hdev, h.dev_live dev hdev, hfd, h.sockfd_live hclear fd hfd⟩

/-- What holds in every run of a program. -/
structure Accounted (p : MainSys T) : Prop where
  safe : Safe p.sys
  tidy : Tidy p.sys
  stands : p.Stands

theorem Accounted.start (badParam : Bool) :
    Accounted (⟨.start, .boot, badParam⟩ : MainSys T) where
  safe := Safe.start
  tidy := Tidy.start
  stands := ⟨rfl, rfl⟩

theorem Accounted.call [DecidableEq T] {p : MainSys T} (h : Accounted p) {m : LinkMove T}
    {main : MainAt} {ret : ℤ} (howner : p.sys.owner = .idle ret)
    (hcall : p.main.calling m = some main) : Accounted (p.settle (p.sys.step m) main) where
  safe := h.safe.step m
  tidy := h.tidy.step h.safe (h.stands.proper hcall)
  stands := h.stands.call howner hcall

theorem Accounted.step [DecidableEq T] {p : MainSys T} (h : Accounted p) (m : LinkMove T) :
    Accounted (p.step m) := by
  cases m with
  | next ans =>
    exact ⟨h.safe.next ans, h.tidy.next h.safe ans, h.stands.next h.safe h.tidy ans⟩
  | load t =>
    exact ⟨h.safe.step (.load t), h.tidy.step h.safe (m := .load t) trivial, h.stands⟩
  | _ =>
    dsimp only [MainSys.step]
    split
    · next howner hcall => exact h.call howner hcall
    · exact h

theorem badParam_step [DecidableEq T] (p : MainSys T) (m : LinkMove T) :
    (p.step m).badParam = p.badParam := by
  cases m with
  | next ans | load t => rfl
  | _ =>
    dsimp only [MainSys.step]
    split <;> rfl

theorem accounted_mainRun [DecidableEq T] (badParam : Bool) (moves : List (LinkMove T)) :
    Accounted (mainRun badParam moves) ∧ (mainRun badParam moves).badParam = badParam := by
  induction moves using List.reverseRecOn with
  | nil => exact ⟨Accounted.start badParam, rfl⟩
  | append_singleton moves m ih =>
    rw [mainRun, List.foldl_concat]
    exact ⟨ih.1.step m, (badParam_step _ m).trans ih.2⟩

/-- **The programs account for every handle**, whatever the SDK answers, however often the daemon
dies and whenever the stop flag is set. Between two calls the open handles are exactly those the
link names: a device and a socket while the program is in its loop, and nothing any more once it
has closed its link, also where it was told to stop in the middle of a connect. Only a program
with a setting it cannot read returns with its device and its socket still open, and such a
program never comes to its loop. -/
theorem programs_account_for_handles [DecidableEq T] (badParam : Bool)
    (moves : List (LinkMove T)) :
    let p := mainRun badParam moves
    let bothOpen := ∃ dev fd, p.sys.link.dev = some dev ∧ p.sys.devs.Live dev ∧
      p.sys.link.sockfd = some fd ∧ p.sys.socks.Live fd
    (∀ ret k, p.sys.owner = .idle ret →
      (p.sys.hosts.Live k ↔ p.sys.link.host = some k) ∧
        (p.sys.devs.Live k ↔ p.sys.link.dev = some k) ∧
        (p.sys.socks.Live k ↔ p.sys.link.sockfd = some k)) ∧
      (p.main = .running → badParam = false ∧ bothOpen) ∧
      (p.main = .abandoned → badParam = true ∧ bothOpen) ∧
      (p.main = .gone → ∀ k,
        ¬ p.sys.hosts.Live k ∧ ¬ p.sys.devs.Live k ∧ ¬ p.sys.socks.Live k) := by
  intro p bothOpen
  obtain ⟨⟨hsafe, htidy, hstands⟩, hparam⟩ := accounted_mainRun badParam moves
  refine ⟨fun ret k howner => htidy.idle hsafe howner k, fun hmain => ?_, fun hmain => ?_,
    fun hmain k => ?_⟩
  · simp only [MainSys.Stands, show (mainRun badParam moves).main = .running from hmain]
      at hstands
    obtain ⟨hfn, hdev, hfd, hgood⟩ := hstands
    refine ⟨hparam.symm.trans hgood, hsafe.bothOpen hdev hfd fun again howner => ?_⟩
    simp [howner, OwnerAt.fn] at hfn
  · simp only [MainSys.Stands, show (mainRun badParam moves).main = .abandoned from hmain]
      at hstands
    obtain ⟨hfn, hdev, hfd, hbad⟩ := hstands
    refine ⟨hparam.symm.trans hbad, hsafe.bothOpen hdev hfd fun again howner => ?_⟩
    simp [howner, OwnerAt.fn] at hfn
  · simp only [MainSys.Stands, show (mainRun badParam moves).main = .gone from hmain] at hstands
    obtain ⟨hfn, hlink⟩ := hstands
    obtain ⟨ret, howner⟩ := exists_idle hfn
    obtain ⟨hhost, hdev, hfd⟩ := htidy.idle hsafe howner k
    rw [hhost, hdev, hfd, hlink]
    simp [Link.zeroed]

-- A program whose daemon dies once: everything it opened in its two sessions is closed.
example :
    let go (n : ℕ) : List (LinkMove Unit) := List.replicate n (.next .fine)
    let p := mainRun false (.connectRetry :: go 6 ++ .openSocket :: go 2 ++
      .reconnectRetry :: go 11 ++ .openSocket :: go 2 ++ .close :: go 5)
    p.main = .gone ∧ p.sys.hosts = ⟨2, [0, 1]⟩ ∧ p.sys.devs = ⟨2, [0, 1]⟩ ∧
      p.sys.socks = ⟨2, [0, 1]⟩ := by decide

end Ar8030
