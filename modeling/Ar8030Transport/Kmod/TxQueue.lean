import Mathlib.Tactic.Linarith
import Ar8030Transport.Kmod.Demux
import Ar8030Transport.Library.Trace

/-!
# The transmit queue of the native network device

The network stack hands packets to `artosyn_net_xmit`, which queues them, and `net_tx_work` of
`kmod/artosyn_net.c` writes them to the chip. Both run at the same time, and both start and stop
the queue: a full queue is stopped by the one and woken by the other. `artosyn_net_open` and
`artosyn_net_stop` bring the interface up and down.

The machine takes one access to shared state at a time. The kernel's part is in the steps that do
nothing: a packet is handed over only while the interface is up and its queue is not stopped, one
at a time; a work item runs once at a time, and is queued again while it runs; `ndo_stop` waits
for both.

A wake-up is not lost (`Wakes`), although the queue may be woken when it is full: it can hold one
packet more than `NET_TXQ_STOP`.
-/

namespace Ar8030

open LittleEndian Trace

/-! ### Frames -/

/-- `SO_CLOSE`. -/
def soClose : ℕ := 3

/-- `SO_STA_ALREADY_OPEN`. -/
def soStaAlreadyOpen : ℤ := 0x101

/-- `NET_TXQ_STOP`. -/
def netTxqStop : ℕ := 64

/-- `NET_TXQ_WAKE`. -/
def netTxqWake : ℕ := 16

/-- `NET_TX_STAGE_SIZE`. -/
def netTxStageSize : ℕ := 16 * 1024

/-- `SDIO_DEVICE_BLOCK_SIZE`, and the parameters of the module. The staging buffer is a number of
blocks. -/
structure NetParams where
  blockSize : ℕ
  txBuf : ℕ
  rxBuf : ℕ
  blockSize_pos : 0 < blockSize
  blockSize_dvd : blockSize ∣ netTxStageSize

/-- `net_frame_len`. -/
def netFrameLen (payload : ℕ) : ℕ := rpcOverhead + soPosLen + dgramOverhead + payload

/-- `net_pad`: more than one block is written in whole blocks. -/
def netPad (blockSize : ℕ) (buf : List UInt8) (cap : ℕ) : List UInt8 :=
  let padded :=
    if blockSize < buf.length then (buf.length + blockSize - 1) / blockSize * blockSize
    else buf.length
  if cap < padded then buf else buf ++ List.replicate (padded - buf.length) 0

/-- The frame `net_send_ctl` writes. -/
def controlFrame (net : ArtosynNet) (op : ℕ) (data : List UInt8) : List UInt8 :=
  rpcPutHdr data.length (net.soReqid op) net.msgid.toNat ++ data ++ [rpcTail]

/-- The options of `so_open`: a datagram socket for both directions. -/
def openOptions (p : NetParams) : List UInt8 :=
  encode 4 (2 ||| 1 ||| 8) ++ encode 4 p.txBuf ++ encode 4 p.rxBuf

/-! ### The machine -/

/-- Where `artosyn_net_xmit` is. -/
inductive XmitAt where
  | away
  /-- Before the test of the length. -/
  | queued
  /-- Before `netif_stop_queue`. -/
  | full
  /-- Before `queue_work`. -/
  | last
  deriving DecidableEq, Repr

/-- Where `net_tx_work` is, with the packet it has taken. -/
inductive WorkAt where
  | away
  /-- Before `skb_dequeue`. -/
  | top
  /-- Before the test of the queue's state. -/
  | taken (skb : List UInt8)
  /-- Before the test of the length: the queue is stopped. -/
  | stopped (skb : List UInt8)
  /-- Before `netif_wake_queue`. -/
  | waking (skb : List UInt8)
  /-- Before the frame is built. -/
  | sending (skb : List UInt8)
  /-- Before it is written. -/
  | writing (skb transfer : List UInt8)
  /-- Behind the loop. -/
  | bottom
  /-- Before the last `netif_wake_queue`. -/
  | lastWake
  deriving DecidableEq, Repr

/-- The interface. -/
inductive IfaceAt where
  | down
  /-- `artosyn_net_open` waits for the reply. -/
  | opening
  | up
  /-- `artosyn_net_stop` waits for the work. -/
  | stopping
  deriving DecidableEq, Repr

/-- What `artosyn_net_xmit`, `net_tx_work`, `artosyn_net_open` and `artosyn_net_stop` read and
write. -/
structure NetTx where
  net : ArtosynNet
  iface : IfaceAt
  sockOpen : Bool
  txq : List (List UInt8)
  queueStopped : Bool
  workPending : Bool
  xmit : XmitAt
  work : WorkAt
  txDropped : ℕ
  txErrors : ℕ
  txPackets : ℕ
  txBytes : ℕ
  deriving DecidableEq, Repr

/-- After `artosyn_net_probe`. -/
def NetTx.probed (net : ArtosynNet) : NetTx where
  net := net
  iface := .down
  sockOpen := false
  txq := []
  queueStopped := false
  workPending := false
  xmit := .away
  work := .away
  txDropped := 0
  txErrors := 0
  txPackets := 0
  txBytes := 0

/-- What becomes of the packets, and what is written. -/
inductive NetTxEvent where
  | accepted (skb : List UInt8)
  /-- The socket is not open. -/
  | refused (skb : List UInt8)
  /-- The frame does not fit `tx_stage`. -/
  | tooLong (skb : List UInt8)
  /-- A write of the frame of a packet. -/
  | written (skb transfer : List UInt8) (ok : Bool)
  /-- `skb_queue_purge`. -/
  | purged (skbs : List (List UInt8))
  /-- A write of a control frame. -/
  | control (op : ℕ) (frame : List UInt8) (ok : Bool)
  /-- The interface is up, or the chip has refused. -/
  | opened (ok : Bool)
  deriving DecidableEq, Repr

/-- What can happen next. -/
inductive NetTxAction where
  /-- `artosyn_net_xmit` is called. -/
  | xmit (skb : List UInt8)
  | xmitNext
  /-- A step of the work, with the outcome of a write. -/
  | workNext (ok : Bool)
  /-- A reply to a `so_write` arrives. -/
  | ack (sta : ℤ) (data : List UInt8)
  /-- `artosyn_net_open` up to the wait, with the outcome of its write. -/
  | openBegin (ok : Bool)
  /-- The reply, or none in time. -/
  | openEnd (sta : Option ℤ)
  /-- `artosyn_net_stop` up to `cancel_work_sync`. -/
  | stopBegin
  /-- The rest of it, with the outcome of its write. -/
  | stopEnd (removed ok : Bool)
  deriving DecidableEq, Repr

/-- `artosyn_net_xmit` up to the queue. -/
def NetTx.xmitBegin (s : NetTx) (skb : List UInt8) : NetTx × List NetTxEvent :=
  if s.iface ≠ .up ∨ s.queueStopped ∨ s.xmit ≠ .away then (s, [])
  else if s.sockOpen = false then ({ s with txDropped := s.txDropped + 1 }, [.refused skb])
  else ({ s with txq := s.txq ++ [skb], xmit := .queued }, [.accepted skb])

/-- `artosyn_net_xmit` goes on. -/
def NetTx.xmitNext (s : NetTx) : NetTx :=
  match s.xmit with
  | .away => s
  | .queued => { s with xmit := if netTxqStop ≤ s.txq.length then .full else .last }
  | .full => { s with queueStopped := true, xmit := .last }
  | .last => { s with workPending := true, xmit := .away }

/-- `net_tx_work` goes on, or starts. -/
def NetTx.workNext (p : NetParams) (s : NetTx) (ok : Bool) : NetTx × List NetTxEvent :=
  match s.work with
  | .away => (if s.workPending then { s with workPending := false, work := .top } else s, [])
  | .top =>
    match s.txq with
    | [] => ({ s with work := .bottom }, [])
    | skb :: txq => ({ s with txq, work := .taken skb }, [])
  | .taken skb => ({ s with work := if s.queueStopped then .stopped skb else .sending skb }, [])
  | .stopped skb =>
    ({ s with work := if s.txq.length < netTxqWake then .waking skb else .sending skb }, [])
  | .waking skb => ({ s with queueStopped := false, work := .sending skb }, [])
  | .sending skb =>
    if netTxStageSize < netFrameLen skb.length then
      ({ s with txDropped := s.txDropped + 1, work := .top }, [.tooLong skb])
    else
      let r := netBuildFrame s.net skb
      ({ s with net := r.1, work := .writing skb (netPad p.blockSize r.2 netTxStageSize) }, [])
  | .writing skb transfer =>
    (if ok then
        { s with txPackets := s.txPackets + 1, txBytes := s.txBytes + skb.length, work := .top }
      else { s with txErrors := s.txErrors + 1, work := .top },
      [.written skb transfer ok])
  | .bottom => ({ s with work := if s.queueStopped then .lastWake else .away }, [])
  | .lastWake => ({ s with queueStopped := false, work := .away }, [])

/-- `artosyn_net_open` up to the wait. -/
def NetTx.openBegin (p : NetParams) (s : NetTx) (ok : Bool) : NetTx × List NetTxEvent :=
  if s.iface ≠ .down then (s, [])
  else
    ({ s with
        net := { s.net with rxbuf := [], wrIndex := 0, msgid := s.net.msgid + 1 }
        sockOpen := ok
        iface := if ok then .opening else .down },
      [.control soOpen (controlFrame s.net soOpen (openOptions p)) ok])

/-- `artosyn_net_open` once it has waited. -/
def NetTx.openEnd (s : NetTx) (sta : Option ℤ) : NetTx × List NetTxEvent :=
  if s.iface ≠ .opening then (s, [])
  else if sta = none ∨ sta = some 0 ∨ sta = some soStaAlreadyOpen then
    ({ s with queueStopped := false, iface := .up }, [.opened true])
  else ({ s with sockOpen := false, iface := .down }, [.opened false])

/-- `artosyn_net_stop` up to `cancel_work_sync`. -/
def NetTx.stopBegin (s : NetTx) : NetTx :=
  if s.iface ≠ .up ∨ s.xmit ≠ .away then s
  else { s with queueStopped := true, sockOpen := false, iface := .stopping }

/-- `artosyn_net_stop` once the work is away. -/
def NetTx.stopEnd (s : NetTx) (removed ok : Bool) : NetTx × List NetTxEvent :=
  if s.iface ≠ .stopping ∨ s.work ≠ .away then (s, [])
  else
    ({ s with
        net := if removed then s.net else { s.net with msgid := s.net.msgid + 1 }
        workPending := false
        txq := []
        iface := .down },
      .purged s.txq ::
        if removed then [] else [.control soClose (controlFrame s.net soClose []) ok])

/-- One step. -/
def NetTx.step (p : NetParams) (s : NetTx) : NetTxAction → NetTx × List NetTxEvent
  | .xmit skb => s.xmitBegin skb
  | .xmitNext => (s.xmitNext, [])
  | .workNext ok => s.workNext p ok
  | .ack sta data => (if s.sockOpen then { s with net := netRxWriteAck s.net sta data } else s, [])
  | .openBegin ok => s.openBegin p ok
  | .openEnd sta => s.openEnd sta
  | .stopBegin => (s.stopBegin, [])
  | .stopEnd removed ok => s.stopEnd removed ok

/-- A run from probe on. -/
def netTxRun (p : NetParams) (net : ArtosynNet) (actions : List NetTxAction) :
    NetTx × List NetTxEvent :=
  Mealy.run (NetTx.step p) (.probed net) actions

/-! ### The threads -/

/-- The work is before a look at the queue. -/
def WorkAt.looks : WorkAt → Bool
  | .away | .bottom | .lastWake => false
  | _ => true

/-- The work has seen an empty queue. -/
def WorkAt.leaves : WorkAt → Bool
  | .bottom | .lastWake => true
  | _ => false

/-- What the threads may rely on. -/
structure Threads (s : NetTx) : Prop where
  idle : s.iface = .down ∨ s.iface = .opening →
    s.txq = [] ∧ s.work = .away ∧ s.workPending = false ∧ s.xmit = .away
  away : s.iface = .stopping → s.xmit = .away
  sock : s.iface = .opening ∨ s.iface = .up → s.sockOpen = true
  /-- Queued packets are looked for. -/
  looked : s.txq ≠ [] → s.workPending = true ∨ s.xmit ≠ .away ∨ s.work.looks = true
  /-- A stopped queue is woken. -/
  woken : s.iface = .up → s.queueStopped = true →
    s.workPending = true ∨ s.xmit ≠ .away ∨ s.work ≠ .away
  /-- Only the end of a call of `artosyn_net_xmit` sees the queue stopped. -/
  last : s.queueStopped = true → s.xmit = .away ∨ s.xmit = .last
  seen : ∀ skb, s.work = .stopped skb → s.queueStopped = true
  waking : ∀ skb, s.work = .waking skb → s.queueStopped = true ∧ s.txq.length < netTxqWake
  bound : s.txq.length ≤ netTxqStop + 1
  bound_open : s.queueStopped = false → (s.xmit = .away ∨ s.xmit = .last) →
    s.txq.length ≤ netTxqStop
  bound_leaves : s.work.leaves = true → s.txq.length ≤ netTxqStop ∧
    (s.queueStopped = false → (s.xmit = .away ∨ s.xmit = .last) → s.txq.length < netTxqStop)

theorem threads_probed (net : ArtosynNet) : Threads (.probed net) := by
  constructor <;> simp [NetTx.probed, WorkAt.leaves]

section Steps

variable {p : NetParams} {s : NetTx}

/-- The interface is up or coming down while a packet is handed over. -/
theorem Threads.not_idle_of_xmit (h : Threads s) (hxmit : s.xmit ≠ .away) :
    ¬ (s.iface = .down ∨ s.iface = .opening) :=
  fun hidle => hxmit (h.idle hidle).2.2.2

/-- Likewise while the work runs. -/
theorem Threads.not_idle_of_work (h : Threads s) (hwork : s.work ≠ .away) :
    ¬ (s.iface = .down ∨ s.iface = .opening) :=
  fun hidle => hwork (h.idle hidle).2.1

theorem Threads.xmitBegin (h : Threads s) (skb : List UInt8) : Threads (s.xmitBegin skb).1 := by
  rw [NetTx.xmitBegin]
  split_ifs with hbusy hsock
  · exact h
  · exact { h with }
  · simp only [not_or, not_not, Bool.not_eq_true] at hbusy
    obtain ⟨hup, hstarted, hxmit⟩ := hbusy
    exact {
      h with
      idle := fun hidle => by simp [hup] at hidle
      away := fun hstopping => by simp [hup] at hstopping
      looked := fun _ => .inr (.inl (by simp))
      woken := fun _ _ => .inr (.inl (by simp))
      last := fun hs => absurd hs (by simp [hstarted])
      waking := fun skb' hw => absurd (h.waking skb' hw).1 (by simp [hstarted])
      bound := by
        have hopen := h.bound_open hstarted (.inl hxmit)
        simp only [List.length_append, List.length_singleton]
        omega
      bound_open := fun _ hx => by rcases hx with hx | hx <;> cases hx
      bound_leaves := fun hw => by
        have hless := (h.bound_leaves hw).2 hstarted (.inl hxmit)
        refine ⟨?_, fun _ hx => by rcases hx with hx | hx <;> cases hx⟩
        simp only [List.length_append, List.length_singleton]
        omega }

theorem Threads.xmitNext (h : Threads s) : Threads s.xmitNext := by
  rw [NetTx.xmitNext]
  cases hxmit : s.xmit with
  | away => exact h
  | queued =>
    have hbusy : s.xmit ≠ .away := by simp [hxmit]
    have hstarted : s.queueStopped ≠ true := fun hs => by simpa [hxmit] using h.last hs
    have hroom : (if netTxqStop ≤ s.txq.length then XmitAt.full else .last) = .away ∨
        (if netTxqStop ≤ s.txq.length then XmitAt.full else .last) = .last →
          s.txq.length < netTxqStop := by
      split_ifs with hfull
      · rintro (hx | hx) <;> cases hx
      · exact fun _ => Nat.lt_of_not_le hfull
    have hnext : (if netTxqStop ≤ s.txq.length then XmitAt.full else .last) ≠ .away := by
      split_ifs <;> simp
    exact {
      h with
      idle := fun hidle => absurd hidle (h.not_idle_of_xmit hbusy)
      away := fun hstopping => absurd (h.away hstopping) hbusy
      looked := fun _ => .inr (.inl hnext)
      woken := fun _ _ => .inr (.inl hnext)
      last := fun hs => absurd hs hstarted
      bound_open := fun _ hx => (hroom hx).le
      bound_leaves := fun hw => ⟨(h.bound_leaves hw).1, fun _ hx => hroom hx⟩ }
  | full =>
    have hbusy : s.xmit ≠ .away := by simp [hxmit]
    exact {
      h with
      idle := fun hidle => absurd hidle (h.not_idle_of_xmit hbusy)
      away := fun hstopping => absurd (h.away hstopping) hbusy
      looked := fun _ => .inr (.inl (by simp))
      woken := fun _ _ => .inr (.inl (by simp))
      last := fun _ => .inr rfl
      seen := fun _ _ => rfl
      waking := fun skb hw => ⟨rfl, (h.waking skb hw).2⟩
      bound_open := fun hs => by cases hs
      bound_leaves := fun hw => ⟨(h.bound_leaves hw).1, fun hs => by cases hs⟩ }
  | last =>
    have hbusy : s.xmit ≠ .away := by simp [hxmit]
    exact {
      h with
      idle := fun hidle => absurd hidle (h.not_idle_of_xmit hbusy)
      away := fun _ => rfl
      looked := fun _ => .inl rfl
      woken := fun _ _ => .inl rfl
      last := fun _ => .inl rfl
      bound_open := fun hs _ => h.bound_open hs (.inr hxmit)
      bound_leaves := fun hw =>
        ⟨(h.bound_leaves hw).1, fun hs _ => (h.bound_leaves hw).2 hs (.inr hxmit)⟩ }

/-- The work goes on inside its loop, and nothing else changes that the threads rely on. -/
theorem Threads.goesOn {s' : NetTx} (h : Threads s) (hbusy : s.work ≠ .away)
    (hloop : s'.work.looks = true) (hiface : s'.iface = s.iface) (hsock : s'.sockOpen = s.sockOpen)
    (htxq : s'.txq = s.txq) (hstopped : s'.queueStopped = s.queueStopped)
    (hxmit : s'.xmit = s.xmit) (hseen : ∀ skb, s'.work = .stopped skb → s.queueStopped = true)
    (hwaking : ∀ skb, s'.work = .waking skb →
      s.queueStopped = true ∧ s.txq.length < netTxqWake) : Threads s' where
  idle hdown := absurd (h.idle (hiface ▸ hdown)).2.1 hbusy
  away hstopping := hxmit.trans (h.away (hiface ▸ hstopping))
  sock hup := hsock.trans (h.sock (hiface ▸ hup))
  looked _ := .inr (.inr hloop)
  woken _ _ := .inr (.inr fun haway => by rw [haway] at hloop; cases hloop)
  last hs := hxmit ▸ h.last (hstopped ▸ hs)
  seen skb hw := hstopped.trans (hseen skb hw)
  waking skb hw := ⟨hstopped.trans (hwaking skb hw).1, htxq ▸ (hwaking skb hw).2⟩
  bound := htxq ▸ h.bound
  bound_open hs hx := htxq ▸ h.bound_open (hstopped ▸ hs) (hxmit ▸ hx)
  bound_leaves hw := by
    cases hwork : s'.work <;> simp [hwork, WorkAt.leaves, WorkAt.looks] at hw hloop

theorem Threads.workNext (h : Threads s) (ok : Bool) : Threads (s.workNext p ok).1 := by
  rw [NetTx.workNext]
  cases hwork : s.work with
  | taken skb =>
    have hbusy : s.work ≠ .away := by simp [hwork]
    dsimp only
    split_ifs with hs
    · exact h.goesOn hbusy rfl rfl rfl rfl rfl rfl (fun _ _ => hs) fun _ hw => by cases hw
    · exact h.goesOn hbusy rfl rfl rfl rfl rfl rfl (fun _ hw => by cases hw) fun _ hw => by cases hw
  | stopped skb =>
    have hbusy : s.work ≠ .away := by simp [hwork]
    dsimp only
    split_ifs with hlow
    · exact h.goesOn hbusy rfl rfl rfl rfl rfl rfl (fun _ hw => by cases hw) fun _ _ =>
        ⟨h.seen skb hwork, hlow⟩
    · exact h.goesOn hbusy rfl rfl rfl rfl rfl rfl (fun _ hw => by cases hw) fun _ hw => by cases hw
  | sending skb =>
    have hbusy : s.work ≠ .away := by simp [hwork]
    dsimp only
    split_ifs
    · exact h.goesOn hbusy rfl rfl rfl rfl rfl rfl (fun _ hw => by cases hw) fun _ hw => by cases hw
    · exact h.goesOn hbusy rfl rfl rfl rfl rfl rfl (fun _ hw => by cases hw) fun _ hw => by cases hw
  | writing skb transfer =>
    have hbusy : s.work ≠ .away := by simp [hwork]
    cases ok
    · exact h.goesOn hbusy rfl rfl rfl rfl rfl rfl (fun _ hw => by cases hw) fun _ hw => by cases hw
    · exact h.goesOn hbusy rfl rfl rfl rfl rfl rfl (fun _ hw => by cases hw) fun _ hw => by cases hw
  | away =>
    dsimp only
    split_ifs with hpending
    · exact {
        h with
        idle := fun hidle => absurd hpending (by simp [(h.idle hidle).2.2.1])
        looked := fun _ => .inr (.inr rfl)
        woken := fun _ _ => .inr (.inr (by simp))
        seen := fun _ hw => by cases hw
        waking := fun _ hw => by cases hw
        bound_leaves := fun hw => by cases hw }
    · exact h
  | top =>
    have hbusy : s.work ≠ .away := by simp [hwork]
    cases hq : s.txq with
    | nil =>
      exact {
        h with
        idle := fun hidle => absurd hidle (h.not_idle_of_work hbusy)
        looked := fun hne => absurd rfl hne
        woken := fun _ _ => .inr (.inr (by simp))
        seen := fun _ hw => by cases hw
        waking := fun _ hw => by cases hw
        bound := Nat.zero_le _
        bound_open := fun _ _ => Nat.zero_le _
        bound_leaves := fun _ => ⟨Nat.zero_le _, fun _ _ => (by decide : 0 < netTxqStop)⟩ }
    | cons skb txq =>
      have hlen : txq.length + 1 = s.txq.length := by rw [hq, List.length_cons]
      exact {
        h with
        idle := fun hidle => absurd hidle (h.not_idle_of_work hbusy)
        looked := fun _ => .inr (.inr rfl)
        woken := fun _ _ => .inr (.inr (by simp))
        seen := fun _ hw => by cases hw
        waking := fun _ hw => by cases hw
        bound := (Nat.le_of_succ_le hlen.le).trans h.bound
        bound_open := fun hs hx => (Nat.le_of_succ_le hlen.le).trans (h.bound_open hs hx)
        bound_leaves := fun hw => by cases hw }
  | waking skb =>
    -- below the mark no call of `artosyn_net_xmit` is about to see a full queue
    have hbusy : s.work ≠ .away := by simp [hwork]
    have hlow := (h.waking skb hwork).2
    exact {
      h with
      idle := fun hidle => absurd hidle (h.not_idle_of_work hbusy)
      looked := fun _ => .inr (.inr rfl)
      woken := fun _ hs => by cases hs
      last := fun hs => by cases hs
      seen := fun _ hw => by cases hw
      waking := fun _ hw => by cases hw
      bound_open := fun _ _ => hlow.le.trans (by decide)
      bound_leaves := fun hw => by cases hw }
  | bottom =>
    have hbusy : s.work ≠ .away := by simp [hwork]
    have hlooked : s.txq ≠ [] → s.workPending = true ∨ s.xmit ≠ .away := fun hne => by
      simpa [hwork, WorkAt.looks] using h.looked hne
    dsimp only
    split_ifs with hs
    · exact {
        h with
        idle := fun hidle => absurd hidle (h.not_idle_of_work hbusy)
        looked := fun hne => (hlooked hne).imp_right .inl
        woken := fun _ _ => .inr (.inr (by simp))
        seen := fun _ hw => by cases hw
        waking := fun _ hw => by cases hw
        bound_leaves := fun _ => h.bound_leaves (by rw [hwork]; rfl) }
    · exact {
        h with
        idle := fun hidle => absurd hidle (h.not_idle_of_work hbusy)
        looked := fun hne => (hlooked hne).imp_right .inl
        woken := fun _ hstopped => absurd hstopped hs
        seen := fun _ hw => by cases hw
        waking := fun _ hw => by cases hw
        bound_leaves := fun hw => by cases hw }
  | lastWake =>
    have hbusy : s.work ≠ .away := by simp [hwork]
    have hlooked : s.txq ≠ [] → s.workPending = true ∨ s.xmit ≠ .away := fun hne => by
      simpa [hwork, WorkAt.looks] using h.looked hne
    exact {
      h with
      idle := fun hidle => absurd hidle (h.not_idle_of_work hbusy)
      looked := fun hne => (hlooked hne).imp_right .inl
      woken := fun _ hs => by cases hs
      last := fun hs => by cases hs
      seen := fun _ hw => by cases hw
      waking := fun _ hw => by cases hw
      bound_open := fun _ _ => (h.bound_leaves (by rw [hwork]; rfl)).1
      bound_leaves := fun hw => by cases hw }

theorem Threads.openBegin (h : Threads s) (ok : Bool) : Threads (s.openBegin p ok).1 := by
  rw [NetTx.openBegin]
  split_ifs with hnot hok
  · exact h
  · have hdown : s.iface = .down := not_not.mp hnot
    exact {
      h with
      idle := fun _ => h.idle (.inl hdown)
      away := fun hstopping => by cases hstopping
      sock := fun _ => hok
      woken := fun hup => by cases hup }
  · have hdown : s.iface = .down := not_not.mp hnot
    exact {
      h with
      idle := fun _ => h.idle (.inl hdown)
      away := fun hstopping => by cases hstopping
      sock := fun hup => by rcases hup with hup | hup <;> cases hup
      woken := fun hup => by cases hup }

theorem Threads.openEnd (h : Threads s) (sta : Option ℤ) : Threads (s.openEnd sta).1 := by
  rw [NetTx.openEnd]
  split_ifs with hnot hok
  · exact h
  · have hopening : s.iface = .opening := not_not.mp hnot
    obtain ⟨hempty, haway, -, -⟩ := h.idle (.inr hopening)
    exact {
      h with
      idle := fun hidle => by rcases hidle with hidle | hidle <;> cases hidle
      away := fun hstopping => by cases hstopping
      sock := fun _ => h.sock (.inl hopening)
      woken := fun _ hs => by cases hs
      last := fun hs => by cases hs
      seen := fun skb hw => absurd (haway.symm.trans hw) (by simp)
      waking := fun skb hw => absurd (haway.symm.trans hw) (by simp)
      bound_open := fun _ _ => by simp [hempty]
      bound_leaves := fun hw => absurd hw (by simp [haway, WorkAt.leaves]) }
  · have hopening : s.iface = .opening := not_not.mp hnot
    exact {
      h with
      idle := fun _ => h.idle (.inr hopening)
      away := fun hstopping => by cases hstopping
      sock := fun hup => by rcases hup with hup | hup <;> cases hup
      woken := fun hup => by cases hup }

theorem Threads.stopBegin (h : Threads s) : Threads s.stopBegin := by
  rw [NetTx.stopBegin]
  split_ifs with hnot
  · exact h
  · have hxmit : s.xmit = .away := not_not.mp (not_or.mp hnot).2
    exact {
      h with
      idle := fun hidle => by rcases hidle with hidle | hidle <;> cases hidle
      away := fun _ => hxmit
      sock := fun hup => by rcases hup with hup | hup <;> cases hup
      woken := fun hup => by cases hup
      last := fun _ => .inl hxmit
      seen := fun _ _ => rfl
      waking := fun skb hw => ⟨rfl, (h.waking skb hw).2⟩
      bound_open := fun hs => by cases hs
      bound_leaves := fun hw => ⟨(h.bound_leaves hw).1, fun hs => by cases hs⟩ }

theorem Threads.stopEnd (h : Threads s) (removed ok : Bool) :
    Threads (s.stopEnd removed ok).1 := by
  rw [NetTx.stopEnd]
  split_ifs with hnot
  · exact h
  all_goals
    have hstopping : s.iface = .stopping := not_not.mp (not_or.mp hnot).1
    have haway : s.work = .away := not_not.mp (not_or.mp hnot).2
    exact {
      h with
      idle := fun _ => ⟨rfl, haway, rfl, h.away hstopping⟩
      away := fun hstopping => by cases hstopping
      sock := fun hup => by rcases hup with hup | hup <;> cases hup
      looked := fun hne => absurd rfl hne
      woken := fun hup => by cases hup
      waking := fun skb hw => absurd (haway.symm.trans hw) (by simp)
      bound := Nat.zero_le _
      bound_open := fun _ _ => Nat.zero_le _
      bound_leaves := fun hw => absurd hw (by simp [haway, WorkAt.leaves]) }

theorem Threads.step (h : Threads s) (a : NetTxAction) : Threads (s.step p a).1 := by
  cases a with
  | xmit skb => exact h.xmitBegin skb
  | xmitNext => exact h.xmitNext
  | workNext ok => exact h.workNext ok
  | ack sta data =>
    obtain ⟨idle, away, sock, looked, woken, last, seen, waking, bound, bound_open,
      bound_leaves⟩ := h
    rw [NetTx.step]
    split_ifs <;> constructor <;> assumption
  | openBegin ok => exact h.openBegin ok
  | openEnd sta => exact h.openEnd sta
  | stopBegin => exact h.stopBegin
  | stopEnd removed ok => exact h.stopEnd removed ok

/-! ### The packets -/

/-- The packets that were queued, in order. -/
def acceptedPackets (log : List NetTxEvent) : List (List UInt8) :=
  log.flatMap fun
    | .accepted skb => [skb]
    | _ => []

/-- The packets that were written, dropped or purged, in order. -/
def disposedPackets (log : List NetTxEvent) : List (List UInt8) :=
  log.flatMap fun
    | .tooLong skb => [skb]
    | .written skb _ _ => [skb]
    | .purged skbs => skbs
    | _ => []

/-- The packet the work holds. -/
def WorkAt.inHand : WorkAt → List (List UInt8)
  | .taken skb | .stopped skb | .waking skb | .sending skb | .writing skb _ => [skb]
  | _ => []

/-- Every packet that was queued is disposed of, held or queued, once and in order. -/
def EachInTurn (s : NetTx) (log : List NetTxEvent) : Prop :=
  acceptedPackets log = disposedPackets log ++ s.work.inHand ++ s.txq

@[simp]
theorem acceptedPackets_append (log es : List NetTxEvent) :
    acceptedPackets (log ++ es) = acceptedPackets log ++ acceptedPackets es :=
  List.flatMap_append

@[simp]
theorem disposedPackets_append (log es : List NetTxEvent) :
    disposedPackets (log ++ es) = disposedPackets log ++ disposedPackets es :=
  List.flatMap_append

theorem EachInTurn.step {log : List NetTxEvent} (h : EachInTurn s log) (a : NetTxAction) :
    EachInTurn (s.step p a).1 (log ++ (s.step p a).2) := by
  rw [EachInTurn] at h ⊢
  rw [acceptedPackets_append, disposedPackets_append, h]
  cases a with
  | xmit skb =>
    rw [NetTx.step, NetTx.xmitBegin]
    split_ifs <;> simp [acceptedPackets, disposedPackets]
  | xmitNext =>
    rw [NetTx.step, NetTx.xmitNext]
    split <;> simp [acceptedPackets, disposedPackets]
  | workNext ok =>
    rw [NetTx.step, NetTx.workNext]
    cases hwork : s.work with
    | top => cases hq : s.txq <;> simp [acceptedPackets, disposedPackets, WorkAt.inHand]
    | waking | lastWake => simp [acceptedPackets, disposedPackets, WorkAt.inHand]
    | away | taken | stopped | sending | writing | bottom =>
      dsimp only
      split_ifs <;> simp [acceptedPackets, disposedPackets, WorkAt.inHand, hwork]
  | ack sta data =>
    rw [NetTx.step]
    split_ifs <;> simp [acceptedPackets, disposedPackets]
  | openBegin ok =>
    rw [NetTx.step, NetTx.openBegin]
    split_ifs <;> simp [acceptedPackets, disposedPackets]
  | openEnd sta =>
    rw [NetTx.step, NetTx.openEnd]
    split_ifs <;> simp [acceptedPackets, disposedPackets]
  | stopBegin =>
    rw [NetTx.step, NetTx.stopBegin]
    split_ifs <;> simp [acceptedPackets, disposedPackets]
  | stopEnd removed ok =>
    rw [NetTx.step, NetTx.stopEnd]
    split_ifs with hbusy
    · simp [acceptedPackets, disposedPackets]
    all_goals
      have haway : s.work = .away := not_not.mp (not_or.mp hbusy).2
      simp [acceptedPackets, disposedPackets, haway, WorkAt.inHand]

/-! ### What is counted -/

/-- A packet was dropped. -/
def NetTxEvent.isDrop : NetTxEvent → Bool
  | .refused _ | .tooLong _ => true
  | _ => false

/-- The packets whose write had this outcome. -/
def writtenPackets (ok : Bool) (log : List NetTxEvent) : List (List UInt8) :=
  log.flatMap fun
    | .written skb _ ok' => if ok' = ok then [skb] else []
    | _ => []

/-- The counters of the interface count what was dropped, failed and was sent. -/
structure NetTxCounted (s : NetTx) (log : List NetTxEvent) : Prop where
  dropped : s.txDropped = log.countP NetTxEvent.isDrop
  errors : s.txErrors = (writtenPackets false log).length
  packets : s.txPackets = (writtenPackets true log).length
  bytes : s.txBytes = ((writtenPackets true log).map List.length).sum

@[simp]
theorem writtenPackets_append (ok : Bool) (log es : List NetTxEvent) :
    writtenPackets ok (log ++ es) = writtenPackets ok log ++ writtenPackets ok es :=
  List.flatMap_append

/-- Nothing that is counted happens. -/
theorem NetTxCounted.same {s' : NetTx} {log es : List NetTxEvent} (h : NetTxCounted s log)
    (hdropped : s'.txDropped = s.txDropped) (herrors : s'.txErrors = s.txErrors)
    (hpackets : s'.txPackets = s.txPackets) (hbytes : s'.txBytes = s.txBytes)
    (hdrop : es.countP NetTxEvent.isDrop = 0) (hwritten : ∀ ok, writtenPackets ok es = []) :
    NetTxCounted s' (log ++ es) where
  dropped := by rw [hdropped, h.dropped, List.countP_append, hdrop, Nat.add_zero]
  errors := by rw [herrors, h.errors, writtenPackets_append, hwritten, List.append_nil]
  packets := by rw [hpackets, h.packets, writtenPackets_append, hwritten, List.append_nil]
  bytes := by rw [hbytes, h.bytes, writtenPackets_append, hwritten, List.append_nil]

/-- A packet is dropped. -/
theorem NetTxCounted.drop {log : List NetTxEvent} {e : NetTxEvent} (h : NetTxCounted s log)
    (he : e.isDrop = true) {s' : NetTx} (hdropped : s'.txDropped = s.txDropped + 1)
    (herrors : s'.txErrors = s.txErrors) (hpackets : s'.txPackets = s.txPackets)
    (hbytes : s'.txBytes = s.txBytes) : NetTxCounted s' (log ++ [e]) := by
  have hwritten (ok : Bool) : writtenPackets ok [e] = [] := by
    cases e <;> first | rfl | cases he
  refine ⟨?_, ?_, ?_, ?_⟩
  · rw [hdropped, h.dropped, List.countP_append, List.countP_singleton, if_pos he]
  · rw [herrors, h.errors, writtenPackets_append, hwritten, List.append_nil]
  · rw [hpackets, h.packets, writtenPackets_append, hwritten, List.append_nil]
  · rw [hbytes, h.bytes, writtenPackets_append, hwritten, List.append_nil]

theorem NetTxCounted.step {log : List NetTxEvent} (h : NetTxCounted s log) (a : NetTxAction) :
    NetTxCounted (s.step p a).1 (log ++ (s.step p a).2) := by
  cases a with
  | xmit skb =>
    rw [NetTx.step, NetTx.xmitBegin]
    split_ifs
    · exact h.same rfl rfl rfl rfl rfl fun _ => rfl
    · exact h.drop rfl rfl rfl rfl rfl
    · exact h.same rfl rfl rfl rfl rfl fun _ => rfl
  | xmitNext =>
    rw [NetTx.step, NetTx.xmitNext]
    split <;> exact h.same rfl rfl rfl rfl rfl fun _ => rfl
  | workNext ok =>
    rw [NetTx.step, NetTx.workNext]
    cases s.work with
    | top => cases s.txq <;> exact h.same rfl rfl rfl rfl rfl fun _ => rfl
    | waking | lastWake => exact h.same rfl rfl rfl rfl rfl fun _ => rfl
    | sending skb =>
      dsimp only
      split_ifs
      · exact h.drop rfl rfl rfl rfl rfl
      · exact h.same rfl rfl rfl rfl rfl fun _ => rfl
    | writing skb transfer =>
      obtain ⟨dropped, errors, packets, bytes⟩ := h
      cases ok <;> constructor <;> simp [writtenPackets, NetTxEvent.isDrop, *]
    | away | taken | stopped | bottom =>
      dsimp only
      split_ifs <;> exact h.same rfl rfl rfl rfl rfl fun _ => rfl
  | ack sta data =>
    rw [NetTx.step]
    split_ifs <;> exact h.same rfl rfl rfl rfl rfl fun _ => rfl
  | openBegin ok =>
    rw [NetTx.step, NetTx.openBegin]
    split_ifs <;> exact h.same rfl rfl rfl rfl rfl fun _ => rfl
  | openEnd sta =>
    rw [NetTx.step, NetTx.openEnd]
    split_ifs <;> exact h.same rfl rfl rfl rfl rfl fun _ => rfl
  | stopBegin =>
    rw [NetTx.step, NetTx.stopBegin]
    split_ifs <;> exact h.same rfl rfl rfl rfl rfl fun _ => rfl
  | stopEnd removed ok =>
    rw [NetTx.step, NetTx.stopEnd]
    split_ifs <;> exact h.same rfl rfl rfl rfl rfl fun _ => rfl

/-! ### What is written -/

/-- The interface was opened last, and not stopped since. -/
def inSession (log : List NetTxEvent) : Bool :=
  log.foldl (fun b e =>
    match e with
    | .opened ok => ok
    | .purged _ => false
    | _ => b) false

/-- A transfer is the frame of a packet with padding: one block at most, or whole blocks. -/
def Framed (p : NetParams) (skb transfer : List UInt8) : Prop :=
  (∃ net n, transfer = (netBuildFrame net skb).2 ++ List.replicate n 0) ∧
    (transfer.length ≤ p.blockSize ∨ p.blockSize ∣ transfer.length)

/-- Packets are written while the interface is open, control frames while it is not. -/
def ProperWrite (p : NetParams) (past : List NetTxEvent) : NetTxEvent → Prop
  | .written skb transfer _ => inSession past = true ∧ Framed p skb transfer
  | .control _ _ _ => inSession past = false
  | .refused _ => False
  | _ => True

theorem netPad_spec (p : NetParams) {buf : List UInt8} (h : buf.length ≤ netTxStageSize) :
    (∃ n, netPad p.blockSize buf netTxStageSize = buf ++ List.replicate n 0) ∧
      ((netPad p.blockSize buf netTxStageSize).length ≤ p.blockSize ∨
        p.blockSize ∣ (netPad p.blockSize buf netTxStageSize).length) := by
  obtain ⟨blocks, hblocks⟩ := p.blockSize_dvd
  have hpos := p.blockSize_pos
  rw [netPad]
  split_ifs with hlong hfull hfull
  · -- whole blocks always fit
    have hle : (buf.length + p.blockSize - 1) / p.blockSize ≤ blocks := by
      rw [← Nat.lt_succ_iff, Nat.div_lt_iff_lt_mul hpos, Nat.succ_mul, Nat.mul_comm]
      omega
    have hmul := Nat.mul_le_mul_right p.blockSize hle
    rw [Nat.mul_comm blocks] at hmul
    omega
  · refine ⟨⟨_, rfl⟩, .inr ?_⟩
    have hceil : buf.length ≤ (buf.length + p.blockSize - 1) / p.blockSize * p.blockSize := by
      have hdiv := Nat.div_add_mod (buf.length + p.blockSize - 1) p.blockSize
      have hmod := Nat.mod_lt (buf.length + p.blockSize - 1) hpos
      rw [Nat.mul_comm] at hdiv
      omega
    rw [List.length_append, List.length_replicate, Nat.add_sub_cancel' hceil]
    exact Nat.dvd_mul_left _ _
  · exact ⟨⟨0, (List.append_nil _).symm⟩, .inl (by omega)⟩
  · refine ⟨⟨_, rfl⟩, .inl ?_⟩
    rw [Nat.sub_self, List.replicate_zero, List.append_nil]
    omega

theorem length_netBuildFrame (net : ArtosynNet) (skb : List UInt8) :
    (netBuildFrame net skb).2.length = netFrameLen skb.length := by
  simp [netBuildFrame, netFrameLen, rpcPutHdr, dgram, dgramHdr, length_be32, rpcOverhead,
    rpcHdrLen, soPosLen, dgramOverhead, dgramHdrLen]
  omega

@[simp]
theorem inSession_concat (log : List NetTxEvent) (e : NetTxEvent) :
    inSession (log ++ [e]) =
      match e with
      | .opened ok => ok
      | .purged _ => false
      | _ => inSession log := by
  rw [inSession, List.foldl_append]
  rfl

/-- What was written was proper, and what will be written is. -/
structure NetTxWrites (p : NetParams) (s : NetTx) (log : List NetTxEvent) : Prop where
  proper : Always (ProperWrite p) log
  session : inSession log = true ↔ s.iface = .up ∨ s.iface = .stopping
  staged : ∀ skb transfer, s.work = .writing skb transfer → Framed p skb transfer

/-- Nothing is written, and the interface is as before. -/
theorem NetTxWrites.silent {log : List NetTxEvent} {s' : NetTx} (h : NetTxWrites p s log)
    (hiface : s'.iface = s.iface)
    (hwork : ∀ skb transfer, s'.work = .writing skb transfer → Framed p skb transfer) :
    NetTxWrites p s' (log ++ []) where
  proper := by simpa using h.proper
  session := by rw [List.append_nil, hiface]; exact h.session
  staged := hwork

theorem NetTxWrites.xmitBegin {log : List NetTxEvent} (h : NetTxWrites p s log)
    (hthreads : Threads s) (skb : List UInt8) :
    NetTxWrites p (s.xmitBegin skb).1 (log ++ (s.xmitBegin skb).2) := by
  rw [NetTx.xmitBegin]
  split_ifs with hbusy hsock
  · exact h.silent rfl h.staged
  · have hup : s.iface = .up := by tauto
    rw [hthreads.sock (.inr hup)] at hsock
    cases hsock
  · exact ⟨h.proper.concat trivial, by rw [inSession_concat]; exact h.session, h.staged⟩

theorem NetTxWrites.workNext {log : List NetTxEvent} (h : NetTxWrites p s log)
    (hthreads : Threads s) (ok : Bool) :
    NetTxWrites p (s.workNext p ok).1 (log ++ (s.workNext p ok).2) := by
  rw [NetTx.workNext]
  cases hwork : s.work with
  | top => cases s.txq <;> exact h.silent rfl fun _ _ hw => by cases hw
  | waking | lastWake => exact h.silent rfl fun _ _ hw => by cases hw
  | away =>
    dsimp only
    split_ifs
    · exact h.silent rfl fun _ _ hw => by cases hw
    · exact h.silent rfl h.staged
  | taken | stopped | bottom =>
    dsimp only
    split_ifs <;> exact h.silent rfl fun _ _ hw => by cases hw
  | sending skb =>
    dsimp only
    split_ifs with hlong
    · refine ⟨h.proper.concat trivial, by rw [inSession_concat]; exact h.session, ?_⟩
      intro _ _ hw
      cases hw
    · refine h.silent rfl fun skb' transfer hw => ?_
      obtain ⟨rfl, rfl⟩ := WorkAt.writing.inj hw
      have hlen : (netBuildFrame s.net skb).2.length ≤ netTxStageSize := by
        rw [length_netBuildFrame]
        exact Nat.le_of_not_lt hlong
      obtain ⟨⟨n, hpad⟩, hwhole⟩ := netPad_spec p hlen
      exact ⟨⟨_, n, hpad⟩, hwhole⟩
  | writing skb transfer =>
    have hopen : inSession log = true := by
      rw [h.session]
      cases hiface : s.iface with
      | down => exact absurd (hthreads.idle (.inl hiface)).2.1 (by rw [hwork]; simp)
      | opening => exact absurd (hthreads.idle (.inr hiface)).2.1 (by rw [hwork]; simp)
      | up => exact .inl rfl
      | stopping => exact .inr rfl
    refine ⟨h.proper.concat ⟨hopen, h.staged skb transfer hwork⟩, ?_, ?_⟩
    · rw [inSession_concat]
      cases ok <;> exact h.session
    · intro _ _ hw
      cases ok <;> cases hw

theorem NetTxWrites.openBegin {log : List NetTxEvent} (h : NetTxWrites p s log) (ok : Bool) :
    NetTxWrites p (s.openBegin p ok).1 (log ++ (s.openBegin p ok).2) := by
  rw [NetTx.openBegin]
  by_cases hdown : s.iface = .down
  · have hclosed : inSession log = false := by
      rw [← Bool.not_eq_true, h.session, hdown]
      decide
    rw [if_neg (not_not.mpr hdown)]
    refine ⟨h.proper.concat hclosed, ?_, h.staged⟩
    rw [inSession_concat]
    cases ok <;> simp [hclosed]
  · rw [if_pos hdown]
    exact h.silent rfl h.staged

theorem NetTxWrites.openEnd {log : List NetTxEvent} (h : NetTxWrites p s log) (sta : Option ℤ) :
    NetTxWrites p (s.openEnd sta).1 (log ++ (s.openEnd sta).2) := by
  rw [NetTx.openEnd]
  split_ifs
  · exact h.silent rfl h.staged
  · exact ⟨h.proper.concat trivial, by simp, h.staged⟩
  · exact ⟨h.proper.concat trivial, by simp, h.staged⟩

theorem NetTxWrites.stopBegin {log : List NetTxEvent} (h : NetTxWrites p s log) :
    NetTxWrites p s.stopBegin (log ++ []) := by
  rw [NetTx.stopBegin]
  split_ifs with hbusy
  · exact h.silent rfl h.staged
  · have hup : s.iface = .up := by tauto
    refine ⟨by simpa using h.proper, ?_, h.staged⟩
    rw [List.append_nil, h.session, hup]
    simp

theorem NetTxWrites.stopEnd {log : List NetTxEvent} (h : NetTxWrites p s log) (removed ok : Bool) :
    NetTxWrites p (s.stopEnd removed ok).1 (log ++ (s.stopEnd removed ok).2) := by
  rw [NetTx.stopEnd]
  split_ifs with hbusy
  · exact h.silent rfl h.staged
  · exact ⟨h.proper.concat trivial, by simp, h.staged⟩
  · have hpurged : Always (ProperWrite p) (log ++ [.purged s.txq]) := h.proper.concat trivial
    rw [← List.singleton_append, ← List.append_assoc]
    refine ⟨hpurged.concat (inSession_concat log _), ?_, h.staged⟩
    rw [inSession_concat, inSession_concat]
    simp

theorem NetTxWrites.step {log : List NetTxEvent} (h : NetTxWrites p s log) (hthreads : Threads s)
    (a : NetTxAction) : NetTxWrites p (s.step p a).1 (log ++ (s.step p a).2) := by
  cases a with
  | xmit skb => exact h.xmitBegin hthreads skb
  | xmitNext =>
    rw [NetTx.step, NetTx.xmitNext]
    split <;> exact h.silent rfl h.staged
  | workNext ok => exact h.workNext hthreads ok
  | ack sta data =>
    rw [NetTx.step]
    split_ifs <;> exact h.silent rfl h.staged
  | openBegin ok => exact h.openBegin ok
  | openEnd sta => exact h.openEnd sta
  | stopBegin => exact h.stopBegin
  | stopEnd removed ok => exact h.stopEnd removed ok

/-! ### Left alone -/

/-- The steps the work has before it, if it is left alone. -/
def WorkAt.rank : WorkAt → ℕ
  | .away => 0
  | .lastWake => 1
  | .bottom => 2
  | .top => 3
  | .writing _ _ => 4
  | .sending _ => 5
  | .waking _ => 6
  | .stopped _ => 7
  | .taken _ => 8

/-- The same with its queue. -/
def NetTx.todo (s : NetTx) : ℕ :=
  6 * s.txq.length + s.work.rank + if s.workPending then 4 else 0

/-- Neither thread has anything to do. -/
def NetTx.Quiet (s : NetTx) : Prop := s.xmit = .away ∧ s.work = .away ∧ s.workPending = false

theorem Threads.quiet (h : Threads s) (hup : s.iface = .up) (hquiet : s.Quiet) :
    s.txq = [] ∧ s.queueStopped = false := by
  obtain ⟨hxmit, hwork, hpending⟩ := hquiet
  refine ⟨by_contra fun hne => ?_, by_contra fun hne => ?_⟩
  · have hlooked := h.looked hne
    rw [hpending, hwork] at hlooked
    simp [hxmit, WorkAt.looks] at hlooked
  · have hwoken := h.woken hup (eq_true_of_ne_false hne)
    simp [hpending, hwork, hxmit] at hwoken

/-- The work comes closer to its end with every step. -/
theorem workNext_todo (hxmit : s.xmit = .away) (ok : Bool) :
    (s.workNext p ok).1.xmit = .away ∧ (s.workNext p ok).1.iface = s.iface ∧
      ((s.workNext p ok).1.todo < s.todo ∨ s.Quiet ∧ (s.workNext p ok).1 = s) := by
  rw [NetTx.workNext]
  cases hwork : s.work with
  | top =>
    cases hq : s.txq with
    | nil => simp [NetTx.todo, WorkAt.rank, hwork, hq, hxmit]
    | cons skb txq =>
      simp [NetTx.todo, WorkAt.rank, hwork, hq, hxmit]
      omega
  | waking | lastWake => simp [NetTx.todo, WorkAt.rank, hwork, hxmit]
  | away =>
    dsimp only
    split_ifs with hpending
    · simp [NetTx.todo, WorkAt.rank, hwork, hxmit, hpending]
    · exact ⟨hxmit, rfl, .inr ⟨⟨hxmit, hwork, eq_false_of_ne_true hpending⟩, rfl⟩⟩
  | taken | stopped | bottom | sending =>
    dsimp only
    split_ifs <;> simp [NetTx.todo, WorkAt.rank, hwork, hxmit]
  | writing => cases ok <;> simp [NetTx.todo, WorkAt.rank, hwork, hxmit]

theorem workNext_quiet (hquiet : s.Quiet) (ok : Bool) : (s.workNext p ok).1 = s := by
  obtain ⟨-, hwork, hpending⟩ := hquiet
  rw [NetTx.workNext, hwork, hpending]
  rfl

theorem run_workNext_quiet (hquiet : s.Quiet) (oks : List Bool) :
    (Mealy.run (NetTx.step p) s (oks.map .workNext)).1 = s := by
  induction oks with
  | nil => rfl
  | cons ok oks ih =>
    rw [List.map_cons, Mealy.run_cons]
    dsimp only
    rw [NetTx.step, workNext_quiet hquiet]
    exact ih

/-- Left alone for long enough, the work has nothing to do. -/
theorem quiet_of_todo_le (hxmit : s.xmit = .away) (oks : List Bool) (htodo : s.todo ≤ oks.length) :
    (Mealy.run (NetTx.step p) s (oks.map .workNext)).1.Quiet ∧
      (Mealy.run (NetTx.step p) s (oks.map .workNext)).1.iface = s.iface := by
  induction oks generalizing s with
  | nil =>
    refine ⟨⟨hxmit, ?_, ?_⟩, rfl⟩
    · cases hwork : s.work <;> simp [NetTx.todo, WorkAt.rank, hwork] at htodo ⊢
    · cases hpending : s.workPending <;> simp [NetTx.todo, hpending] at htodo ⊢
  | cons ok oks ih =>
    obtain ⟨hxmit', hiface, hless | ⟨hquiet, -⟩⟩ := workNext_todo (p := p) hxmit ok
    · rw [List.length_cons] at htodo
      rw [List.map_cons, Mealy.run_cons]
      exact ⟨(ih hxmit' (by omega)).1, (ih hxmit' (by omega)).2.trans hiface⟩
    · rw [run_workNext_quiet hquiet]
      exact ⟨hquiet, rfl⟩

/-- The call of `artosyn_net_xmit` that is under way comes to its end. -/
theorem xmitNext_away (s : NetTx) : s.xmitNext.xmitNext.xmitNext.xmit = .away ∧
    s.xmitNext.xmitNext.xmitNext.iface = s.iface ∧
      s.xmitNext.xmitNext.xmitNext.todo ≤ s.todo + 4 := by
  cases hxmit : s.xmit with
  | away => simp [NetTx.xmitNext, hxmit]
  | queued =>
    by_cases hfull : netTxqStop ≤ s.txq.length <;> cases s.workPending <;>
      simp [NetTx.xmitNext, hxmit, hfull, NetTx.todo]
  | full => cases s.workPending <;> simp [NetTx.xmitNext, hxmit, NetTx.todo]
  | last => cases s.workPending <;> simp [NetTx.xmitNext, hxmit, NetTx.todo]

end Steps

/-! ### Runs -/

/-- All of the invariant. -/
theorem netTxRun_invariant (p : NetParams) (net : ArtosynNet) (actions : List NetTxAction) :
    Threads (netTxRun p net actions).1 ∧
      EachInTurn (netTxRun p net actions).1 (netTxRun p net actions).2 ∧
      NetTxCounted (netTxRun p net actions).1 (netTxRun p net actions).2 ∧
      NetTxWrites p (netTxRun p net actions).1 (netTxRun p net actions).2 := by
  refine Mealy.run_induction (motive := fun _ s log => Threads s ∧ EachInTurn s log ∧
    NetTxCounted s log ∧ NetTxWrites p s log) _ ?_ ?_ actions
  · refine ⟨threads_probed net, rfl, ⟨rfl, rfl, rfl, rfl⟩, always_nil, ?_, ?_⟩
    · simp [inSession, NetTx.probed]
    · intro _ _ hw
      cases hw
  · rintro _ a s log ⟨hthreads, horder, hcounted, hwrites⟩
    exact ⟨hthreads.step a, horder.step a, hcounted.step a, hwrites.step hthreads a⟩

/-- **No packet is lost, doubled or overtaken, and no wake-up is missed**, in whatever order the
threads take their steps and whatever the chip answers. Every packet that was queued is disposed
of, held or queued, once and in order, and the counters count what became of it; packets are
written whole and only while the socket is open; the queue holds at most one packet more than the
stop mark. And if the interface is up and the threads are left alone for long enough, the queue
is empty and open again, whatever the writes come to. -/
theorem netdev_tx (p : NetParams) (net : ArtosynNet) (actions : List NetTxAction) :
    let s := (netTxRun p net actions).1
    let log := (netTxRun p net actions).2
    EachInTurn s log ∧ NetTxCounted s log ∧ Always (ProperWrite p) log ∧
      s.txq.length ≤ netTxqStop + 1 ∧
      (s.iface = .up → ∀ oks : List Bool, s.todo + 4 ≤ oks.length →
        let s' := (netTxRun p net
          (actions ++ (List.replicate 3 .xmitNext ++ oks.map .workNext))).1
        s'.txq = [] ∧ s'.work.inHand = [] ∧ s'.queueStopped = false) := by
  intro s log
  obtain ⟨hthreads, horder, hcounted, hwrites⟩ := netTxRun_invariant p net actions
  refine ⟨horder, hcounted, hwrites.proper, hthreads.bound, fun hup oks hlen => ?_⟩
  intro s'
  obtain ⟨hxmit, hiface, htodo⟩ := xmitNext_away s
  obtain ⟨hquiet, hsame⟩ := quiet_of_todo_le (p := p) hxmit oks (htodo.trans hlen)
  have hs' : s' = (Mealy.run (NetTx.step p) s.xmitNext.xmitNext.xmitNext
      (oks.map .workNext)).1 := by
    show (netTxRun p net _).1 = _
    rw [netTxRun, Mealy.run_append, Mealy.run_append]
    rfl
  rw [← hs'] at hquiet hsame
  have hdone := (netTxRun_invariant p net _).1.quiet ((hsame.trans hiface).trans hup) hquiet
  refine ⟨hdone.1, ?_, hdone.2⟩
  rw [hquiet.2.1]
  rfl

end Ar8030
