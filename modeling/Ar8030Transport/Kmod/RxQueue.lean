import Mathlib.Algebra.GroupWithZero.Nat
import Mathlib.Algebra.BigOperators.Group.List.Basic
import Ar8030Transport.Library.Mealy
import Ar8030Transport.Library.Trace

/-!
# The receive queue of the character device

In `net_mode` the interrupt side appends every transfer that is not for the network device to
`cdev_rxq` (`artosyn_cdev_rx_queue`), and `read()` hands the queued transfers out as a byte
stream (`artosyn_cdev_read`), both in `kmod/artosyn_sdio.c`.

The machine below takes one spinlock section at a time. A transfer is under way between the
test of `open_count` and the queue; a read holds the transfer it has dequeued while it copies,
and then puts back all of it or what the caller did not take. `io_mutex` lets one read at a
time hold a transfer, and the claim of the SDIO host one transfer at a time arrive.

`QueueInv` is the invariant: while the device is open, what was accepted is what was returned,
followed by what a read holds and what is queued, and `cdev_rxq_bytes` counts the last two. The
last `release` discards what nobody has read.
-/

namespace Ar8030

open Trace

/-- `CDEV_RXQ_MAX_BYTES`. -/
def cdevRxqMaxBytes : ℕ := 2 * 1024 * 1024

/-- A received transfer. No skb holds 2 GiB or more. -/
structure Skb where
  data : List UInt8
  length_lt : data.length < 2 ^ 31

/-- `skb->len`. -/
def Skb.len (skb : Skb) : ℕ := skb.data.length

/-- `skb_pull`. -/
def Skb.pull (skb : Skb) (n : ℕ) : Skb where
  data := skb.data.drop n
  length_lt := by
    have := skb.length_lt
    rw [List.length_drop]
    omega

/-- The part of `struct artosyn_dev` behind the character device's `read()`, with the transfer
that is under way to the queue and the read that holds one. -/
structure CdevRx where
  openCount : ℕ
  rxq : List Skb
  rxqBytes : UInt32
  rxDrops : ℕ
  /-- Past the test of `open_count`, before the spinlock. -/
  arriving : Option Skb
  /-- The transfer a read has dequeued, and the size of the read. -/
  reading : Option (Skb × ℕ)

/-- After probe. -/
def CdevRx.init : CdevRx where
  openCount := 0
  rxq := []
  rxqBytes := 0
  rxDrops := 0
  arriving := none
  reading := none

/-- A step of one of the threads. -/
inductive CdevAction where
  /-- `artosyn_open`. -/
  | openFile
  /-- `artosyn_release`. -/
  | releaseFile
  /-- `artosyn_cdev_rx_queue` up to the spinlock. -/
  | arrive (skb : Skb)
  /-- The spinlock section of `artosyn_cdev_rx_queue`. -/
  | enqueue
  /-- `skb_dequeue` of a read of `count` bytes. -/
  | take (count : ℕ)
  /-- The rest of the read, with `copy_to_user` faulting or not. -/
  | finish (fault : Bool)

/-- What an observer sees. -/
inductive CdevEvent where
  /-- `open_count` rose from 0. -/
  | rose
  /-- A transfer was queued. -/
  | accepted (data : List UInt8)
  /-- A read returned bytes. -/
  | returned (bytes : List UInt8)

/-- `artosyn_cdev_rx_queue` once it holds the spinlock. -/
def CdevRx.enqueue (s : CdevRx) (skb : Skb) : CdevRx × List CdevEvent :=
  if cdevRxqMaxBytes < (s.rxqBytes + UInt32.ofNat skb.len).toNat then
    ({ s with arriving := none, rxDrops := s.rxDrops + 1 }, [])
  else
    ({ s with
        arriving := none
        rxqBytes := s.rxqBytes + UInt32.ofNat skb.len
        rxq := s.rxq ++ [skb] },
      [.accepted skb.data])

/-- `artosyn_cdev_read` once it holds a transfer. -/
def CdevRx.finishRead (s : CdevRx) (skb : Skb) (count : ℕ) (fault : Bool) :
    CdevRx × List CdevEvent :=
  let n := min count skb.len
  if fault then ({ s with reading := none, rxq := skb :: s.rxq }, [])
  else
    ({ s with
        reading := none
        rxqBytes := s.rxqBytes - UInt32.ofNat n
        rxq := if n < skb.len then skb.pull n :: s.rxq else s.rxq },
      [.returned (skb.data.take n)])

/-- One step. What the locks or the caller exclude does nothing: a read while another holds a
transfer, a transfer while another is under way, and opening or closing during either. -/
def CdevRx.step (s : CdevRx) : CdevAction → CdevRx × List CdevEvent
  | .openFile =>
    if s.reading.isSome ∨ s.arriving.isSome then (s, [])
    else ({ s with openCount := s.openCount + 1 }, if s.openCount = 0 then [.rose] else [])
  | .releaseFile =>
    if s.reading.isSome ∨ s.arriving.isSome ∨ s.openCount = 0 then (s, [])
    else if s.openCount - 1 = 0 then ({ s with openCount := 0, rxq := [], rxqBytes := 0 }, [])
    else ({ s with openCount := s.openCount - 1 }, [])
  | .arrive skb =>
    if s.arriving.isSome then (s, [])
    else if s.openCount = 0 then ({ s with rxDrops := s.rxDrops + 1 }, [])
    else ({ s with arriving := some skb }, [])
  | .enqueue =>
    match s.arriving with
    | none => (s, [])
    | some skb => s.enqueue skb
  | .take count =>
    match s.reading, s.rxq with
    | none, skb :: rxq => ({ s with rxq := rxq, reading := some (skb, count) }, [])
    | _, _ => (s, [])
  | .finish fault =>
    match s.reading with
    | none => (s, [])
    | some (skb, count) => s.finishRead skb count fault

/-- A run from probe on. -/
def cdevRun (actions : List CdevAction) : CdevRx × List CdevEvent :=
  Mealy.run CdevRx.step .init actions

/-! ### The byte stream -/

/-- The bytes of the transfers accepted. -/
def acceptedBytes (log : List CdevEvent) : List UInt8 :=
  log.flatMap fun
    | .accepted data => data
    | _ => []

/-- The bytes that reads returned. -/
def returnedBytes (log : List CdevEvent) : List UInt8 :=
  log.flatMap fun
    | .returned bytes => bytes
    | _ => []

/-- Whether `open_count` rose from 0. -/
def CdevEvent.isRose : CdevEvent → Bool
  | .rose => true
  | _ => false

/-- What happened since the last time `open_count` rose from 0. -/
def sinceOpen (log : List CdevEvent) : List CdevEvent := sinceLast CdevEvent.isRose log

/-- The transfers still to be read: the one a read holds, and those queued. -/
def CdevRx.unread (s : CdevRx) : List Skb := (s.reading.map Prod.fst).toList ++ s.rxq

/-- The bytes still to be read. -/
def CdevRx.unreadBytes (s : CdevRx) : List UInt8 := s.unread.flatMap Skb.data

/-- The queue and its counter, and the byte stream since the device was opened. -/
structure QueueInv (s : CdevRx) (log : List CdevEvent) : Prop where
  /-- What was accepted is what was returned and what is still to be read. -/
  stream : s.openCount ≠ 0 →
    acceptedBytes (sinceOpen log) = returnedBytes (sinceOpen log) ++ s.unreadBytes
  returned : returnedBytes (sinceOpen log) <+: acceptedBytes (sinceOpen log)
  count : s.rxqBytes.toNat = (s.unread.map Skb.len).sum
  bound : s.rxqBytes.toNat ≤ cdevRxqMaxBytes
  /-- Without a reader nothing is queued, and nothing is under way. -/
  closed : s.openCount = 0 → s.unread = [] ∧ s.arriving = none

@[simp]
theorem acceptedBytes_append (log log' : List CdevEvent) :
    acceptedBytes (log ++ log') = acceptedBytes log ++ acceptedBytes log' := List.flatMap_append

@[simp]
theorem returnedBytes_append (log log' : List CdevEvent) :
    returnedBytes (log ++ log') = returnedBytes log ++ returnedBytes log' := List.flatMap_append

theorem sinceOpen_append {log evs : List CdevEvent} (h : ∀ e ∈ evs, e.isRose = false) :
    sinceOpen (log ++ evs) = sinceOpen log ++ evs := sinceLast_append h

theorem sinceOpen_rose (log : List CdevEvent) : sinceOpen (log ++ [.rose]) = [.rose] :=
  sinceLast_concat log .rose

theorem toNat_add_ofNat {a : UInt32} {n : ℕ} (h : a.toNat + n < 2 ^ 32) :
    (a + UInt32.ofNat n).toNat = a.toNat + n := by
  rw [UInt32.toNat_add, UInt32.toNat_ofNat_of_lt' (show n < 2 ^ 32 by omega),
    Nat.mod_eq_of_lt h]

theorem toNat_sub_ofNat {a : UInt32} {n : ℕ} (h : n ≤ a.toNat) :
    (a - UInt32.ofNat n).toNat = a.toNat - n := by
  have hlt := a.toNat_lt
  have hn : (UInt32.ofNat n).toNat = n := UInt32.toNat_ofNat_of_lt' (show n < 2 ^ 32 by omega)
  rw [UInt32.toNat_sub_of_le _ _ (UInt32.le_iff_toNat_le.mpr (by omega)), hn]

section Step

variable {s : CdevRx} {log : List CdevEvent}

theorem queueInv_init : QueueInv .init [] where
  stream _ := rfl
  returned := List.prefix_rfl
  count := rfl
  bound := Nat.zero_le _
  closed _ := ⟨rfl, rfl⟩

/-- A step that leaves the queue and the log alone. -/
theorem QueueInv.of_eq {s' : CdevRx} (h : QueueInv s log) (hunread : s'.unread = s.unread)
    (hbytes : s'.rxqBytes = s.rxqBytes) (hopen : s'.openCount ≠ 0 → s.openCount ≠ 0)
    (hclosed : s'.openCount = 0 → s.openCount = 0 ∧ s'.arriving = s.arriving) :
    QueueInv s' (log ++ []) where
  stream h0 := by
    rw [List.append_nil, CdevRx.unreadBytes, hunread]
    exact h.stream (hopen h0)
  returned := by
    rw [List.append_nil]
    exact h.returned
  count := by
    rw [hbytes, hunread]
    exact h.count
  bound := by
    rw [hbytes]
    exact h.bound
  closed h0 := by
    obtain ⟨hzero, harriving⟩ := hclosed h0
    rw [hunread, harriving]
    exact h.closed hzero

/-- A step on an open device that reads from the front of the stream or adds to its end. -/
theorem QueueInv.of_stream {s' : CdevRx} {evs : List CdevEvent} (h : QueueInv s log)
    (hevs : ∀ e ∈ evs, e.isRose = false) (h0 : s.openCount ≠ 0) (hopen : s'.openCount ≠ 0)
    (hstream : s.unreadBytes ++ acceptedBytes evs = returnedBytes evs ++ s'.unreadBytes)
    (hcount : s'.rxqBytes.toNat = (s'.unread.map Skb.len).sum)
    (hbound : s'.rxqBytes.toNat ≤ cdevRxqMaxBytes) : QueueInv s' (log ++ evs) := by
  have heq : acceptedBytes (sinceOpen (log ++ evs)) =
      returnedBytes (sinceOpen (log ++ evs)) ++ s'.unreadBytes := by
    rw [sinceOpen_append hevs, acceptedBytes_append, returnedBytes_append, h.stream h0,
      List.append_assoc, hstream, List.append_assoc]
  exact ⟨fun _ => heq, heq ▸ List.prefix_append _ _, hcount, hbound, fun hz => absurd hz hopen⟩

theorem QueueInv.openFile (h : QueueInv s log) :
    QueueInv (s.step .openFile).1 (log ++ (s.step .openFile).2) := by
  rw [CdevRx.step]
  split_ifs with hbusy h0
  · exact h.of_eq rfl rfl id fun h0 => ⟨h0, rfl⟩
  · -- nothing is queued when the device is opened
    have hunread : ({ s with openCount := s.openCount + 1 } : CdevRx).unread = [] :=
      (h.closed h0).1
    refine ⟨fun _ => ?_, ?_, h.count, h.bound, fun hz => absurd hz (Nat.succ_ne_zero _)⟩
    · rw [sinceOpen_rose, CdevRx.unreadBytes, hunread]
      rfl
    · rw [sinceOpen_rose]
      exact List.prefix_rfl
  · exact h.of_eq rfl rfl (fun _ => h0) fun hz => absurd hz (Nat.succ_ne_zero _)

theorem QueueInv.releaseFile (h : QueueInv s log) :
    QueueInv (s.step .releaseFile).1 (log ++ (s.step .releaseFile).2) := by
  rw [CdevRx.step]
  split_ifs with hbusy hlast
  · exact h.of_eq rfl rfl id fun h0 => ⟨h0, rfl⟩
  · -- the last release discards the rest of the stream
    rw [not_or, not_or] at hbusy
    obtain ⟨hreading, harriving, -⟩ := hbusy
    have hnone : s.reading = none := by simpa using hreading
    have hunread : ({ s with openCount := 0, rxq := [], rxqBytes := 0 } : CdevRx).unread = [] := by
      simp [CdevRx.unread, hnone]
    refine ⟨fun hz => absurd rfl hz, ?_, ?_, Nat.zero_le _,
      fun _ => ⟨hunread, by simpa using harriving⟩⟩
    · rw [List.append_nil]
      exact h.returned
    · rw [hunread]
      rfl
  · rw [not_or, not_or] at hbusy
    exact h.of_eq rfl rfl (fun _ => hbusy.2.2) fun hz => absurd hz hlast

theorem QueueInv.arrive (h : QueueInv s log) (skb : Skb) :
    QueueInv (s.step (.arrive skb)).1 (log ++ (s.step (.arrive skb)).2) := by
  rw [CdevRx.step]
  split_ifs with hbusy h0
  · exact h.of_eq rfl rfl id fun h0 => ⟨h0, rfl⟩
  · exact h.of_eq rfl rfl id fun h0 => ⟨h0, rfl⟩
  · exact h.of_eq rfl rfl id fun hz => absurd hz h0

theorem QueueInv.enqueue (h : QueueInv s log) :
    QueueInv (s.step .enqueue).1 (log ++ (s.step .enqueue).2) := by
  cases harr : s.arriving with
  | none =>
    simp only [CdevRx.step, harr]
    exact h.of_eq rfl rfl id fun h0 => ⟨h0, rfl⟩
  | some skb =>
    simp only [CdevRx.step, harr]
    have h0 : s.openCount ≠ 0 := by
      intro h0
      rw [(h.closed h0).2] at harr
      cases harr
    have hsum : (s.rxqBytes + UInt32.ofNat skb.len).toNat = s.rxqBytes.toNat + skb.len := by
      have hbound := h.bound
      have hlen := skb.length_lt
      unfold cdevRxqMaxBytes at hbound
      exact toNat_add_ofNat (by rw [Skb.len]; omega)
    rw [CdevRx.enqueue]
    split_ifs with hfull
    · exact h.of_eq rfl rfl id fun hz => absurd hz h0
    · refine h.of_stream (by simp [CdevEvent.isRose]) h0 h0 ?_ ?_ (Nat.le_of_not_lt hfull)
      · simp [CdevRx.unreadBytes, CdevRx.unread, acceptedBytes, returnedBytes]
      · dsimp only
        rw [hsum, h.count]
        simp [CdevRx.unread, Nat.add_assoc]

theorem QueueInv.take (h : QueueInv s log) (count : ℕ) :
    QueueInv (s.step (.take count)).1 (log ++ (s.step (.take count)).2) := by
  cases hreading : s.reading with
  | some held =>
    simp only [CdevRx.step, hreading]
    exact h.of_eq rfl rfl id fun h0 => ⟨h0, rfl⟩
  | none =>
    cases hq : s.rxq with
    | nil =>
      simp only [CdevRx.step, hreading, hq]
      exact h.of_eq rfl rfl id fun h0 => ⟨h0, rfl⟩
    | cons skb rxq =>
      simp only [CdevRx.step, hreading, hq]
      -- the transfer the read holds is still the front of the stream
      exact h.of_eq (by simp [CdevRx.unread, hreading, hq]) rfl id fun h0 => ⟨h0, rfl⟩

theorem QueueInv.finish (h : QueueInv s log) (fault : Bool) :
    QueueInv (s.step (.finish fault)).1 (log ++ (s.step (.finish fault)).2) := by
  cases hreading : s.reading with
  | none =>
    simp only [CdevRx.step, hreading]
    exact h.of_eq rfl rfl id fun h0 => ⟨h0, rfl⟩
  | some held =>
    obtain ⟨skb, count⟩ := held
    simp only [CdevRx.step, hreading, CdevRx.finishRead]
    have h0 : s.openCount ≠ 0 := by
      intro h0
      have hunread := (h.closed h0).1
      simp [CdevRx.unread, hreading] at hunread
    have hunread : s.unread = skb :: s.rxq := by simp [CdevRx.unread, hreading]
    have hcount := h.count
    rw [hunread, List.map_cons, List.sum_cons] at hcount
    split_ifs with hfault hshort
    · exact h.of_eq (by simp [CdevRx.unread, hreading]) rfl id fun hz => ⟨hz, rfl⟩
    · -- the rest of the transfer goes back to the front
      have hle : min count skb.len ≤ s.rxqBytes.toNat := by omega
      refine h.of_stream (by simp [CdevEvent.isRose]) h0 h0 ?_ ?_ ?_
      · simp [CdevRx.unreadBytes, CdevRx.unread, hreading, acceptedBytes, returnedBytes, Skb.pull,
          ← List.append_assoc]
      · have hpull : (skb.pull (min count skb.len)).len = skb.len - min count skb.len := by
          simp [Skb.pull, Skb.len]
        simp only [CdevRx.unread, toNat_sub_ofNat hle, Option.map_none, Option.toList_none,
          List.nil_append, List.map_cons, List.sum_cons, hpull]
        omega
      · simp only [toNat_sub_ofNat hle]
        exact Nat.le_trans (Nat.sub_le _ _) h.bound
    · -- all of it was taken
      have hall : min count skb.len = skb.len := by omega
      have hle : min count skb.len ≤ s.rxqBytes.toNat := by omega
      refine h.of_stream (by simp [CdevEvent.isRose]) h0 h0 ?_ ?_ ?_
      · rw [CdevRx.unreadBytes, hunread, hall]
        simp [CdevRx.unreadBytes, CdevRx.unread, acceptedBytes, returnedBytes, Skb.len]
      · simp only [CdevRx.unread, toNat_sub_ofNat hle, Option.map_none, Option.toList_none,
          List.nil_append]
        omega
      · simp only [toNat_sub_ofNat hle]
        exact Nat.le_trans (Nat.sub_le _ _) h.bound

theorem QueueInv.step (h : QueueInv s log) (a : CdevAction) :
    QueueInv (s.step a).1 (log ++ (s.step a).2) := by
  cases a with
  | openFile => exact h.openFile
  | releaseFile => exact h.releaseFile
  | arrive skb => exact h.arrive skb
  | enqueue => exact h.enqueue
  | take count => exact h.take count
  | finish fault => exact h.finish fault

end Step

theorem queueInv_cdevRun (actions : List CdevAction) :
    QueueInv (cdevRun actions).1 (cdevRun actions).2 :=
  Mealy.run_induction CdevRx.step (motive := fun _ s log => QueueInv s log) queueInv_init
    (fun _ a _ _ h => h.step a) actions

/-- **The receive queue is a byte stream**, after every run: since the device was opened, reads
have returned a beginning of what was accepted, and as long as it is open the rest is still
there, in order. The counter is the number of bytes there, it stays within its bound, and
finishing a read does not take it below zero. A read that faults changes neither. -/
theorem cdev_byteStream (actions : List CdevAction) :
    returnedBytes (sinceOpen (cdevRun actions).2) <+:
        acceptedBytes (sinceOpen (cdevRun actions).2) ∧
    ((cdevRun actions).1.openCount ≠ 0 →
      acceptedBytes (sinceOpen (cdevRun actions).2) =
        returnedBytes (sinceOpen (cdevRun actions).2) ++ (cdevRun actions).1.unreadBytes) ∧
    ((cdevRun actions).1.openCount ≠ 0 → (cdevRun actions).1.reading = none →
      acceptedBytes (sinceOpen (cdevRun actions).2) =
        returnedBytes (sinceOpen (cdevRun actions).2) ++
          (cdevRun actions).1.rxq.flatMap Skb.data) ∧
    (cdevRun actions).1.rxqBytes.toNat =
      (((cdevRun actions).1.reading.map Prod.fst).toList.map Skb.len).sum +
        ((cdevRun actions).1.rxq.map Skb.len).sum ∧
    (cdevRun actions).1.rxqBytes.toNat ≤ cdevRxqMaxBytes ∧
    ∀ skb count, (cdevRun actions).1.reading = some (skb, count) →
      min count skb.len ≤ (cdevRun actions).1.rxqBytes.toNat ∧
      ((cdevRun actions).1.step (.finish true)).2 = [] ∧
      ((cdevRun actions).1.step (.finish true)).1.unreadBytes =
        (cdevRun actions).1.unreadBytes ∧
      ((cdevRun actions).1.step (.finish true)).1.rxqBytes = (cdevRun actions).1.rxqBytes := by
  have h := queueInv_cdevRun actions
  refine ⟨h.returned, h.stream, fun hopen hnone => ?_, ?_, h.bound, fun skb count hreading => ?_⟩
  · rw [h.stream hopen, CdevRx.unreadBytes, CdevRx.unread, hnone]
    rfl
  · rw [h.count, CdevRx.unread, List.map_append, List.sum_append]
  · -- the counter includes the transfer that the read holds
    have hunread : (cdevRun actions).1.unread = skb :: (cdevRun actions).1.rxq := by
      simp [CdevRx.unread, hreading]
    have hcount := h.count
    rw [hunread, List.map_cons, List.sum_cons] at hcount
    refine ⟨by omega, ?_⟩
    simp [CdevRx.step, hreading, CdevRx.finishRead, CdevRx.unreadBytes, CdevRx.unread]

/-- A transfer nobody reads. -/
def unreadTransfer : Skb := ⟨[0x55], by decide⟩

/-- The last release discards the transfer: it was accepted since the device was opened, has not
been returned, and is not queued. -/
theorem release_discards_unread :
    let (s, log) := cdevRun [.openFile, .arrive unreadTransfer, .enqueue, .releaseFile]
    s.reading = none ∧
      acceptedBytes (sinceOpen log) ≠ returnedBytes (sinceOpen log) ++ s.rxq.flatMap Skb.data := by
  refine ⟨rfl, ?_⟩
  decide

end Ar8030
