import Mathlib.Tactic.SplitIfs
import Mathlib.Algebra.Group.Nat.Defs
import Ar8030Transport.Kmod.Netdev
import Ar8030Transport.Kmod.RxQueue
import Ar8030Transport.Library.Mealy

/-!
# The demultiplexer of the native network device

`artosyn_net_rx` of `kmod/artosyn_net.c` takes the RPC frames of its own socket out of a
received transfer, hands each to `net_rx_frame` and passes everything else on to userspace.

Offsets and lengths are 32-bit, so every sum and difference of the source wraps here too. Each
read names its place in the transfer and fails outside it, and so does an append beyond the
room of the new skb. The loop runs on fuel; any amount above the length of the transfer lets it
finish.

The reference cuts the transfer at its frames without offsets: `Scans` says which padding bytes
and frames stand in front of the first byte that starts neither.
-/

namespace Ar8030

open LittleEndian

/-- `RPC_OVERHEAD`. -/
def rpcOverhead : ℕ := rpcHdrLen + 1

/-- `RPC_XOR_LEN`. -/
def rpcXorLen : ℕ := 17

/-- `SO_OPEN`. -/
def soOpen : ℕ := 0

/-- `SO_READ`. -/
def soRead : ℕ := 2

/-- An `unsigned int` sum. -/
def u32 (n : ℕ) : ℕ := n % 2 ^ 32

/-- An `unsigned int` difference. -/
def u32Sub (a b : ℕ) : ℕ := (a + 2 ^ 32 - b) % 2 ^ 32

/-- The conversion to `s32`. -/
def s32 (v : ℕ) : ℤ := (v : ℤ).bmod (2 ^ 32)

/-! ### The socket -/

/-- What a call of `net_rx_frame` is given. -/
structure RpcReply where
  op : ℕ
  sta : ℤ
  data : List UInt8
  deriving DecidableEq, Repr

/-- The part of `struct artosyn_net` that receiving reads and writes. -/
structure SocketNet where
  net : ArtosynNet
  sockOpen : Bool
  /-- `netif_running(net->ndev)`. -/
  running : Bool
  openSta : ℤ
  /-- How often `open_done` was completed. -/
  openDone : ℕ
  rpcRxFrames : ℕ
  rxUnparsed : ℕ
  rxTruncated : ℕ
  deriving DecidableEq, Repr

/-- `net_rx_frame`: the device afterwards, and the packets it hands to the network stack. -/
def netRxFrame (s : SocketNet) (r : RpcReply) : SocketNet × List (List UInt8) :=
  let s := { s with rpcRxFrames := s.rpcRxFrames + 1 }
  if r.op = soRead then
    if s.running then
      let (net, packets) := netRxStream s.net r.data
      ({ s with net }, packets)
    else (s, [])
  else if r.op = soWrite then ({ s with net := netRxWriteAck s.net r.sta r.data }, [])
  else if r.op = soOpen then ({ s with openSta := r.sta, openDone := s.openDone + 1 }, [])
  else (s, [])

/-! ### Access to a transfer -/

/-- The bytes `p[i]` to `p[i + n - 1]`, if the transfer has them. -/
def Skb.bytes? (skb : Skb) (i n : ℕ) : Option (List UInt8) :=
  if i + n ≤ skb.len then some ((skb.data.drop i).take n) else none

/-- `p[i]`, if the transfer has it. -/
def Skb.u8? (skb : Skb) (i : ℕ) : Option UInt8 := skb.data[i]?

/-- `get_unaligned_le32`. -/
def Skb.le32? (skb : Skb) (i : ℕ) : Option ℕ := (skb.bytes? i 4).map decode

/-- `get_unaligned_be32`. -/
def Skb.be32? (skb : Skb) (i : ℕ) : Option ℕ := (skb.bytes? i 4).map (decode ·.reverse)

/-- `skb_put_data` to an skb with room for `room` bytes. -/
def skbPutData (room : ℕ) (rest bytes : List UInt8) : Option (List UInt8) :=
  if rest.length + bytes.length ≤ room then some (rest ++ bytes) else none

/-! ### The scan -/

/-- What the loop finds at an offset. -/
inductive DemuxTurn where
  /-- Block padding between frames. -/
  | padding
  /-- Leftovers of an older transfer. -/
  | leftovers
  /-- Something counted in `rx_unparsed`. -/
  | unparsed
  /-- A frame that continues in the next transfer. -/
  | truncated
  /-- A frame with `dlen` bytes of data. -/
  | frame (dlen reqid : ℕ)
  deriving DecidableEq, Repr

/-- The test of tail and xor, once the frame is known to fit. -/
def demuxFrame (skb : Skb) (off dlen : ℕ) : Option DemuxTurn :=
  let flen := u32 (rpcOverhead + dlen)
  (skb.u8? (u32Sub (u32 (off + flen)) 1)).bind fun tail =>
    if tail ≠ rpcTail then some .unparsed
    else
      (skb.bytes? off rpcXorLen).bind fun hdr =>
        (skb.u8? (u32 (off + rpcXorLen))).bind fun x =>
          if artXor hdr ≠ x then some .unparsed
          else (skb.be32? (off + 5)).map (.frame dlen)

/-- One turn of the loop, up to the test for the own socket. -/
def demuxTurn (skb : Skb) (off : ℕ) : Option DemuxTurn :=
  (skb.u8? off).bind fun head =>
    if head ≠ rpcHead then
      some (if head = 0 then .padding else if off = 0 then .unparsed else .leftovers)
    else
      (skb.le32? (off + 1)).bind fun dlen =>
        if u32Sub (u32Sub skb.len off) rpcOverhead < dlen then some .truncated
        else demuxFrame skb off dlen

/-- The local variables of `artosyn_net_rx`, with the calls made and the packets they
delivered. -/
structure Demux where
  off : ℕ
  keepFrom : ℕ
  rest : Option (List UInt8)
  net : SocketNet
  calls : List RpcReply
  packets : List (List UInt8)

/-- How the loop ends. -/
inductive DemuxExit where
  | scanned (s : Demux)
  /-- `alloc_skb` has failed. -/
  | noMemory (s : Demux)

/-- The test for the own socket. -/
def SocketNet.owns (s : SocketNet) (reqid : ℕ) : Bool :=
  reqid >>> 24 == bbReqSocket && reqid >>> 8 &&& 0xff == s.net.slot.toNat &&
    reqid &&& 0xff == s.net.port.toNat

/-- What is done with a frame of the own socket, once there is an skb for the rest. -/
def Demux.consume (s : Demux) (skb : Skb) (rest : List UInt8) (dlen reqid : ℕ) : Option Demux :=
  (skb.bytes? s.keepFrom (u32Sub s.off s.keepFrom)).bind fun kept =>
    (skbPutData skb.len rest kept).bind fun rest =>
      (skb.be32? (s.off + 13)).bind fun sta =>
        (skb.bytes? (s.off + rpcHdrLen) dlen).map fun data =>
          let reply : RpcReply := { op := reqid >>> 16 &&& 0xff, sta := s32 sta, data }
          { s with
            keepFrom := u32 (s.off + u32 (rpcOverhead + dlen))
            rest := some rest
            net := (netRxFrame s.net reply).1
            calls := s.calls ++ [reply]
            packets := s.packets ++ (netRxFrame s.net reply).2 }

/-- The loop. -/
def demuxLoop (skb : Skb) (alloc : Bool) : ℕ → Demux → Option DemuxExit
  | 0, _ => none
  | fuel + 1, s =>
    if u32 (s.off + rpcOverhead) ≤ skb.len then
      (demuxTurn skb s.off).bind fun
        | .padding => demuxLoop skb alloc fuel { s with off := u32 (s.off + 1) }
        -- in all three cases the rest is left to userspace
        | .leftovers => some (.scanned s)
        | .unparsed =>
          some (.scanned { s with net := { s.net with rxUnparsed := s.net.rxUnparsed + 1 } })
        | .truncated =>
          some (.scanned { s with net := { s.net with rxTruncated := s.net.rxTruncated + 1 } })
        | .frame dlen reqid =>
          let next := u32 (s.off + u32 (rpcOverhead + dlen))
          if s.net.owns reqid then
            -- the skb for the rest is allocated at the first frame of the own socket
            if s.rest.isNone && !alloc then some (.noMemory s)
            else
              (s.consume skb (s.rest.getD []) dlen reqid).bind fun s =>
                demuxLoop skb alloc fuel { s with off := next }
          else demuxLoop skb alloc fuel { s with off := next }
    else some (.scanned s)

/-- The part of `struct artosyn_dev` that `artosyn_net_rx` reads and writes. -/
structure ArtosynDev where
  /-- `dev->net`, if the network device is registered. -/
  net : Option SocketNet
  rxErrors : ℕ
  deriving DecidableEq, Repr

/-- What `artosyn_net_rx` does: the device, the skb it returns, the calls of `net_rx_frame` and
the packets delivered. -/
structure NetRx where
  dev : ArtosynDev
  returned : Option (List UInt8)
  calls : List RpcReply
  packets : List (List UInt8)
  deriving DecidableEq, Repr

/-- The end of `artosyn_net_rx`, after the loop. -/
def demuxFinish (dev : ArtosynDev) (skb : Skb) (s : Demux) : Option NetRx :=
  match s.rest with
  | none => some ⟨{ dev with net := some s.net }, some skb.data, s.calls, s.packets⟩
  | some rest =>
    (skb.bytes? s.keepFrom (u32Sub skb.len s.keepFrom)).bind fun kept =>
      (skbPutData skb.len rest kept).map fun rest =>
        -- without a head there is nothing the daemon could parse
        ⟨{ dev with net := some s.net }, if rpcHead ∈ rest then some rest else none,
          s.calls, s.packets⟩

/-- `artosyn_net_rx`, with `alloc` the outcome of `alloc_skb`. -/
def artosynNetRx (fuel : ℕ) (dev : ArtosynDev) (skb : Skb) (alloc : Bool) : Option NetRx :=
  match dev.net with
  | none => some ⟨dev, some skb.data, [], []⟩
  | some net =>
    if net.sockOpen then
      (demuxLoop skb alloc fuel ⟨0, 0, none, net, [], []⟩).bind fun
        | .scanned s => demuxFinish dev skb s
        | .noMemory s =>
          some ⟨{ net := some s.net, rxErrors := dev.rxErrors + 1 }, some skb.data, s.calls,
            s.packets⟩
    else some ⟨dev, some skb.data, [], []⟩

/-! ### Cutting a transfer at its frames -/

/-- An RPC frame. -/
@[ext]
structure RpcFrame where
  /-- The first byte of the request id. -/
  req : UInt8
  op : UInt8
  slot : UInt8
  port : UInt8
  msgid : UInt32
  sta : UInt32
  data : List UInt8
  length_lt : data.length < 2 ^ 32

/-- The header of a frame, up to its xor. -/
def RpcFrame.hdr (f : RpcFrame) : List UInt8 :=
  rpcHead :: encode 4 f.data.length ++ [f.req, f.op, f.slot, f.port] ++ be32 f.msgid.toNat ++
    be32 f.sta.toNat

/-- A frame on the wire. -/
def RpcFrame.bytes (f : RpcFrame) : List UInt8 :=
  f.hdr ++ [artXor f.hdr] ++ f.data ++ [rpcTail]

/-- What the frame asks `net_rx_frame` to do. -/
def RpcFrame.reply (f : RpcFrame) : RpcReply where
  op := f.op.toNat
  sta := s32 f.sta.toNat
  data := f.data

/-- A piece of a transfer. -/
inductive TransferItem where
  | padding
  | frame (f : RpcFrame)

/-- The bytes of a piece. -/
def TransferItem.bytes : TransferItem → List UInt8
  | .padding => [0]
  | .frame f => f.bytes

/-- The frame of a piece, if it is a socket request for the slot and the port. -/
def TransferItem.own? (slot port : UInt8) : TransferItem → Option RpcFrame
  | .padding => none
  | .frame f => if f.req = 4 ∧ f.slot = slot ∧ f.port = port then some f else none

/-- The first byte neither is padding nor starts a frame. -/
def Stuck (l : List UInt8) : Prop := l.head? ≠ some 0 ∧ ∀ f : RpcFrame, ¬ f.bytes <+: l

/-- The transfer is `items` up to the first byte that cannot be parsed, where `tail` starts. -/
structure Scans (l : List UInt8) (items : List TransferItem) (tail : List UInt8) : Prop where
  joined : l = items.flatMap TransferItem.bytes ++ tail
  stuck : Stuck tail

/-- The frames for the slot and the port. -/
def ownFrames (slot port : UInt8) (items : List TransferItem) : List RpcFrame :=
  items.filterMap (TransferItem.own? slot port)

/-- What is left of `items` without the frames for the slot and the port. -/
def withoutOwn (slot port : UInt8) (items : List TransferItem) : List UInt8 :=
  (items.filter fun i => (i.own? slot port).isNone).flatMap TransferItem.bytes

theorem rpcHead_ne_zero : rpcHead ≠ 0 := by decide

@[simp]
theorem length_be32 (v : ℕ) : (be32 v).length = 4 := by
  rw [be32, List.length_reverse, length_encode]

theorem RpcFrame.length_hdr (f : RpcFrame) : f.hdr.length = rpcXorLen := by
  simp [hdr, rpcXorLen]

theorem RpcFrame.length_bytes (f : RpcFrame) : f.bytes.length = rpcOverhead + f.data.length := by
  simp only [bytes, List.length_append, length_hdr, List.length_singleton, rpcOverhead, rpcHdrLen,
    rpcXorLen]
  omega

theorem RpcFrame.bytes_eq (f : RpcFrame) :
    f.bytes = f.hdr ++ (artXor f.hdr :: (f.data ++ [rpcTail])) := by simp [bytes]

theorem decode_be32 {v : ℕ} (h : v < 2 ^ 32) : decode (be32 v).reverse = v := by
  rw [be32, List.reverse_reverse]
  exact decode_encode_of_lt (by omega)

theorem be32_inj {x y : UInt32} (h : be32 x.toNat = be32 y.toNat) : x = y := by
  rw [← UInt32.toNat_inj, ← decode_be32 x.toNat_lt, h, decode_be32 y.toNat_lt]

/-- A frame tells where it ends. -/
theorem RpcFrame.bytes_append_inj {f g : RpcFrame} {a b : List UInt8}
    (h : f.bytes ++ a = g.bytes ++ b) : f = g ∧ a = b := by
  rw [bytes_eq, bytes_eq, List.append_assoc, List.append_assoc] at h
  obtain ⟨hhdr, hrest⟩ := List.append_inj h (by rw [length_hdr, length_hdr])
  have hdata : f.data ++ [rpcTail] ++ a = g.data ++ [rpcTail] ++ b := (List.cons.inj hrest).2
  rw [hdr, hdr] at hhdr
  obtain ⟨hhdr, hsta⟩ := List.append_inj hhdr (by simp)
  obtain ⟨hhdr, hmsgid⟩ := List.append_inj hhdr (by simp)
  obtain ⟨hlen, hreq⟩ := List.append_inj (List.cons.inj hhdr).2 (by simp)
  have hlen : f.data.length = g.data.length := by
    rw [← decode_encode_of_lt (n := 4) f.length_lt, hlen, decode_encode_of_lt g.length_lt]
  rw [List.append_assoc, List.append_assoc] at hdata
  obtain ⟨hdata, htail⟩ := List.append_inj hdata hlen
  simp only [List.cons.injEq, and_true] at hreq
  obtain ⟨hreq, hop, hslot, hport⟩ := hreq
  exact ⟨RpcFrame.ext hreq hop hslot hport (be32_inj hmsgid) (be32_inj hsta) hdata,
    (List.cons.inj htail).2⟩

/-- So does every piece. -/
theorem TransferItem.bytes_append_inj {i j : TransferItem} {a b : List UInt8}
    (h : i.bytes ++ a = j.bytes ++ b) : i = j ∧ a = b := by
  cases i with
  | padding =>
    cases j with
    | padding => exact ⟨rfl, (List.cons.inj h).2⟩
    | frame g => exact absurd (List.cons.inj h).1.symm rpcHead_ne_zero
  | frame f =>
    cases j with
    | padding => exact absurd (List.cons.inj h).1 rpcHead_ne_zero
    | frame g =>
      obtain ⟨rfl, hrest⟩ := RpcFrame.bytes_append_inj h
      exact ⟨rfl, hrest⟩

theorem Stuck.not_item {i : TransferItem} {l : List UInt8} : ¬ Stuck (i.bytes ++ l) := by
  intro h
  cases i with
  | padding => exact h.1 rfl
  | frame f => exact h.2 f (List.prefix_append _ _)

theorem Scans.cons {l tail : List UInt8} {items : List TransferItem} (h : Scans l items tail)
    (i : TransferItem) : Scans (i.bytes ++ l) (i :: items) tail :=
  ⟨by rw [List.flatMap_cons, List.append_assoc, ← h.joined], h.stuck⟩

/-- A transfer is cut in one way. -/
theorem Scans.unique {l tail tail' : List UInt8} {items items' : List TransferItem}
    (h : Scans l items tail) (h' : Scans l items' tail') : items = items' ∧ tail = tail' := by
  induction items generalizing l items' with
  | nil =>
    obtain rfl : l = tail := h.joined
    match items', h'.joined with
    | [], hj' => exact ⟨rfl, hj'⟩
    | i' :: items', hj' =>
      rw [List.flatMap_cons, List.append_assoc] at hj'
      exact absurd (hj' ▸ h.stuck) Stuck.not_item
  | cons i items ih =>
    have hj := h.joined
    rw [List.flatMap_cons, List.append_assoc] at hj
    match items', h'.joined with
    | [], hj' =>
      obtain rfl : l = tail' := hj'
      exact absurd (hj ▸ h'.stuck) Stuck.not_item
    | i' :: items', hj' =>
      rw [List.flatMap_cons, List.append_assoc, hj] at hj'
      obtain ⟨rfl, hrest⟩ := TransferItem.bytes_append_inj hj'
      obtain ⟨rfl, rfl⟩ := ih ⟨rfl, h.stuck⟩ ⟨hrest, h'.stuck⟩
      exact ⟨rfl, rfl⟩

/-- Every transfer can be cut. -/
theorem exists_scans (l : List UInt8) : ∃ items tail, Scans l items tail := by
  by_cases hpad : l.head? = some 0
  · obtain ⟨l', hl⟩ := List.head?_eq_some_iff.mp hpad
    have hlt : l'.length < l.length := by
      rw [hl]
      exact Nat.lt_succ_self _
    obtain ⟨items, tail, h⟩ := exists_scans l'
    rw [hl]
    exact ⟨_, _, h.cons .padding⟩
  by_cases hframe : ∃ f : RpcFrame, f.bytes <+: l
  · obtain ⟨f, l', hl⟩ := hframe
    have hlt : l'.length < l.length := by
      rw [← hl, List.length_append, f.length_bytes, rpcOverhead]
      omega
    obtain ⟨items, tail, h⟩ := exists_scans l'
    exact ⟨_, _, hl ▸ h.cons (.frame f)⟩
  · exact ⟨[], l, rfl, hpad, not_exists.mp hframe⟩
termination_by l.length

theorem Scans.of_cons {i : TransferItem} {l tail : List UInt8} {items : List TransferItem}
    (h : Scans l (i :: items) tail) : ∃ q, l = i.bytes ++ q ∧ Scans q items tail :=
  ⟨_, by rw [h.joined, List.flatMap_cons, List.append_assoc], rfl, h.stuck⟩

/-- Where no frame fits, nothing is taken out. -/
theorem Scans.of_short {slot port : UInt8} {l tail : List UInt8} {items : List TransferItem}
    (h : Scans l items tail) (hl : l.length < rpcOverhead) :
    ownFrames slot port items = [] ∧ withoutOwn slot port items ++ tail = l := by
  induction items generalizing l with
  | nil => exact ⟨rfl, h.joined.symm⟩
  | cons i items ih =>
    have hj := h.joined
    rw [List.flatMap_cons, List.append_assoc] at hj
    have hlen : i.bytes.length + (items.flatMap TransferItem.bytes ++ tail).length <
        rpcOverhead := by
      rwa [hj, List.length_append] at hl
    cases i with
    | padding =>
      obtain ⟨hown, hkept⟩ := ih ⟨rfl, h.stuck⟩ (by omega)
      refine ⟨hown, ?_⟩
      rw [hj, ← hkept]
      rfl
    | frame f =>
      rw [TransferItem.bytes, f.length_bytes] at hlen
      omega

/-! ### One turn -/

/-- One turn, with `q` the bytes from the offset on and `first` whether it is the first. -/
def turnOf (first : Bool) (q : List UInt8) : DemuxTurn :=
  if q.getD 0 0 ≠ rpcHead then
    if q.getD 0 0 = 0 then .padding else if first then .unparsed else .leftovers
  else if q.length - rpcOverhead < decode ((q.drop 1).take 4) then .truncated
  else if q.getD (rpcHdrLen + decode ((q.drop 1).take 4)) 0 ≠ rpcTail then .unparsed
  else if artXor (q.take rpcXorLen) ≠ q.getD rpcXorLen 0 then .unparsed
  else .frame (decode ((q.drop 1).take 4)) (decode ((q.drop 5).take 4).reverse)

section Access

variable {skb : Skb} {off : ℕ}

theorem Skb.bytes?_add {i n : ℕ} (h : off + i + n ≤ skb.len) :
    skb.bytes? (off + i) n = some (((skb.data.drop off).drop i).take n) := by
  rw [bytes?, if_pos h, List.drop_drop]

theorem Skb.u8?_add {i : ℕ} (h : off + i < skb.len) :
    skb.u8? (off + i) = some ((skb.data.drop off).getD i 0) := by
  rw [u8?, List.getElem?_eq_getElem h, List.getD_eq_getElem?_getD, List.getElem?_drop,
    List.getElem?_eq_getElem h, Option.getD_some]

theorem demuxFrame_eq {dlen : ℕ} (hoff : off + rpcOverhead + dlen ≤ skb.len) :
    demuxFrame skb off dlen = some (
      if (skb.data.drop off).getD (rpcHdrLen + dlen) 0 ≠ rpcTail then .unparsed
      else if artXor ((skb.data.drop off).take rpcXorLen) ≠ (skb.data.drop off).getD rpcXorLen 0
      then .unparsed
      else .frame dlen (decode (((skb.data.drop off).drop 5).take 4).reverse)) := by
  have hlen : skb.len < 2 ^ 31 := skb.length_lt
  simp only [rpcOverhead, rpcHdrLen] at hoff
  -- a transfer is shorter than 2 ^ 31, so no sum wraps
  have hlast : u32Sub (u32 (off + u32 (rpcOverhead + dlen))) 1 = off + (rpcHdrLen + dlen) := by
    simp only [u32, u32Sub, rpcOverhead, rpcHdrLen]
    omega
  have hxoff : u32 (off + rpcXorLen) = off + rpcXorLen := by
    simp only [u32, rpcXorLen]
    omega
  have htail := @Skb.u8?_add skb off (rpcHdrLen + dlen)
    (by simp only [rpcHdrLen]; omega)
  have hhdr := @Skb.bytes?_add skb off 0 rpcXorLen
    (by simp only [rpcXorLen]; omega)
  have hxor := @Skb.u8?_add skb off rpcXorLen
    (by simp only [rpcXorLen]; omega)
  have hreqid := @Skb.bytes?_add skb off 5 4 (by omega)
  rw [Nat.add_zero, List.drop_zero] at hhdr
  rw [demuxFrame, hlast, htail, Option.bind_some]
  by_cases ht : (skb.data.drop off).getD (rpcHdrLen + dlen) 0 ≠ rpcTail
  · rw [if_pos ht, if_pos ht]
  rw [if_neg ht, if_neg ht, hhdr, Option.bind_some, hxoff, hxor, Option.bind_some, Skb.be32?,
    hreqid]
  by_cases hx : artXor ((skb.data.drop off).take rpcXorLen) ≠ (skb.data.drop off).getD rpcXorLen 0
  · rw [if_pos hx, if_pos hx]
  · rw [if_neg hx, if_neg hx]
    rfl

/-- No read of a turn leaves the transfer, and no sum wraps. -/
theorem demuxTurn_eq (hoff : off + rpcOverhead ≤ skb.len) :
    demuxTurn skb off = some (turnOf (off = 0) (skb.data.drop off)) := by
  have hlen : skb.len < 2 ^ 31 := skb.length_lt
  have hq : (skb.data.drop off).length = skb.len - off := List.length_drop
  have hhead := @Skb.u8?_add skb off 0
    (by simp only [rpcOverhead] at hoff; omega)
  have hdlen := @Skb.bytes?_add skb off 1 4
    (by simp only [rpcOverhead, rpcHdrLen] at hoff; omega)
  have hroom : u32Sub (u32Sub skb.len off) rpcOverhead =
      (skb.data.drop off).length - rpcOverhead := by
    simp only [hq, u32Sub, rpcOverhead, rpcHdrLen] at hoff ⊢
    omega
  rw [Nat.add_zero] at hhead
  rw [demuxTurn, hhead, Option.bind_some, turnOf]
  by_cases hne : (skb.data.drop off).getD 0 0 ≠ rpcHead
  · simp only [if_pos hne, decide_eq_true_eq]
  rw [if_neg hne, if_neg hne, Skb.le32?, hdlen, Option.map_some, Option.bind_some, hroom]
  by_cases htrunc : (skb.data.drop off).length - rpcOverhead <
      decode (((skb.data.drop off).drop 1).take 4)
  · rw [if_pos htrunc, if_pos htrunc]
  · rw [if_neg htrunc, if_neg htrunc, demuxFrame_eq (by omega)]

end Access

/-- The request id of a frame. -/
def RpcFrame.reqid (f : RpcFrame) : ℕ := decode [f.port, f.slot, f.op, f.req]

theorem turnOf_padding (first : Bool) (q : List UInt8) : turnOf first (0 :: q) = .padding := rfl

theorem turnOf_frame (first : Bool) (f : RpcFrame) (q : List UInt8) :
    turnOf first (f.bytes ++ q) = .frame f.data.length f.reqid := by
  have hlen : decode (((f.bytes ++ q).drop 1).take 4) = f.data.length :=
    decode_encode_of_lt (n := 4) f.length_lt
  have hroom : ¬ (f.bytes ++ q).length - rpcOverhead < f.data.length := by
    rw [List.length_append, f.length_bytes]
    omega
  have htail : (f.bytes ++ q).getD (rpcHdrLen + f.data.length) 0 = rpcTail := by
    rw [Nat.add_comm]
    show (f.data ++ [rpcTail] ++ q).getD f.data.length 0 = rpcTail
    simp
  have hxor : artXor ((f.bytes ++ q).take rpcXorLen) = (f.bytes ++ q).getD rpcXorLen 0 := rfl
  have hhead : (f.bytes ++ q).getD 0 0 = rpcHead := rfl
  rw [turnOf, if_neg (not_not.mpr hhead), hlen, if_neg hroom, if_neg (not_not.mpr htail),
    if_neg (not_not.mpr hxor)]
  rfl

theorem decode_four_lt (b0 b1 b2 b3 : UInt8) : decode [b0, b1, b2, b3] < 2 ^ 32 := by
  have h := decode_lt [b0, b1, b2, b3]
  simp only [List.length_cons, List.length_nil] at h
  omega

theorem be32_ofNat_decode (b0 b1 b2 b3 : UInt8) :
    be32 (UInt32.ofNat (decode [b3, b2, b1, b0])).toNat = [b0, b1, b2, b3] := by
  rw [UInt32.toNat_ofNat_of_lt' (decode_four_lt b3 b2 b1 b0), be32,
    show encode 4 (decode [b3, b2, b1, b0]) = [b3, b2, b1, b0] from encode_decode [b3, b2, b1, b0]]
  rfl

/-- All that a frame has passed. -/
theorem of_turnOf_eq_frame {first : Bool} {q : List UInt8} {dlen reqid : ℕ}
    (h : turnOf first q = .frame dlen reqid) :
    q.getD 0 0 = rpcHead ∧ dlen = decode ((q.drop 1).take 4) ∧
      dlen ≤ q.length - rpcOverhead ∧ q.getD (rpcHdrLen + dlen) 0 = rpcTail ∧
      artXor (q.take rpcXorLen) = q.getD rpcXorLen 0 := by
  rw [turnOf] at h
  have hhead : q.getD 0 0 = rpcHead := by
    by_contra hne
    rw [if_pos hne] at h
    split_ifs at h
  rw [if_neg (not_not.mpr hhead)] at h
  split_ifs at h with hroom htail hxor
  obtain ⟨rfl, -⟩ := DemuxTurn.frame.inj h
  exact ⟨hhead, rfl, not_lt.mp hroom, not_not.mp htail, not_not.mp hxor⟩

theorem exists_frame_of_turnOf {first : Bool} {q : List UInt8} {dlen reqid : ℕ}
    (hq : rpcOverhead ≤ q.length) (h : turnOf first q = .frame dlen reqid) :
    ∃ f : RpcFrame, f.bytes <+: q := by
  obtain ⟨l, t, hl, rfl⟩ : ∃ l t, l.length = 18 ∧ q = l ++ t :=
    ⟨q.take 18, q.drop 18, by simp only [rpcOverhead, rpcHdrLen] at hq; simp; omega, by simp⟩
  obtain ⟨hhead, hdlen, hroom, htail, hxor⟩ := of_turnOf_eq_frame h
  match l, hl with
  | [b0, b1, b2, b3, b4, b5, b6, b7, b8, b9, b10, b11, b12, b13, b14, b15, b16, b17], _ =>
    obtain rfl : b0 = rpcHead := hhead
    obtain rfl : artXor [rpcHead, b1, b2, b3, b4, b5, b6, b7, b8, b9, b10, b11, b12, b13, b14,
      b15, b16] = b17 := hxor
    -- the data is what lies between the 18 bytes of the header and the tail
    have hdlt : dlen < 2 ^ 32 := hdlen ▸ decode_four_lt b1 b2 b3 b4
    have hlt : dlen < t.length := by
      simp only [rpcOverhead, rpcHdrLen, List.length_append, List.length_cons,
        List.length_nil] at hq hroom
      omega
    have hlen : (t.take dlen).length = dlen := List.length_take_of_le hlt.le
    have htail : t[dlen] = rpcTail := by
      rw [Nat.add_comm] at htail
      have ht : t.getD dlen 0 = rpcTail := htail
      rwa [List.getD_eq_getElem?_getD, List.getElem?_eq_getElem hlt, Option.getD_some] at ht
    let f : RpcFrame :=
      { req := b5, op := b6, slot := b7, port := b8
        msgid := UInt32.ofNat (decode [b12, b11, b10, b9])
        sta := UInt32.ofNat (decode [b16, b15, b14, b13])
        data := t.take dlen
        length_lt := hlen.symm ▸ hdlt }
    have henc : encode 4 dlen = [b1, b2, b3, b4] := hdlen ▸ encode_decode [b1, b2, b3, b4]
    have hhdr : f.hdr = [rpcHead, b1, b2, b3, b4, b5, b6, b7, b8, b9, b10, b11, b12, b13, b14, b15,
        b16] := by
      rw [RpcFrame.hdr, be32_ofNat_decode, be32_ofNat_decode, hlen, henc]
      rfl
    have ht : t = t.take dlen ++ rpcTail :: t.drop (dlen + 1) := by
      rw [← htail, ← List.drop_eq_getElem_cons, List.take_append_drop]
    refine ⟨f, t.drop (dlen + 1), ?_⟩
    rw [RpcFrame.bytes_eq, hhdr]
    conv_rhs => rw [ht]
    simp [f]

/-- What a turn finds, in terms of the pieces. -/
theorem turnOf_cases (first : Bool) {q : List UInt8} (hq : rpcOverhead ≤ q.length) :
    (∃ q', q = 0 :: q' ∧ turnOf first q = .padding) ∨
      (∃ (f : RpcFrame) (q' : List UInt8), q = f.bytes ++ q' ∧
        turnOf first q = .frame f.data.length f.reqid) ∨
      (Stuck q ∧ (turnOf first q = .leftovers ∨ turnOf first q = .unparsed ∨
        turnOf first q = .truncated)) := by
  by_cases hpad : q.head? = some 0
  · obtain ⟨q', rfl⟩ := List.head?_eq_some_iff.mp hpad
    exact .inl ⟨q', rfl, turnOf_padding first q'⟩
  by_cases hframe : ∃ f : RpcFrame, f.bytes <+: q
  · obtain ⟨f, q', rfl⟩ := hframe
    exact .inr (.inl ⟨f, q', rfl, turnOf_frame first f q'⟩)
  refine .inr (.inr ⟨⟨hpad, not_exists.mp hframe⟩, ?_⟩)
  cases hturn : turnOf first q with
  | padding =>
    rw [turnOf] at hturn
    split_ifs at hturn with _ hzero
    cases q with
    | nil => simp [rpcOverhead] at hq
    | cons b q => exact absurd (congrArg some hzero) hpad
  | leftovers => exact .inl rfl
  | unparsed => exact .inr (.inl rfl)
  | truncated => exact .inr (.inr rfl)
  | frame dlen reqid => exact absurd (exists_frame_of_turnOf hq hturn) hframe

/-! ### The socket a frame is for -/

/-- The slot and the port. -/
def ArtosynNet.socket (net : ArtosynNet) : UInt8 × UInt8 := (net.slot, net.port)

theorem socket_netDeliver (net : ArtosynNet) (data : List UInt8) :
    (netDeliver net data).1.socket = net.socket := by
  rw [netDeliver]
  split_ifs <;> rfl

theorem socket_rxScanLoop (net : ArtosynNet) (q : List UInt8) :
    (rxScanLoop net q).1.socket = net.socket := by
  fun_induction rxScanLoop net q with
  | case1 net q h => rfl
  | case2 net q n h _ ih => exact ih
  | case3 net q data n h _ net' out' hd net'' outs rest hrest ih =>
    have hnet' := socket_netDeliver net data
    rw [hd] at hnet'
    rw [hrest] at ih
    exact ih.trans hnet'

theorem socket_netRxStream (net : ArtosynNet) (data : List UInt8) :
    (netRxStream net data).1.socket = net.socket := by
  rw [netRxStream]
  split_ifs with hfull hbig
  · rfl
  · exact socket_rxScanLoop
      { net with rxDgramErrors := net.rxDgramErrors + 1, rxbuf := [] } data
  · exact socket_rxScanLoop net (net.rxbuf ++ data)

theorem socket_netRxWriteAck (net : ArtosynNet) (sta : ℤ) (data : List UInt8) :
    (netRxWriteAck net sta data).socket = net.socket := by
  rw [netRxWriteAck]
  split_ifs <;> rfl

/-- A frame does not move the device to another socket. -/
theorem socket_netRxFrame (s : SocketNet) (r : RpcReply) :
    (netRxFrame s r).1.net.socket = s.net.socket := by
  rw [netRxFrame]
  split_ifs
  · exact socket_netRxStream s.net r.data
  · rfl
  · exact socket_netRxWriteAck s.net r.sta r.data
  · rfl
  · rfl

theorem socket_run_netRxFrame (s : SocketNet) (rs : List RpcReply) :
    (Mealy.run netRxFrame s rs).1.net.socket = s.net.socket :=
  Mealy.run_induction netRxFrame (motive := fun _ t _ => t.net.socket = s.net.socket) rfl
    (fun _ r t _ ih => (socket_netRxFrame t r).trans ih) rs

/-- The code reads the socket and the operation out of the request id as they are on the wire. -/
theorem RpcFrame.reqid_fields (f : RpcFrame) :
    f.reqid >>> 24 = f.req.toNat ∧ f.reqid >>> 16 &&& 0xff = f.op.toNat ∧
      f.reqid >>> 8 &&& 0xff = f.slot.toNat ∧ f.reqid &&& 0xff = f.port.toNat := by
  have hand : ∀ n, n &&& 0xff = n % 256 := fun n => Nat.and_two_pow_sub_one_eq_mod n 8
  have hreq : f.req.toNat < 256 := f.req.toNat_lt
  have hop : f.op.toNat < 256 := f.op.toNat_lt
  have hslot : f.slot.toNat < 256 := f.slot.toNat_lt
  have hport : f.port.toNat < 256 := f.port.toNat_lt
  simp only [reqid, decode, hand, Nat.shiftRight_eq_div_pow]
  omega

theorem SocketNet.owns_reqid_iff {s : SocketNet} {f : RpcFrame} :
    s.owns f.reqid = true ↔ f.req = 4 ∧ f.slot = s.net.slot ∧ f.port = s.net.port := by
  obtain ⟨hreq, -, hslot, hport⟩ := f.reqid_fields
  have hfour : f.req.toNat = bbReqSocket ↔ f.req = 4 := by
    rw [← UInt8.toNat_inj]
    rfl
  rw [owns, hreq, hslot, hport, Bool.and_eq_true, Bool.and_eq_true, beq_iff_eq, beq_iff_eq,
    beq_iff_eq, hfour, UInt8.toNat_inj, UInt8.toNat_inj, and_assoc]

/-! ### The loop -/

/-- The state of the loop, with `net` the device before it. -/
structure DemuxInv (skb : Skb) (net : SocketNet) (s : Demux) : Prop where
  keep_le : s.keepFrom ≤ s.off
  off_le : s.off ≤ skb.len
  room : (s.rest.getD []).length ≤ s.keepFrom
  fresh : s.rest = none → s.keepFrom = 0 ∧ s.calls = []
  effects : Mealy.run netRxFrame net s.calls = (s.net, s.packets)

/-- The bytes in front of the offset that userspace is to have. -/
def Demux.kept (s : Demux) (skb : Skb) : List UInt8 :=
  s.rest.getD [] ++ (skb.data.drop s.keepFrom).take (s.off - s.keepFrom)

/-- What userspace is to have when the loop is left. -/
def Demux.keptAll (s : Demux) (skb : Skb) : List UInt8 :=
  s.rest.getD [] ++ skb.data.drop s.keepFrom

/-- The state behind the frame `f` of the own socket, but for the offset. -/
def Demux.cut (s : Demux) (skb : Skb) (f : RpcFrame) : Demux :=
  { s with
    keepFrom := s.off + f.bytes.length
    rest := some (s.kept skb)
    net := (netRxFrame s.net f.reply).1
    calls := s.calls ++ [f.reply]
    packets := s.packets ++ (netRxFrame s.net f.reply).2 }

section Loop

variable {skb : Skb} {net : SocketNet} {s : Demux}

theorem DemuxInv.socket (h : DemuxInv skb net s) :
    s.net.net.slot = net.net.slot ∧ s.net.net.port = net.net.port := by
  have hsocket := socket_run_netRxFrame net s.calls
  rw [h.effects] at hsocket
  exact Prod.mk.inj hsocket

theorem DemuxInv.keptAll_eq (h : DemuxInv skb net s) :
    s.keptAll skb = s.kept skb ++ skb.data.drop s.off := by
  rw [Demux.keptAll, Demux.kept, List.append_assoc]
  congr 1
  conv_lhs => rw [← List.take_append_drop (s.off - s.keepFrom) (skb.data.drop s.keepFrom)]
  rw [List.drop_drop, Nat.add_sub_cancel' h.keep_le]

/-- Moving on over `i` keeps its bytes. -/
theorem DemuxInv.skip (h : DemuxInv skb net s) {bs q : List UInt8}
    (hq : skb.data.drop s.off = bs ++ q) :
    DemuxInv skb net { s with off := s.off + bs.length } ∧
      ({ s with off := s.off + bs.length } : Demux).kept skb = s.kept skb ++ bs ∧
      skb.data.drop (s.off + bs.length) = q := by
  have hle : s.off + bs.length ≤ skb.len := by
    have := congrArg List.length hq
    rw [List.length_drop, List.length_append] at this
    have := h.off_le
    rw [Skb.len] at this ⊢
    omega
  have hkeep := h.keep_le
  refine ⟨⟨by dsimp only; omega, hle, h.room, h.fresh, h.effects⟩, ?_, ?_⟩
  · have hsub : s.off + bs.length - s.keepFrom = (s.off - s.keepFrom) + bs.length := by omega
    rw [Demux.kept, Demux.kept, hsub, List.take_add, List.drop_drop, Nat.add_sub_cancel' hkeep, hq,
      List.take_left', List.append_assoc]
    rfl
  · rw [← List.drop_drop, hq, List.drop_left']
    rfl

theorem Skb.off_lt (skb : Skb) {off : ℕ} (h : off ≤ skb.len) : off < 2 ^ 31 :=
  lt_of_le_of_lt h skb.length_lt

/-- The status and the data that are read behind a frame's header. -/
theorem Skb.frame_reads {off : ℕ} {f : RpcFrame} {q : List UInt8}
    (hq : skb.data.drop off = f.bytes ++ q) (hle : off + f.bytes.length ≤ skb.len) :
    skb.be32? (off + 13) = some f.sta.toNat ∧
      skb.bytes? (off + rpcHdrLen) f.data.length = some f.data := by
  rw [f.length_bytes, rpcOverhead, rpcHdrLen] at hle
  rw [Skb.be32?, Skb.bytes?_add (by omega), Skb.bytes?_add (by rw [rpcHdrLen]; omega), hq]
  constructor
  · have hsta : ((f.bytes ++ q).drop 13).take 4 = be32 f.sta.toNat := rfl
    rw [hsta, Option.map_some, decode_be32 f.sta.toNat_lt]
  · have hdata : (f.bytes ++ q).drop rpcHdrLen = f.data ++ ([rpcTail] ++ q) := by
      show f.data ++ [rpcTail] ++ q = _
      rw [List.append_assoc]
    rw [hdata, List.take_left']
    rfl

/-- The offset behind a frame does not wrap. -/
theorem DemuxInv.next_eq (h : DemuxInv skb net s) {f : RpcFrame} {q : List UInt8}
    (hq : skb.data.drop s.off = f.bytes ++ q) :
    u32 (s.off + u32 (rpcOverhead + f.data.length)) = s.off + f.bytes.length := by
  have hlt := skb.off_lt (h.skip hq).1.off_le
  dsimp only at hlt
  rw [f.length_bytes] at hlt ⊢
  rw [u32, u32]
  omega

theorem DemuxInv.length_kept_le (h : DemuxInv skb net s) : (s.kept skb).length ≤ s.off := by
  have hlen : ((skb.data.drop s.keepFrom).take (s.off - s.keepFrom)).length ≤
      s.off - s.keepFrom := List.length_take_le _ _
  have hroom := h.room
  have hkeep := h.keep_le
  rw [Demux.kept, List.length_append]
  omega

/-- A frame of the own socket is handed over and cut out: each read is inside the transfer, and
the new skb has room for what is kept. -/
theorem DemuxInv.consume_eq (h : DemuxInv skb net s) {f : RpcFrame} {q : List UInt8}
    (hq : skb.data.drop s.off = f.bytes ++ q) :
    s.consume skb (s.rest.getD []) f.data.length f.reqid = some (s.cut skb f) := by
  have hle : s.off + f.bytes.length ≤ skb.len := (h.skip hq).1.off_le
  have hkeep := h.keep_le
  have hoff := h.off_le
  have hlt := skb.off_lt hoff
  obtain ⟨hsta, hdata⟩ := Skb.frame_reads hq hle
  have hsub : u32Sub s.off s.keepFrom = s.off - s.keepFrom := by
    rw [u32Sub]
    omega
  have hkept : skb.bytes? s.keepFrom (s.off - s.keepFrom) =
      some ((skb.data.drop s.keepFrom).take (s.off - s.keepFrom)) := by
    rw [Skb.bytes?, if_pos (by omega)]
  have hput : skbPutData skb.len (s.rest.getD [])
      ((skb.data.drop s.keepFrom).take (s.off - s.keepFrom)) = some (s.kept skb) := by
    have hfit := h.length_kept_le
    rw [Demux.kept, List.length_append] at hfit
    rw [skbPutData, if_pos (by omega), Demux.kept]
  have hreply : ({ op := f.reqid >>> 16 &&& 0xff, sta := s32 f.sta.toNat, data := f.data } :
      RpcReply) = f.reply := by
    rw [f.reqid_fields.2.1]
    rfl
  rw [Demux.consume, hsub, hkept, Option.bind_some, hput, Option.bind_some, hsta,
    Option.bind_some, hdata, Option.map_some, hreply, h.next_eq hq, Demux.cut]

/-- Behind the frame the bytes kept are those kept in front of it. -/
theorem DemuxInv.cut (h : DemuxInv skb net s) {f : RpcFrame} {q : List UInt8}
    (hq : skb.data.drop s.off = f.bytes ++ q) :
    DemuxInv skb net { s.cut skb f with off := s.off + f.bytes.length } ∧
      ({ s.cut skb f with off := s.off + f.bytes.length } : Demux).kept skb = s.kept skb := by
  have hrun : Mealy.run netRxFrame net (s.calls ++ [f.reply]) =
      ((netRxFrame s.net f.reply).1, s.packets ++ (netRxFrame s.net f.reply).2) := by
    rw [Mealy.run_concat, h.effects]
  refine ⟨⟨le_rfl, (h.skip hq).1.off_le, ?_, nofun, hrun⟩, ?_⟩
  · exact h.length_kept_le.trans (Nat.le_add_right _ _)
  · simp [Demux.kept, Demux.cut]

/-- The loop is left in the state `t` when it has gone over `items` from `s` on. -/
structure DemuxDone (skb : Skb) (net : SocketNet) (s : Demux) (items : List TransferItem)
    (tail : List UInt8) (t : Demux) : Prop where
  kept : t.keptAll skb = s.kept skb ++ (withoutOwn net.net.slot net.net.port items ++ tail)
  calls : t.calls = s.calls ++ (ownFrames net.net.slot net.net.port items).map RpcFrame.reply
  rest : t.rest = none ↔ s.rest = none ∧ ownFrames net.net.slot net.net.port items = []
  /-- But for two counters the last turn has changed nothing. -/
  inv : ∃ unparsed truncated, DemuxInv skb net
    { t with net := { t.net with rxUnparsed := unparsed, rxTruncated := truncated } }

variable {items : List TransferItem} {tail : List UInt8} {t : Demux}

theorem DemuxInv.done (h : DemuxInv skb net s) (unparsed truncated : ℕ)
    (hown : ownFrames net.net.slot net.net.port items = [])
    (hkept : withoutOwn net.net.slot net.net.port items ++ tail = skb.data.drop s.off) :
    DemuxDone skb net s items tail
      { s with net := { s.net with rxUnparsed := unparsed, rxTruncated := truncated } } where
  kept := by
    rw [hkept]
    exact h.keptAll_eq
  calls := by rw [hown, List.map_nil, List.append_nil]
  rest := (and_iff_left hown).symm
  inv := ⟨s.net.rxUnparsed, s.net.rxTruncated, h⟩

theorem DemuxDone.skip {i : TransferItem} {s' : Demux} (h : DemuxDone skb net s' items tail t)
    (hi : i.own? net.net.slot net.net.port = none) (hkept : s'.kept skb = s.kept skb ++ i.bytes)
    (hcalls : s'.calls = s.calls) (hrest : s'.rest = s.rest) :
    DemuxDone skb net s (i :: items) tail t where
  kept := by
    rw [h.kept, hkept, withoutOwn, withoutOwn, List.filter_cons, hi]
    simp
  calls := by rw [h.calls, hcalls, ownFrames, ownFrames, List.filterMap_cons_none hi]
  rest := by rw [h.rest, hrest, ownFrames, ownFrames, List.filterMap_cons_none hi]
  inv := h.inv

theorem DemuxDone.cut {f : RpcFrame} {s' : Demux} (h : DemuxDone skb net s' items tail t)
    (hi : (TransferItem.frame f).own? net.net.slot net.net.port = some f)
    (hkept : s'.kept skb = s.kept skb) (hcalls : s'.calls = s.calls ++ [f.reply])
    (hrest : s'.rest ≠ none) : DemuxDone skb net s (.frame f :: items) tail t where
  kept := by
    rw [h.kept, hkept, withoutOwn, withoutOwn, List.filter_cons, hi]
    rfl
  calls := by
    rw [h.calls, hcalls, ownFrames, ownFrames, List.filterMap_cons_some hi, List.map_cons,
      List.append_assoc]
    rfl
  rest := by
    rw [h.rest, ownFrames, ownFrames, List.filterMap_cons_some hi]
    simp [hrest]
  inv := h.inv

/-- A frame for the socket is one the code takes for its own. -/
theorem DemuxInv.owns_iff (h : DemuxInv skb net s) {f : RpcFrame} :
    s.net.owns f.reqid = true ↔ f.req = 4 ∧ f.slot = net.net.slot ∧ f.port = net.net.port := by
  rw [SocketNet.owns_reqid_iff, h.socket.1, h.socket.2]

section Turn

variable {alloc : Bool} {fuel : ℕ} {f : RpcFrame} {q : List UInt8}

theorem DemuxInv.guard_eq (h : DemuxInv skb net s) :
    u32 (s.off + rpcOverhead) = s.off + rpcOverhead := by
  have hlt := skb.off_lt h.off_le
  rw [u32, rpcOverhead, rpcHdrLen]
  omega

theorem DemuxInv.loop_short (h : DemuxInv skb net s) (hroom : ¬ s.off + rpcOverhead ≤ skb.len) :
    demuxLoop skb alloc (fuel + 1) s = some (.scanned s) := by
  rw [demuxLoop, h.guard_eq, if_neg hroom]

theorem DemuxInv.loop_padding (h : DemuxInv skb net s) (hroom : s.off + rpcOverhead ≤ skb.len)
    (hq : skb.data.drop s.off = 0 :: q) :
    demuxLoop skb alloc (fuel + 1) s =
      demuxLoop skb alloc fuel { s with off := s.off + 1 } := by
  have hnext : u32 (s.off + 1) = s.off + 1 := by
    have hlt := skb.off_lt hroom
    rw [rpcOverhead] at hlt
    rw [u32]
    omega
  rw [demuxLoop, h.guard_eq, if_pos hroom, demuxTurn_eq hroom, Option.bind_some, hq,
    turnOf_padding]
  dsimp only
  rw [hnext]

theorem DemuxInv.loop_stuck (h : DemuxInv skb net s) (hroom : s.off + rpcOverhead ≤ skb.len)
    (hstuck : Stuck (skb.data.drop s.off)) :
    ∃ unparsed truncated, demuxLoop skb alloc (fuel + 1) s = some (.scanned
      { s with net := { s.net with rxUnparsed := unparsed, rxTruncated := truncated } }) := by
  have hlen : (skb.data.drop s.off).length = skb.len - s.off := List.length_drop
  rw [demuxLoop, h.guard_eq, if_pos hroom, demuxTurn_eq hroom, Option.bind_some]
  obtain ⟨q, hq, -⟩ | ⟨f, q, hq, -⟩ | ⟨-, hturn | hturn | hturn⟩ :=
    turnOf_cases (decide (s.off = 0)) (q := skb.data.drop s.off) (by omega)
  · exact absurd (hq ▸ hstuck) (Stuck.not_item (i := .padding))
  · exact absurd (hq ▸ hstuck) (Stuck.not_item (i := .frame f))
  all_goals
    rw [hturn]
    exact ⟨_, _, rfl⟩

/-- At a frame the loop is down to the test for the own socket. -/
theorem DemuxInv.loop_frame (h : DemuxInv skb net s) (hq : skb.data.drop s.off = f.bytes ++ q) :
    demuxLoop skb alloc (fuel + 1) s =
      if s.net.owns f.reqid then
        if s.rest.isNone && !alloc then some (.noMemory s)
        else demuxLoop skb alloc fuel { s.cut skb f with off := s.off + f.bytes.length }
      else demuxLoop skb alloc fuel { s with off := s.off + f.bytes.length } := by
  have hroom : s.off + rpcOverhead ≤ skb.len := by
    have hle := (h.skip hq).1.off_le
    dsimp only at hle
    rw [f.length_bytes] at hle
    omega
  rw [demuxLoop, h.guard_eq, if_pos hroom, demuxTurn_eq hroom, Option.bind_some, hq, turnOf_frame]
  dsimp only
  rw [h.next_eq hq, h.consume_eq hq]
  rfl

end Turn

/-- **The loop** with memory for the rest goes over all of the transfer that can be parsed. -/
theorem DemuxInv.loop (h : DemuxInv skb net s) {alloc : Bool} {fuel : ℕ}
    (hscan : Scans (skb.data.drop s.off) items tail) (hfuel : skb.len < fuel + s.off)
    (halloc : alloc = false → s.rest = none →
      ownFrames net.net.slot net.net.port items = []) :
    ∃ t, demuxLoop skb alloc fuel s = some (.scanned t) ∧ DemuxDone skb net s items tail t := by
  have hoff := h.off_le
  have hlen : (skb.data.drop s.off).length = skb.len - s.off := List.length_drop
  induction fuel generalizing s items with
  | zero => omega
  | succ fuel ih =>
    by_cases hroom : s.off + rpcOverhead ≤ skb.len
    swap
    · -- what is left is too short for a frame
      obtain ⟨hown, hkept⟩ := @Scans.of_short net.net.slot net.net.port _ _ _ hscan (by omega)
      exact ⟨s, h.loop_short hroom, h.done _ _ hown hkept⟩
    match items, hscan, halloc with
    -- only the tail is left, and the loop stops in front of it
    | [], hscan, _ =>
      obtain ⟨u, v, ht⟩ := @DemuxInv.loop_stuck skb net _ alloc fuel h hroom
        (hscan.joined ▸ hscan.stuck)
      exact ⟨_, ht, h.done u v rfl hscan.joined.symm⟩
    | .padding :: items, hscan, halloc =>
      obtain ⟨q, hq, hrest⟩ := hscan.of_cons
      obtain ⟨hinv, hkept, hdrop⟩ := h.skip hq
      rw [← hdrop] at hrest
      rw [h.loop_padding hroom hq]
      obtain ⟨t, ht, hdone⟩ := ih hinv hrest (by
        show skb.len < fuel + (s.off + 1)
        omega) halloc hinv.off_le List.length_drop
      exact ⟨t, ht, hdone.skip rfl hkept rfl rfl⟩
    | .frame f :: items, hscan, halloc =>
      obtain ⟨q, hq, hrest⟩ := hscan.of_cons
      obtain ⟨hinv, hkept, hdrop⟩ := h.skip hq
      rw [← hdrop] at hrest
      have hfuel' : skb.len < fuel + (s.off + f.bytes.length) := by
        rw [f.length_bytes, rpcOverhead]
        omega
      rw [h.loop_frame hq]
      by_cases hown : s.net.owns f.reqid = true
      · have hi : (TransferItem.frame f).own? net.net.slot net.net.port = some f :=
          if_pos (h.owns_iff.mp hown)
        rw [ownFrames, List.filterMap_cons_some hi] at halloc
        -- it has to be cut out, so there is memory for the rest
        have hmem : ¬ (s.rest.isNone && !alloc) = true := by
          intro hno
          rw [Bool.and_eq_true, Option.isNone_iff_eq_none, Bool.not_eq_true'] at hno
          exact List.cons_ne_nil _ _ (halloc hno.2 hno.1)
        obtain ⟨hcut, hkept⟩ := h.cut hq
        obtain ⟨t, ht, hdone⟩ := ih hcut hrest hfuel' nofun hcut.off_le
          List.length_drop
        rw [if_pos hown, if_neg hmem]
        exact ⟨t, ht, hdone.cut hi hkept rfl nofun⟩
      · have hi : (TransferItem.frame f).own? net.net.slot net.net.port = none :=
          if_neg fun hf => hown (h.owns_iff.mpr hf)
        rw [ownFrames, List.filterMap_cons_none hi] at halloc
        obtain ⟨t, ht, hdone⟩ := ih hinv hrest hfuel' halloc hinv.off_le
          List.length_drop
        rw [if_neg hown]
        exact ⟨t, ht, hdone.skip hi hkept rfl rfl⟩

/-- Without memory the loop ends at the first frame of the own socket, before it is handed
over. -/
theorem DemuxInv.loop_noMemory (h : DemuxInv skb net s) {fuel : ℕ}
    (hscan : Scans (skb.data.drop s.off) items tail) (hfuel : skb.len < fuel + s.off)
    (hrest : s.rest = none) (hown : ownFrames net.net.slot net.net.port items ≠ []) :
    ∃ off, demuxLoop skb false fuel s = some (.noMemory { s with off }) := by
  have hoff := h.off_le
  have hlen : (skb.data.drop s.off).length = skb.len - s.off := List.length_drop
  induction fuel generalizing s items with
  | zero => omega
  | succ fuel ih =>
    match items, hscan, hown with
    | .padding :: items, hscan, hown =>
      have hroom : s.off + rpcOverhead ≤ skb.len := by
        by_contra hshort
        exact hown (Scans.of_short hscan (by omega)).1
      obtain ⟨q, hq, hscan⟩ := hscan.of_cons
      obtain ⟨hinv, -, hdrop⟩ := h.skip hq
      rw [← hdrop] at hscan
      rw [h.loop_padding hroom hq]
      exact ih hinv hscan (by
        show skb.len < fuel + (s.off + 1)
        omega) hrest hown hinv.off_le List.length_drop
    | .frame f :: items, hscan, hown =>
      obtain ⟨q, hq, hscan⟩ := hscan.of_cons
      obtain ⟨hinv, -, hdrop⟩ := h.skip hq
      rw [← hdrop] at hscan
      rw [h.loop_frame hq]
      by_cases howns : s.net.owns f.reqid = true
      · -- the allocation fails in front of the first call
        rw [if_pos howns, if_pos (by rw [hrest]; rfl)]
        exact ⟨s.off, rfl⟩
      · have hi : (TransferItem.frame f).own? net.net.slot net.net.port = none :=
          if_neg fun hf => howns (h.owns_iff.mpr hf)
        rw [ownFrames, List.filterMap_cons_none hi] at hown
        rw [if_neg howns]
        refine ih hinv hscan ?_ hrest hown hinv.off_le List.length_drop
        show skb.len < fuel + (s.off + f.bytes.length)
        rw [f.length_bytes, rpcOverhead]
        omega

theorem DemuxDone.finish {dev : ArtosynDev} (h : DemuxDone skb net s items tail t)
    (hs : s.rest = none) :
    demuxFinish dev skb t = some ⟨{ dev with net := some t.net },
      if ownFrames net.net.slot net.net.port items = [] then some skb.data
      else if rpcHead ∈ t.keptAll skb then some (t.keptAll skb) else none, t.calls, t.packets⟩ := by
  obtain ⟨_, _, hinv⟩ := h.inv
  have hrest := h.rest
  rw [demuxFinish]
  cases ht : t.rest with
  | none => rw [if_pos (hrest.mp ht).2]
  | some rest =>
    have hown : ownFrames net.net.slot net.net.port items ≠ [] := fun hown =>
      Option.some_ne_none rest (ht ▸ hrest.mpr ⟨hs, hown⟩)
    have hkeep : t.keepFrom ≤ skb.len := hinv.keep_le.trans hinv.off_le
    have hlt := skb.off_lt hkeep
    have hlen := skb.length_lt
    have hroom : rest.length ≤ t.keepFrom := by
      have := hinv.room
      dsimp only at this
      rwa [ht] at this
    have hsub : u32Sub skb.len t.keepFrom = skb.len - t.keepFrom := by
      rw [u32Sub, Skb.len] at *
      omega
    have hkept : skb.bytes? t.keepFrom (skb.len - t.keepFrom) =
        some (skb.data.drop t.keepFrom) := by
      rw [Skb.bytes?, if_pos (by omega), List.take_of_length_le]
      rw [List.length_drop, Skb.len]
    have hput : skbPutData skb.len rest (skb.data.drop t.keepFrom) = some (t.keptAll skb) := by
      rw [skbPutData, if_pos, Demux.keptAll, ht]
      · rfl
      · rw [List.length_drop, ← Skb.len]
        omega
    dsimp only
    rw [if_neg hown, hsub, hkept, Option.bind_some, hput, Option.map_some]

end Loop

/-- **The demultiplexer partitions a transfer.** A transfer is cut in one way into padding and
frames, up to the first byte that starts neither. With a frame of the own socket among them,
and memory, `net_rx_frame` is called once for each of those frames, in order, and userspace gets
all other bytes in order, or nothing if no head is left among them. Otherwise no call is made
and userspace gets the transfer as it came. The device is what the calls make of it, but for two
counters. No read and no append fails, and the loop ends. -/
theorem artosynNetRx_partitions {dev : ArtosynDev} {net : SocketNet} (hnet : dev.net = some net)
    (hopen : net.sockOpen = true) (skb : Skb) (alloc : Bool) {fuel : ℕ} (hfuel : skb.len < fuel) :
    ∃ items tail r, Scans skb.data items tail ∧
      (∀ items' tail', Scans skb.data items' tail' → items' = items ∧ tail' = tail) ∧
      artosynNetRx fuel dev skb alloc = some r ∧
      (ownFrames net.net.slot net.net.port items ≠ [] ∧ alloc = true →
        r.calls = (ownFrames net.net.slot net.net.port items).map RpcFrame.reply ∧
          r.returned =
            if rpcHead ∈ withoutOwn net.net.slot net.net.port items ++ tail then
              some (withoutOwn net.net.slot net.net.port items ++ tail)
            else none) ∧
      (ownFrames net.net.slot net.net.port items = [] ∨ alloc = false →
        r.calls = [] ∧ r.returned = some skb.data) ∧
      r.packets = (Mealy.run netRxFrame net r.calls).2 ∧
      ∃ unparsed truncated, r.dev.net = some { (Mealy.run netRxFrame net r.calls).1 with
        rxUnparsed := unparsed, rxTruncated := truncated } := by
  obtain ⟨items, tail, hscan⟩ := exists_scans skb.data
  have hinv : DemuxInv skb net ⟨0, 0, none, net, [], []⟩ :=
    ⟨le_rfl, Nat.zero_le _, le_rfl, fun _ => ⟨rfl, rfl⟩, rfl⟩
  have hunique : ∀ items' tail', Scans skb.data items' tail' → items' = items ∧ tail' = tail :=
    fun _ _ h' => h'.unique hscan
  rw [artosynNetRx, hnet]
  dsimp only
  rw [if_pos hopen]
  by_cases hcut : alloc = false → ownFrames net.net.slot net.net.port items = []
  · obtain ⟨t, ht, hdone⟩ := hinv.loop hscan hfuel fun ha _ => hcut ha
    obtain ⟨_, _, hdoneInv⟩ := hdone.inv
    have hrun := hdoneInv.effects
    have hkept : t.keptAll skb = withoutOwn net.net.slot net.net.port items ++ tail := hdone.kept
    have hcalls : t.calls = (ownFrames net.net.slot net.net.port items).map RpcFrame.reply :=
      hdone.calls
    rw [ht]
    refine ⟨items, tail, _, hscan, hunique, hdone.finish rfl, ?_, ?_, ?_, ?_⟩
    · rintro ⟨hown, -⟩
      dsimp only
      rw [if_neg hown, hkept]
      exact ⟨hcalls, rfl⟩
    · intro hnone
      have hown : ownFrames net.net.slot net.net.port items = [] := hnone.elim id hcut
      dsimp only
      rw [if_pos hown, hcalls, hown]
      exact ⟨rfl, rfl⟩
    · exact (congrArg Prod.snd hrun).symm
    · refine ⟨t.net.rxUnparsed, t.net.rxTruncated, ?_⟩
      dsimp only
      rw [hrun]
  · obtain ⟨halloc, hown⟩ := Classical.not_imp.mp hcut
    obtain ⟨off, ht⟩ := hinv.loop_noMemory hscan hfuel rfl hown
    rw [halloc, ht]
    refine ⟨items, tail, _, hscan, hunique, rfl, nofun, fun _ => ⟨rfl, rfl⟩, rfl, ?_⟩
    exact ⟨net.rxUnparsed, net.rxTruncated, rfl⟩

/-- The socket of `freshNet`, opened. -/
def freshSocket : SocketNet where
  net := freshNet
  sockOpen := true
  running := true
  openSta := 0
  openDone := 1
  rpcRxFrames := 0
  rxUnparsed := 0
  rxTruncated := 0

/-- A reply to a write of the socket of `freshNet`, between padding and the start of a frame
that is continued in the next transfer. -/
def writeReplyTransfer : Skb where
  data := 0 :: RpcFrame.bytes
    { req := 4, op := 1, slot := 0, port := 3, msgid := 7, sta := 0, data := [1, 2]
      length_lt := by decide } ++ [rpcHead]
  length_lt := by decide

theorem artosynNetRx_partitions_writeReply :
    ∃ items tail r, Scans writeReplyTransfer.data items tail ∧
      (∀ items' tail', Scans writeReplyTransfer.data items' tail' →
        items' = items ∧ tail' = tail) ∧
      artosynNetRx 24 ⟨some freshSocket, 0⟩ writeReplyTransfer true = some r ∧
      (ownFrames 0 3 items ≠ [] ∧ true = true →
        r.calls = (ownFrames 0 3 items).map RpcFrame.reply ∧
          r.returned = if rpcHead ∈ withoutOwn 0 3 items ++ tail then
            some (withoutOwn 0 3 items ++ tail) else none) ∧
      (ownFrames 0 3 items = [] ∨ true = false →
        r.calls = [] ∧ r.returned = some writeReplyTransfer.data) ∧
      r.packets = (Mealy.run netRxFrame freshSocket r.calls).2 ∧
      ∃ unparsed truncated, r.dev.net = some { (Mealy.run netRxFrame freshSocket r.calls).1 with
        rxUnparsed := unparsed, rxTruncated := truncated } :=
  @artosynNetRx_partitions _ freshSocket rfl rfl writeReplyTransfer true _ (by decide)

example :
    (artosynNetRx 24 ⟨some freshSocket, 0⟩ writeReplyTransfer true).map
      (fun r => (r.returned, r.calls)) =
      some (some [0, 0xaa], [{ op := 1, sta := 0, data := [1, 2] }]) := by decide

end Ar8030
