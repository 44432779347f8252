import Mathlib.Tactic.SplitIfs
import Ar8030Transport.Library.LittleEndian

/-!
# The native network device

The data path of `kmod/artosyn_net.c`: how a packet becomes a `so_write` RPC frame
(`net_build_frame`), how the chip's replies move the stream position (`net_rx_write_ack`), and
how the bytes of `so_read` frames are cut into packets again (`net_rx_stream`).

The reassembly buffer is modelled by its valid bytes `rxbuf[0..rxlen)`. Its scan loop works on
the bytes from `pos` on; one turn of it is `rxScan`, and every turn that goes round again
moves `pos`, which is the termination argument of `rxScanLoop`. The allocation of an skb for a
received packet succeeds.
-/

namespace Ar8030

open LittleEndian

/-! ### The wire format -/

/-- `RPC_HEAD`. -/
def rpcHead : UInt8 := 0xaa

/-- `RPC_TAIL`. -/
def rpcTail : UInt8 := 0xbb

/-- `RPC_HDR_LEN`: head, length, request id, message id, status, xor. -/
def rpcHdrLen : ℕ := 18

/-- `DGRAM_HEAD`. -/
def dgramHead : UInt8 := 0xab

/-- `DGRAM_TAIL`. -/
def dgramTail : UInt8 := 0xbc

/-- `DGRAM_HDR_LEN`: head, length, xor. -/
def dgramHdrLen : ℕ := 6

/-- `DGRAM_OVERHEAD`. -/
def dgramOverhead : ℕ := dgramHdrLen + 1

/-- `DGRAM_XOR_LEN`. -/
def dgramXorLen : ℕ := 5

/-- `SO_POS_LEN`. -/
def soPosLen : ℕ := 8

/-- `BB_REQ_SOCKET`. -/
def bbReqSocket : ℕ := 4

/-- `SO_WRITE`. -/
def soWrite : ℕ := 1

/-- `NET_RXBUF_SIZE`. -/
def netRxbufSize : ℕ := 64 * 1024

/-- `NET_MAX_DGRAM`. -/
def netMaxDgram : ℕ := 8 * 1024

/-- `ETH_HLEN`. -/
def ethHlen : ℕ := 14

/-- `art_xor`. -/
def artXor (p : List UInt8) : UInt8 := p.foldl (· ^^^ ·) 0xff

/-- `put_unaligned_be32`. -/
def be32 (v : ℕ) : List UInt8 := (encode 4 v).reverse

/-- `rpc_put_hdr`: what stands in front of the data of an RPC frame. -/
def rpcPutHdr (datalen reqid msgid : ℕ) : List UInt8 :=
  let p := rpcHead :: encode 4 datalen ++ be32 reqid ++ be32 msgid ++ be32 0
  p ++ [artXor p]

/-- The header of a datagram: head, length and the xor of both. -/
def dgramHdr (len : ℕ) : List UInt8 :=
  let d := dgramHead :: encode 4 len
  d ++ [artXor d]

/-- A packet in the socket's byte stream. -/
def dgram (skb : List UInt8) : List UInt8 := dgramHdr skb.length ++ skb ++ [dgramTail]

/-! ### The device -/

/-- The part of `struct artosyn_net` that the data path reads and writes, with the counters of
its `net_device`. -/
structure ArtosynNet where
  slot : UInt8
  port : UInt8
  wrIndex : UInt64
  msgid : UInt32
  /-- The valid bytes of the reassembly buffer; `rxlen` is their number. -/
  rxbuf : List UInt8
  rxDgramErrors : ℕ
  ackOk : ℕ
  ackSendOk : ℕ
  ackPending : ℕ
  ackWanted : ℕ
  ackOther : ℕ
  rxLengthErrors : ℕ
  rxErrors : ℕ
  rxPackets : ℕ
  rxBytes : ℕ
  deriving DecidableEq, Repr

/-- The device of slot 0 and port 3 before any traffic. -/
def freshNet : ArtosynNet where
  slot := 0
  port := 3
  wrIndex := 0
  msgid := 0
  rxbuf := []
  rxDgramErrors := 0
  ackOk := 0
  ackSendOk := 0
  ackPending := 0
  ackWanted := 0
  ackOther := 0
  rxLengthErrors := 0
  rxErrors := 0
  rxPackets := 0
  rxBytes := 0

/-- `so_reqid`. -/
def ArtosynNet.soReqid (net : ArtosynNet) (op : ℕ) : ℕ :=
  bbReqSocket <<< 24 ||| op <<< 16 ||| net.slot.toNat <<< 8 ||| net.port.toNat

/-- `net_build_frame`: the frame of one packet, at the position the stream has reached. -/
def netBuildFrame (net : ArtosynNet) (skb : List UInt8) : ArtosynNet × List UInt8 :=
  ({ net with
      wrIndex := net.wrIndex + UInt64.ofNat (dgramOverhead + skb.length)
      msgid := net.msgid + 1 },
    rpcPutHdr (soPosLen + dgramOverhead + skb.length) (net.soReqid soWrite) net.msgid.toNat ++
      encode 8 net.wrIndex.toNat ++ dgram skb ++ [rpcTail])

/-! ### Replies to `so_write` -/

/-- `SO_STA_SEND_OK`. -/
def soStaSendOk : ℤ := -0x106

/-- `SO_STA_PENDING`: the chip's buffer is full, continue from `pos`. -/
def soStaPending : ℤ := -0x107

/-- `SO_STA_WANTED`: the chip wants data from `wanted_pos`. -/
def soStaWanted : ℤ := -0x108

/-- `net_rx_write_ack`. -/
def netRxWriteAck (net : ArtosynNet) (sta : ℤ) (data : List UInt8) : ArtosynNet :=
  if 0 ≤ sta then { net with ackOk := net.ackOk + 1 }
  else if data.length < 16 then { net with ackOther := net.ackOther + 1 }
  else
    let pos := UInt64.ofNat (decode (data.take 8))
    let arg := UInt64.ofNat (decode ((data.drop 8).take 8))
    if sta = soStaSendOk then { net with ackSendOk := net.ackSendOk + 1 }
    else if sta = soStaPending then { net with ackPending := net.ackPending + 1, wrIndex := pos }
    else if sta = soStaWanted then { net with ackWanted := net.ackWanted + 1, wrIndex := arg }
    else { net with ackOther := net.ackOther + 1 }

/-! ### The received byte stream -/

/-- `net_deliver`: a packet shorter than an Ethernet header is only counted. -/
def netDeliver (net : ArtosynNet) (data : List UInt8) : ArtosynNet × List (List UInt8) :=
  if data.length < ethHlen then
    ({ net with rxLengthErrors := net.rxLengthErrors + 1, rxErrors := net.rxErrors + 1 }, [])
  else
    ({ net with rxPackets := net.rxPackets + 1, rxBytes := net.rxBytes + data.length }, [data])

/-- What one turn of the scan loop decides. -/
inductive RxScan where
  /-- Leave the loop: the rest arrives in a later `so_read`. -/
  | wait
  /-- Count an error and move on by `n` bytes. -/
  | skip (n : ℕ)
  /-- Hand over a datagram and move on by `n` bytes. -/
  | deliver (data : List UInt8) (n : ℕ)
  deriving DecidableEq, Repr

/-- One turn of the `while` loop of `net_rx_stream`, with `q` the bytes from `pos` on. -/
def rxScan (q : List UInt8) : RxScan :=
  if q.length < dgramOverhead then .wait
  else if q.getD 0 0 ≠ dgramHead then
    -- `memchr(q, DGRAM_HEAD, rxlen - pos)`
    .skip ((q.findIdx? (· == dgramHead)).getD q.length)
  else
    let len := decode ((q.drop 1).take 4)
    if artXor (q.take dgramXorLen) ≠ q.getD 5 0 ∨ netMaxDgram < len then .skip 1
    else if q.length < dgramOverhead + len then .wait
    else if q.getD (dgramHdrLen + len) 0 ≠ dgramTail then .skip 1
    else .deliver ((q.drop dgramHdrLen).take len) (dgramOverhead + len)

/-- The jump to the next head is over at least one byte. -/
theorem findIdx_dgramHead_pos {q : List UInt8} (hq : 0 < q.length) (h : q.getD 0 0 ≠ dgramHead) :
    0 < (q.findIdx? (· == dgramHead)).getD q.length := by
  cases hidx : q.findIdx? (· == dgramHead) with
  | none => simpa using hq
  | some n =>
    rw [Option.getD_some]
    refine Nat.pos_of_ne_zero fun h0 => h ?_
    obtain rfl : n = 0 := h0
    obtain ⟨hlt, hget, -⟩ := List.findIdx?_eq_some_iff_getElem.mp hidx
    rw [List.getD_eq_getElem?_getD, List.getElem?_eq_getElem hlt, Option.getD_some]
    simpa using hget

theorem pos_of_rxScan_eq_skip {q : List UInt8} {n : ℕ} (h : rxScan q = .skip n) :
    0 < n ∧ 0 < q.length := by
  rw [rxScan] at h
  dsimp only at h
  split_ifs at h with hshort hhead hbad hlong htail
  all_goals
    have hq : 0 < q.length := by
      unfold dgramOverhead at hshort
      omega
    obtain rfl := RxScan.skip.inj h
    refine ⟨?_, hq⟩
  · exact findIdx_dgramHead_pos hq hhead
  · exact Nat.one_pos
  · exact Nat.one_pos

theorem pos_of_rxScan_eq_deliver {q data : List UInt8} {n : ℕ} (h : rxScan q = .deliver data n) :
    0 < n ∧ 0 < q.length := by
  rw [rxScan] at h
  dsimp only at h
  split_ifs at h with hshort hhead hbad hlong htail
  unfold dgramOverhead at hshort h
  obtain ⟨-, rfl⟩ := RxScan.deliver.inj h
  omega

/-- The scan loop: the device, the packets handed over and the bytes left. -/
def rxScanLoop (net : ArtosynNet) (q : List UInt8) :
    ArtosynNet × List (List UInt8) × List UInt8 :=
  match h : rxScan q with
  | .wait => (net, [], q)
  | .skip n =>
    have := pos_of_rxScan_eq_skip h
    rxScanLoop { net with rxDgramErrors := net.rxDgramErrors + 1 } (q.drop n)
  | .deliver data n =>
    have := pos_of_rxScan_eq_deliver h
    let (net, out) := netDeliver net data
    let (net, outs, rest) := rxScanLoop net (q.drop n)
    (net, out ++ outs, rest)
termination_by q.length
decreasing_by
  all_goals rw [List.length_drop]; omega

/-- `net_rx_stream`: the payload of one `so_read`, and the packets it completes. -/
def netRxStream (net : ArtosynNet) (data : List UInt8) : ArtosynNet × List (List UInt8) :=
  if netRxbufSize < net.rxbuf.length + data.length then
    let net := { net with rxDgramErrors := net.rxDgramErrors + 1, rxbuf := [] }
    if netRxbufSize < data.length then (net, [])
    else
      let (net, out, rest) := rxScanLoop net data
      ({ net with rxbuf := rest }, out)
  else
    let (net, out, rest) := rxScanLoop net (net.rxbuf ++ data)
    ({ net with rxbuf := rest }, out)

end Ar8030
