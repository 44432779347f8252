import Mathlib.Data.List.GetD
import Ar8030Transport.Kmod.Netdev
import Ar8030Transport.Library.GreedyParser
import Ar8030Transport.Library.Mealy

/-!
# Packets through the socket's byte stream

`net_rx_stream` finds the packets of a byte stream that arrives in pieces of any size. The
reference is `dgramParser`, which takes the same decisions but drops junk one byte at a time.
It is a greedy parser, so it does not care how its input is cut.

The code drops junk in jumps to the next head, and a jump ends at the end of the buffer, so
the two do not keep the same bytes. They do agree on what any further bytes will yield:
`RxTracks` says so, and that the code never counts more errors than the parser drops bytes.
-/

namespace Ar8030

open LittleEndian

/-! ### The reference parser -/

/-- What the stream holds: a byte that starts no datagram, or a datagram. -/
inductive DgramEvent where
  | junk
  | dgram (data : List UInt8)
  deriving DecidableEq, Repr

/-- One decision, with junk dropped byte by byte. -/
def dgramStep (q : List UInt8) : Option (DgramEvent × List UInt8) :=
  match rxScan q with
  | .wait => none
  | .skip _ => some (.junk, q.drop 1)
  | .deliver data n => some (.dgram data, q.drop n)

theorem dgramStep_of_wait {q : List UInt8} (h : rxScan q = .wait) : dgramStep q = none := by
  rw [dgramStep, h]

theorem dgramStep_of_skip {q : List UInt8} {n : ℕ} (h : rxScan q = .skip n) :
    dgramStep q = some (.junk, q.drop 1) := by
  rw [dgramStep, h]

theorem dgramStep_of_deliver {q data : List UInt8} {n : ℕ} (h : rxScan q = .deliver data n) :
    dgramStep q = some (.dgram data, q.drop n) := by
  rw [dgramStep, h]

section Append

variable {q : List UInt8} (m : List UInt8)

theorem getD_append_of_lt {i : ℕ} (h : i < q.length) : (q ++ m).getD i 0 = q.getD i 0 :=
  List.getD_append _ _ _ _ h

theorem take_drop_append {i n : ℕ} (h : i + n ≤ q.length) :
    ((q ++ m).drop i).take n = (q.drop i).take n := by
  rw [List.drop_append_of_le_length (by omega),
    List.take_append_of_le_length (by rw [List.length_drop]; omega)]

/-- A decision other than to wait does not depend on what follows. -/
theorem rxScan_append (h : rxScan q ≠ .wait) :
    (∃ n n', rxScan q = .skip n ∧ rxScan (q ++ m) = .skip n') ∨
      ∃ data n, n ≤ q.length ∧ rxScan q = .deliver data n ∧
        rxScan (q ++ m) = .deliver data n := by
  have hlong : ¬ q.length < dgramOverhead := by
    intro hshort
    rw [rxScan, if_pos hshort] at h
    exact h rfl
  have hlong' : ¬ (q ++ m).length < dgramOverhead := by
    rw [List.length_append]
    omega
  -- more bytes at the end change neither the header nor its checksum
  have h7 : 7 ≤ q.length := by
    unfold dgramOverhead dgramHdrLen at hlong
    omega
  have hlen : ((q ++ m).drop 1).take 4 = (q.drop 1).take 4 := take_drop_append m (by omega)
  have hxor : (q ++ m).take dgramXorLen = q.take dgramXorLen :=
    List.take_append_of_le_length (by unfold dgramXorLen; omega)
  rw [rxScan, if_neg hlong] at h ⊢
  rw [rxScan, if_neg hlong', getD_append_of_lt m (by omega), getD_append_of_lt m (by omega), hlen,
    hxor]
  dsimp only at h ⊢
  generalize decode ((q.drop 1).take 4) = len at h ⊢
  by_cases hhead : q.getD 0 0 ≠ dgramHead
  · rw [if_pos hhead, if_pos hhead]
    exact .inl ⟨_, _, rfl, rfl⟩
  rw [if_neg hhead] at h ⊢
  rw [if_neg hhead]
  by_cases hbad : artXor (q.take dgramXorLen) ≠ q.getD 5 0 ∨ netMaxDgram < len
  · rw [if_pos hbad, if_pos hbad]
    exact .inl ⟨_, _, rfl, rfl⟩
  rw [if_neg hbad] at h ⊢
  rw [if_neg hbad]
  -- from here on the whole datagram is in the buffer
  have hwhole : ¬ q.length < dgramOverhead + len := fun hwait => h (if_pos hwait)
  have hwhole' : ¬ (q ++ m).length < dgramOverhead + len := by
    rw [List.length_append]
    omega
  have hend : dgramHdrLen + len < q.length := by
    unfold dgramOverhead at hwhole
    omega
  rw [if_neg hwhole, if_neg hwhole', getD_append_of_lt m hend, take_drop_append m hend.le]
  by_cases htail : q.getD (dgramHdrLen + len) 0 ≠ dgramTail
  · rw [if_pos htail]
    exact .inl ⟨_, _, rfl, rfl⟩
  · rw [if_neg htail]
    exact .inr ⟨_, _, not_lt.mp hwhole, rfl, rfl⟩

end Append

/-- The reference parser. -/
def dgramParser : GreedyParser UInt8 DgramEvent where
  step := dgramStep
  length_lt := by
    intro l o r h
    cases hscan : rxScan l with
    | wait =>
      rw [dgramStep_of_wait hscan] at h
      cases h
    | skip n =>
      have hpos := (pos_of_rxScan_eq_skip hscan).2
      rw [dgramStep_of_skip hscan] at h
      obtain ⟨-, rfl⟩ := Prod.mk.inj (Option.some.inj h)
      rw [List.length_drop]
      omega
    | deliver data n =>
      have hpos := pos_of_rxScan_eq_deliver hscan
      rw [dgramStep_of_deliver hscan] at h
      obtain ⟨-, rfl⟩ := Prod.mk.inj (Option.some.inj h)
      rw [List.length_drop]
      omega
  step_append := by
    intro l o r m h
    have hne : rxScan l ≠ .wait := by
      intro hwait
      rw [dgramStep_of_wait hwait] at h
      cases h
    obtain ⟨n, n', hn, hn'⟩ | ⟨data, n, hle, hn, hn'⟩ := rxScan_append m hne
    · have hpos := (pos_of_rxScan_eq_skip hn).2
      rw [dgramStep_of_skip hn] at h
      obtain ⟨rfl, rfl⟩ := Prod.mk.inj (Option.some.inj h)
      rw [dgramStep_of_skip hn', List.drop_append_of_le_length (by omega)]
    · rw [dgramStep_of_deliver hn] at h
      obtain ⟨rfl, rfl⟩ := Prod.mk.inj (Option.some.inj h)
      rw [dgramStep_of_deliver hn', List.drop_append_of_le_length hle]

/-- The packet an event hands to the network stack, if any. -/
def DgramEvent.packet? : DgramEvent → Option (List UInt8)
  | .junk => none
  | .dgram data => if data.length < ethHlen then none else some data

/-- The packets among a list of events. -/
def packetsOf (evs : List DgramEvent) : List (List UInt8) := evs.filterMap DgramEvent.packet?

/-- The bytes dropped. -/
def junkOf (evs : List DgramEvent) : ℕ := evs.count .junk

theorem events_of_length_lt {q : List UInt8} (h : q.length < dgramOverhead) :
    dgramParser.events q = [] := by
  refine dgramParser.events_of_none ?_
  show dgramStep q = none
  rw [dgramStep, rxScan, if_pos h]

theorem events_cons_of_ne {b : UInt8} {l : List UInt8} (hb : b ≠ dgramHead)
    (h : dgramOverhead ≤ (b :: l).length) :
    dgramParser.events (b :: l) = .junk :: dgramParser.events l := by
  refine dgramParser.events_of_some ?_
  show dgramStep (b :: l) = _
  rw [dgramStep, rxScan, if_neg (not_lt.mpr h), if_pos (by simpa using hb)]
  rfl

/-- Bytes in front of the next head hold no packet. Close to the end of the input the parser
waits on them; what comes next is the same with and without them. -/
theorem events_append_of_forall_ne {pre : List UInt8} (hpre : ∀ b ∈ pre, b ≠ dgramHead)
    (l : List UInt8) :
    packetsOf (dgramParser.events (pre ++ l)) = packetsOf (dgramParser.events l) ∧
      junkOf (dgramParser.events l) ≤ junkOf (dgramParser.events (pre ++ l)) := by
  induction pre with
  | nil => exact ⟨rfl, le_rfl⟩
  | cons b pre ih =>
    obtain ⟨hpackets, hjunk⟩ := ih fun c hc => hpre c (List.mem_cons_of_mem b hc)
    by_cases hshort : (b :: (pre ++ l)).length < dgramOverhead
    · have hl : l.length < dgramOverhead := by
        simp only [List.length_cons, List.length_append] at hshort
        omega
      rw [List.cons_append, events_of_length_lt hshort, events_of_length_lt hl]
      exact ⟨rfl, le_rfl⟩
    · rw [List.cons_append,
        events_cons_of_ne (hpre b List.mem_cons_self) (not_lt.mp hshort)]
      refine ⟨hpackets, hjunk.trans ?_⟩
      exact List.count_le_count_cons

/-! ### The code follows the parser -/

/-- The device after it has acted on the bytes `got` and handed over the packets `out`, with
the bytes `q` still to be looked at. -/
structure RxTracks (errors : ℕ) (got : List UInt8) (out : List (List UInt8)) (net : ArtosynNet)
    (q : List UInt8) : Prop where
  packets : ∀ m, packetsOf (dgramParser.events (got ++ m)) =
    out ++ packetsOf (dgramParser.events (q ++ m))
  rxDgramErrors : ∀ m, net.rxDgramErrors + junkOf (dgramParser.events (q ++ m)) ≤
    errors + junkOf (dgramParser.events (got ++ m))

section Step

variable {errors : ℕ} {got q : List UInt8} {out : List (List UInt8)} {net : ArtosynNet}

theorem rxScan_eq_skip {n : ℕ} (h : rxScan q = .skip n) :
    n = 1 ∨ n = (q.findIdx? (· == dgramHead)).getD q.length := by
  rw [rxScan] at h
  dsimp only at h
  split_ifs at h with hshort hhead hbad hlong htail
  · exact .inr (RxScan.skip.inj h).symm
  · exact .inl (RxScan.skip.inj h).symm
  · exact .inl (RxScan.skip.inj h).symm

theorem ne_of_mem_take_findIdx {b : UInt8}
    (hb : b ∈ q.take ((q.findIdx? (· == dgramHead)).getD q.length)) : b ≠ dgramHead := by
  cases hidx : q.findIdx? (· == dgramHead) with
  | none =>
    rw [hidx, Option.getD_none, List.take_length] at hb
    simpa using List.findIdx?_eq_none_iff.mp hidx b hb
  | some n =>
    rw [hidx, Option.getD_some, List.mem_take_iff_getElem] at hb
    obtain ⟨i, hi, rfl⟩ := hb
    obtain ⟨_, _, hbefore⟩ := List.findIdx?_eq_some_iff_getElem.mp hidx
    simpa using hbefore i (lt_of_lt_of_le hi (min_le_left _ _))

/-- What a skip leaves behind holds no packet, and the parser drops at least one byte of it. -/
theorem events_of_rxScan_eq_skip {n : ℕ} (h : rxScan q = .skip n) (m : List UInt8) :
    packetsOf (dgramParser.events (q ++ m)) = packetsOf (dgramParser.events (q.drop n ++ m)) ∧
      1 + junkOf (dgramParser.events (q.drop n ++ m)) ≤ junkOf (dgramParser.events (q ++ m)) := by
  have hstep : dgramParser.events (q ++ m) = .junk :: dgramParser.events (q.drop 1 ++ m) :=
    dgramParser.events_of_some (dgramParser.step_append m (dgramStep_of_skip h))
  -- the bytes between the first one and the next head
  have hpre : ∀ b ∈ (q.drop 1).take (n - 1), b ≠ dgramHead := by
    intro b hb
    obtain rfl | rfl := rxScan_eq_skip h
    · simp at hb
    · rw [← List.drop_take] at hb
      exact ne_of_mem_take_findIdx (List.mem_of_mem_drop hb)
  have hsplit : q.drop 1 = (q.drop 1).take (n - 1) ++ q.drop n := by
    have hpos := (pos_of_rxScan_eq_skip h).1
    conv_lhs => rw [← List.take_append_drop (n - 1) (q.drop 1), List.drop_drop]
    rw [Nat.add_sub_cancel' hpos]
  rw [hstep, hsplit, List.append_assoc]
  obtain ⟨hpackets, hjunk⟩ := events_append_of_forall_ne hpre (q.drop n ++ m)
  refine ⟨hpackets, ?_⟩
  rw [junkOf, junkOf, List.count_cons_self]
  unfold junkOf at hjunk
  omega

theorem RxTracks.skip {n : ℕ} (ht : RxTracks errors got out net q) (h : rxScan q = .skip n) :
    RxTracks errors got out { net with rxDgramErrors := net.rxDgramErrors + 1 } (q.drop n) where
  packets m := by rw [ht.packets, (events_of_rxScan_eq_skip h m).1]
  rxDgramErrors m := by
    have hskip := (events_of_rxScan_eq_skip h m).2
    have htracks := ht.rxDgramErrors m
    dsimp only
    omega

theorem rxDgramErrors_netDeliver (net : ArtosynNet) (data : List UInt8) :
    (netDeliver net data).1.rxDgramErrors = net.rxDgramErrors := by
  rw [netDeliver]
  split_ifs <;> rfl

theorem netDeliver_snd (net : ArtosynNet) (data : List UInt8) :
    (netDeliver net data).2 = packetsOf [.dgram data] := by
  rw [netDeliver]
  split_ifs with h <;> simp [packetsOf, DgramEvent.packet?, h]

theorem RxTracks.deliver {data : List UInt8} {n : ℕ} (ht : RxTracks errors got out net q)
    (h : rxScan q = .deliver data n) :
    RxTracks errors got (out ++ (netDeliver net data).2) (netDeliver net data).1 (q.drop n) := by
  have hstep : ∀ m, dgramParser.events (q ++ m) =
      [.dgram data] ++ dgramParser.events (q.drop n ++ m) := fun m =>
    dgramParser.events_of_some (dgramParser.step_append m (dgramStep_of_deliver h))
  refine ⟨fun m => ?_, fun m => ?_⟩
  · rw [ht.packets, hstep, netDeliver_snd, packetsOf, List.filterMap_append, List.append_assoc]
    rfl
  · rw [rxDgramErrors_netDeliver]
    have htracks := ht.rxDgramErrors m
    rw [hstep, junkOf, List.count_append] at htracks
    have hcount : [DgramEvent.dgram data].count .junk = 0 := by simp
    rw [hcount, Nat.zero_add] at htracks
    exact htracks

/-- The loop runs until the rest of a datagram is missing. -/
theorem RxTracks.loop (ht : RxTracks errors got out net q) :
    RxTracks errors got (out ++ (rxScanLoop net q).2.1) (rxScanLoop net q).1
        (rxScanLoop net q).2.2 ∧
      rxScan (rxScanLoop net q).2.2 = .wait := by
  fun_induction rxScanLoop net q generalizing out with
  | case1 net q h => exact ⟨by simpa using ht, h⟩
  | case2 net q n h _ ih => exact ih (ht.skip h)
  | case3 net q data n h _ net' out' hd net'' outs rest hrest ih =>
    obtain ⟨htracks, hwait⟩ := ih (hd ▸ ht.deliver h)
    rw [hrest] at htracks hwait
    exact ⟨by simpa using htracks, hwait⟩

end Step

/-- A buffer that waits lacks the rest of one datagram. -/
theorem length_le_of_rxScan_eq_wait {q : List UInt8} (h : rxScan q = .wait) : q.length ≤ 8198 := by
  rw [rxScan] at h
  dsimp only at h
  split_ifs at h with hshort hhead hbad hlong htail
  · unfold dgramOverhead dgramHdrLen at hshort
    omega
  · rw [not_or] at hbad
    unfold dgramOverhead dgramHdrLen at hlong
    unfold netMaxDgram at hbad
    omega

theorem netRxStream_of_le {net : ArtosynNet} {data : List UInt8}
    (h : net.rxbuf.length + data.length ≤ netRxbufSize) :
    netRxStream net data =
      ({ (rxScanLoop net (net.rxbuf ++ data)).1 with
          rxbuf := (rxScanLoop net (net.rxbuf ++ data)).2.2 },
        (rxScanLoop net (net.rxbuf ++ data)).2.1) := by
  rw [netRxStream, if_neg (not_lt.mpr h)]

/-- The device between two `so_read` frames. -/
structure RxInv (errors : ℕ) (payloads : List (List UInt8)) (out : List (List UInt8))
    (net : ArtosynNet) : Prop where
  tracks : RxTracks errors payloads.flatten out net net.rxbuf
  wait : rxScan net.rxbuf = .wait

/-- **One `so_read` frame** of the size the chip sends: there is room for it, and the device
follows the parser through it. -/
theorem RxInv.netRxStream {errors : ℕ} {payloads out : List (List UInt8)} {net : ArtosynNet}
    (h : RxInv errors payloads out net) {data : List UInt8} (hdata : data.length ≤ 57338) :
    net.rxbuf.length + data.length ≤ netRxbufSize ∧
      RxInv errors (payloads ++ [data]) (out ++ (netRxStream net data).2)
        (netRxStream net data).1 := by
  have hroom : net.rxbuf.length + data.length ≤ netRxbufSize := by
    have := length_le_of_rxScan_eq_wait h.wait
    unfold netRxbufSize
    omega
  have htracks : RxTracks errors (payloads ++ [data]).flatten out net (net.rxbuf ++ data) := by
    refine ⟨fun m => ?_, fun m => ?_⟩
    · simpa using h.tracks.packets (data ++ m)
    · simpa using h.tracks.rxDgramErrors (data ++ m)
  obtain ⟨hloop, hwait⟩ := htracks.loop
  rw [netRxStream_of_le hroom]
  exact ⟨hroom, ⟨hloop.packets, hloop.rxDgramErrors⟩, hwait⟩

theorem le_rxDgramErrors_rxScanLoop (net : ArtosynNet) (q : List UInt8) :
    net.rxDgramErrors ≤ (rxScanLoop net q).1.rxDgramErrors := by
  fun_induction rxScanLoop net q with
  | case1 net q h => exact le_rfl
  | case2 net q n h _ ih => exact (Nat.le_succ _).trans ih
  | case3 net q data n h _ net' out' hd net'' outs rest hrest ih =>
    have hnet' := rxDgramErrors_netDeliver net data
    rw [hd] at hnet'
    rw [hrest] at ih
    exact hnet'.ge.trans ih

theorem le_rxDgramErrors_netRxStream (net : ArtosynNet) (data : List UInt8) :
    net.rxDgramErrors ≤ (netRxStream net data).1.rxDgramErrors := by
  rw [netRxStream]
  split_ifs with hfull hbig
  · exact Nat.le_succ _
  · exact (Nat.le_succ _).trans (le_rxDgramErrors_rxScanLoop
      { net with rxDgramErrors := net.rxDgramErrors + 1, rxbuf := [] } data)
  · exact le_rxDgramErrors_rxScanLoop _ _

theorem le_rxDgramErrors_run (net : ArtosynNet) (payloads : List (List UInt8)) :
    net.rxDgramErrors ≤ (Mealy.run netRxStream net payloads).1.rxDgramErrors :=
  Mealy.run_induction netRxStream
    (motive := fun _ t _ => net.rxDgramErrors ≤ t.rxDgramErrors) le_rfl
    (fun _ d t _ ih => ih.trans (le_rxDgramErrors_netRxStream t d)) payloads

theorem rxInv_init {net : ArtosynNet} (hnet : net.rxbuf = []) :
    RxInv net.rxDgramErrors [] [] net where
  tracks := ⟨fun m => by rw [hnet]; rfl, fun m => by rw [hnet]; rfl⟩
  wait := by rw [hnet]; rfl

/-- **Every run** of `so_read` frames. -/
theorem rxInv_run {net : ArtosynNet} (hnet : net.rxbuf = []) (payloads : List (List UInt8))
    (hlen : ∀ d ∈ payloads, d.length ≤ 57338) :
    RxInv net.rxDgramErrors payloads (Mealy.run netRxStream net payloads).2
      (Mealy.run netRxStream net payloads).1 := by
  refine Mealy.run_induction netRxStream
    (motive := fun ds t out => (∀ d ∈ ds, d.length ≤ 57338) → RxInv net.rxDgramErrors ds out t)
    (fun _ => rxInv_init hnet) (fun ds d t out ih hds => ?_) payloads hlen
  exact ((ih fun e he => hds e (by simp [he])).netRxStream (hds d (by simp))).2

/-- The packets handed over are those of the bytes received. -/
theorem RxInv.out_eq {errors : ℕ} {payloads out : List (List UInt8)} {net : ArtosynNet}
    (h : RxInv errors payloads out net) :
    out = packetsOf (dgramParser.events payloads.flatten) := by
  have hnil : dgramParser.events net.rxbuf = [] :=
    dgramParser.events_of_none (dgramStep_of_wait h.wait)
  have hpackets := h.tracks.packets []
  rw [List.append_nil, List.append_nil, hnil] at hpackets
  simpa [packetsOf] using hpackets.symm

theorem RxInv.rxDgramErrors_le {errors : ℕ} {payloads out : List (List UInt8)} {net : ArtosynNet}
    (h : RxInv errors payloads out net) :
    net.rxDgramErrors ≤ errors + junkOf (dgramParser.events payloads.flatten) := by
  have herrors := h.tracks.rxDgramErrors []
  rw [List.append_nil, List.append_nil] at herrors
  omega

/-! ### A stream of packets -/

theorem length_dgramHdr (len : ℕ) : (dgramHdr len).length = dgramHdrLen := by
  simp [dgramHdr, dgramHdrLen]

/-- The scan recognises a packet at its front. -/
theorem rxScan_dgram {p : List UInt8} (hp : p.length ≤ netMaxDgram) (l : List UInt8) :
    rxScan (dgram p ++ l) = .deliver p (dgramOverhead + p.length) := by
  have hdec : decode (encode 4 p.length) = p.length := decode_encode_of_lt (by
    unfold netMaxDgram at hp
    omega)
  have hq : dgram p ++ l = dgramHdr p.length ++ (p ++ dgramTail :: l) := by
    simp [dgram]
  have hhead : (dgram p ++ l).getD 0 0 = dgramHead := by
    rw [hq]
    rfl
  have hlen : ((dgram p ++ l).drop 1).take 4 = encode 4 p.length := by
    rw [hq]
    rfl
  have hxor : artXor ((dgram p ++ l).take dgramXorLen) = (dgram p ++ l).getD 5 0 := by
    rw [hq]
    rfl
  have hlength : (dgram p ++ l).length = dgramOverhead + p.length + l.length := by
    rw [hq]
    simp [length_dgramHdr, dgramOverhead]
    omega
  have htail : (dgram p ++ l).getD (dgramHdrLen + p.length) 0 = dgramTail := by
    rw [hq, List.getD_append_right _ _ _ _ (by rw [length_dgramHdr]; omega), length_dgramHdr,
      Nat.add_sub_cancel_left, List.getD_append_right _ _ _ _ le_rfl, Nat.sub_self]
    rfl
  have hdata : ((dgram p ++ l).drop dgramHdrLen).take p.length = p := by
    rw [hq, List.drop_left' (length_dgramHdr _), List.take_left]
  rw [rxScan, if_neg (by omega), if_neg (not_not.mpr hhead), hlen, hdec]
  dsimp only
  rw [if_neg (not_or.mpr ⟨not_not.mpr hxor, not_lt.mpr hp⟩), if_neg (by omega),
    if_neg (not_not.mpr htail), hdata]

theorem events_flatMap_dgram {packets : List (List UInt8)}
    (h : ∀ p ∈ packets, p.length ≤ netMaxDgram) :
    dgramParser.events (packets.flatMap dgram) = packets.map .dgram := by
  induction packets with
  | nil => exact events_of_length_lt (by decide)
  | cons p packets ih =>
    have hscan := rxScan_dgram (h p List.mem_cons_self) (packets.flatMap dgram)
    have hlength : (dgram p).length = dgramOverhead + p.length := by
      simp [dgram, length_dgramHdr, dgramOverhead]
      omega
    rw [List.flatMap_cons, dgramParser.events_of_some (dgramStep_of_deliver hscan),
      List.drop_left' hlength, ih fun q hq => h q (List.mem_cons_of_mem p hq), List.map_cons]

theorem packetsOf_map_dgram {packets : List (List UInt8)}
    (h : ∀ p ∈ packets, ethHlen ≤ p.length) : packetsOf (packets.map .dgram) = packets := by
  induction packets with
  | nil => rfl
  | cons p packets ih =>
    have hp : ¬ p.length < ethHlen := not_lt.mpr (h p List.mem_cons_self)
    rw [List.map_cons, packetsOf,
      List.filterMap_cons_some (b := p) (by simp [DgramEvent.packet?, hp])]
    exact congrArg _ (ih fun q hq => h q (List.mem_cons_of_mem p hq))

theorem junkOf_map_dgram (packets : List (List UInt8)) : junkOf (packets.map .dgram) = 0 := by
  rw [junkOf, List.count_eq_zero]
  simp

/-! ### The result -/

/-- The bytes still to be looked at after one turn of the scan loop. -/
def rxScanNext (q : List UInt8) : List UInt8 :=
  match rxScan q with
  | .wait => q
  | .skip n => q.drop n
  | .deliver _ n => q.drop n

theorem length_rxScanNext_lt {q : List UInt8} (h : rxScan q ≠ .wait) :
    (rxScanNext q).length < q.length := by
  rw [rxScanNext]
  cases hscan : rxScan q with
  | wait => exact absurd hscan h
  | skip n =>
    have := pos_of_rxScan_eq_skip hscan
    simp only [List.length_drop]
    omega
  | deliver data n =>
    have := pos_of_rxScan_eq_deliver hscan
    simp only [List.length_drop]
    omega

/-- The loop leaves after at most as many turns as there are bytes. -/
theorem exists_iterate_rxScanNext (q : List UInt8) :
    ∃ n ≤ q.length, rxScan (rxScanNext^[n] q) = .wait := by
  induction hlen : q.length using Nat.strongRecOn generalizing q with
  | _ k ih =>
    by_cases hwait : rxScan q = .wait
    · exact ⟨0, Nat.zero_le _, hwait⟩
    · have hlt := length_rxScanNext_lt hwait
      obtain ⟨n, hn, hdone⟩ := ih _ (hlen ▸ hlt) (rxScanNext q) rfl
      exact ⟨n + 1, by omega, hdone⟩

/-- **The packets of a byte stream**, received in pieces of any size up to `57338` bytes.
A stream that `net_build_frame` wrote yields its packets and no error. For any bytes at all the
packets depend on the bytes alone, the buffer has room for every piece and keeps at most
`8198` bytes, and the scan loop ends. -/
theorem rxStream_packets (net : ArtosynNet) (hnet : net.rxbuf = []) (payloads : List (List UInt8))
    (hlen : ∀ d ∈ payloads, d.length ≤ 57338) :
    (∀ packets : List (List UInt8), (∀ p ∈ packets, 14 ≤ p.length ∧ p.length ≤ 8192) →
      payloads.flatten = packets.flatMap dgram →
      (Mealy.run netRxStream net payloads).2 = packets ∧
        (Mealy.run netRxStream net payloads).1.rxDgramErrors = net.rxDgramErrors) ∧
    (∀ payloads' : List (List UInt8), (∀ d ∈ payloads', d.length ≤ 57338) →
      payloads'.flatten = payloads.flatten →
      (Mealy.run netRxStream net payloads').2 = (Mealy.run netRxStream net payloads).2) ∧
    (∀ pre data post, payloads = pre ++ data :: post →
      (Mealy.run netRxStream net pre).1.rxbuf.length + data.length ≤ netRxbufSize ∧
        (netRxStream (Mealy.run netRxStream net pre).1 data).1.rxbuf.length ≤ 8198) ∧
    ∀ q, ∃ n ≤ q.length, rxScan (rxScanNext^[n] q) = .wait := by
  have hrun := rxInv_run hnet payloads hlen
  refine ⟨fun packets hpackets hbytes => ?_, fun payloads' hlen' hbytes => ?_,
    fun pre data post hsplit => ?_, exists_iterate_rxScanNext⟩
  · -- a stream of datagrams has no junk between them
    have hevents := events_flatMap_dgram fun p hp => (hpackets p hp).2
    have hout := hrun.out_eq
    have herrors := hrun.rxDgramErrors_le
    rw [hbytes, hevents] at hout herrors
    rw [packetsOf_map_dgram fun p hp => (hpackets p hp).1] at hout
    rw [junkOf_map_dgram] at herrors
    exact ⟨hout, herrors.antisymm (le_rxDgramErrors_run net payloads)⟩
  · rw [(rxInv_run hnet payloads' hlen').out_eq, hrun.out_eq, hbytes]
  · have hpre := rxInv_run hnet pre fun d hd => hlen d (by simp [hsplit, hd])
    obtain ⟨hroom, hnext⟩ := hpre.netRxStream (hlen data (by simp [hsplit]))
    exact ⟨hroom, length_le_of_rxScan_eq_wait hnext.wait⟩

/-- Two packets, the first of which holds the bytes of heads and tails, cut inside their
headers. -/
theorem rxStream_packets_sample :
    let packets := [List.replicate 14 dgramHead, List.replicate 15 dgramTail]
    let bytes := packets.flatMap dgram
    (Mealy.run netRxStream freshNet [bytes.take 3, (bytes.drop 3).take 20, bytes.drop 23]).2 =
      packets := by
  intro packets bytes
  refine ((rxStream_packets freshNet rfl _ ?_).1 packets ?_ ?_).1
  all_goals decide

end Ar8030
