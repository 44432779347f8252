import Mathlib.Data.List.GetD
import Ar8030Transport.H265.AnnexB
import Ar8030Transport.Library.LittleEndian
import Ar8030Transport.Library.Mealy

/-!
# RTP packetisation

`sendNals` is `rtp_h265_send_nals` (`rx/rtp_h265.c`): a NAL unit that fits goes out as a
single-NAL packet, a longer one as a series of fragmentation units. What is handed to
`send_packet` does not depend on what became of earlier packets, so the calls are listed
first (`sendReqs`) and `sendPacket` is run over the list.

The return value counts the packets whose `send` succeeded and is only used for statistics;
it is left out.

`depacketise` is the receiver: a step function over payloads that passes single NAL units
through and joins fragments.
-/

namespace Ar8030

/-! ### `send_packet` -/

/-- `rtp_h265_ctx_t`. -/
structure RtpCtx where
  ssrc : UInt32
  seq : UInt16
  maxPayload : UInt16
  deriving DecidableEq, Repr

/-- `rtp_h265_init`, with the two random values. -/
def RtpCtx.init (ssrc : UInt32) (seq maxPayload : UInt16) : RtpCtx where
  ssrc := ssrc
  seq := seq
  maxPayload := if 8192 < maxPayload then 8192 else maxPayload

/-- A packet as it is handed to `send`. -/
structure RtpPacket where
  marker : Bool
  seq : UInt16
  ts : UInt32
  ssrc : UInt32
  payload : List UInt8
  deriving DecidableEq, Repr

/-- `RTP_HDR_LEN`. -/
def rtpHdrLen : ℕ := 12

/-- `RTP_SEND_BUF_MAX`. -/
def rtpSendBufMax : ℕ := rtpHdrLen + 3 + 8192

/-- `put_rtp_header` and the payload behind it; multi-byte fields in network order. -/
def RtpPacket.bytes (p : RtpPacket) : List UInt8 :=
  [0x80, (if p.marker then 0x80 else 0x00) ||| (96 &&& 0x7F)] ++
    (LittleEndian.encode 2 p.seq.toNat).reverse ++ (LittleEndian.encode 4 p.ts.toNat).reverse ++
    (LittleEndian.encode 4 p.ssrc.toNat).reverse ++ p.payload

/-- One call of `send_packet`: the two parts of the payload, and the marker. -/
structure SendReq where
  payloadA : List UInt8
  payloadB : List UInt8
  marker : Bool
  deriving DecidableEq, Repr

/-- The payload the packet will have. -/
def SendReq.payload (q : SendReq) : List UInt8 := q.payloadA ++ q.payloadB

/-- `send_packet`. -/
def sendPacket (ts : UInt32) (ctx : RtpCtx) (q : SendReq) : RtpCtx × List RtpPacket :=
  if rtpSendBufMax < rtpHdrLen + q.payloadA.length + q.payloadB.length then (ctx, [])
  else
    ({ ctx with seq := ctx.seq + 1 },
      [{ marker := q.marker, seq := ctx.seq, ts := ts, ssrc := ctx.ssrc, payload := q.payload }])

/-! ### `rtp_h265_send_nals` -/

/-- `H265_NAL_FU`. -/
def nalTypeFu : UInt8 := 49

/-- `max_frag`. -/
def maxFrag (maxPayload : ℕ) : ℕ := if 3 < maxPayload then maxPayload - 3 else 1

theorem maxFrag_pos (maxPayload : ℕ) : 0 < maxFrag maxPayload := by
  rw [maxFrag]
  split_ifs <;> omega

/-- `payload_hdr0`: the NAL unit header with the type of a fragmentation unit. -/
def payloadHdr0 (hdr0 : UInt8) : UInt8 :=
  (hdr0 &&& 0x81) ||| ((nalTypeFu &&& 0x3F) <<< (1 : UInt8))

/-- `fu_hdr`: the two ends and the type of the NAL unit. -/
def fuHdr (start stop : Bool) (hdr0 : UInt8) : UInt8 :=
  ((if start then 1 else 0) <<< (7 : UInt8)) ||| ((if stop then 1 else 0) <<< (6 : UInt8)) |||
    (nalType hdr0 &&& 0x3F)

/-- The three bytes in front of a fragment. -/
def fuHeader (hdr0 hdr1 : UInt8) (start stop : Bool) : List UInt8 :=
  [payloadHdr0 hdr0, hdr1, fuHdr start stop hdr0]

/-- The fragment at offset `off`. -/
def fragAt (k : ℕ) (body : List UInt8) (off : ℕ) : List UInt8 := (body.drop off).take k

/-- The fragment at offset `off` is the last one. -/
def isStop (k : ℕ) (body : List UInt8) (off : ℕ) : Bool :=
  body.length ≤ off + (fragAt k body off).length

theorem length_fragAt (k : ℕ) (body : List UInt8) (off : ℕ) :
    (fragAt k body off).length = min k (body.length - off) := by
  simp [fragAt]

/-- The body of the fragmentation loop. -/
def fuReq (k : ℕ) (hdr0 hdr1 : UInt8) (isLastNal : Bool) (body : List UInt8) (off : ℕ) :
    SendReq where
  payloadA := fuHeader hdr0 hdr1 (off == 0) (isStop k body off)
  payloadB := fragAt k body off
  marker := isLastNal && isStop k body off

/-- The fragmentation loop from offset `off` on. -/
def fuLoop (k : ℕ) (hk : 0 < k) (hdr0 hdr1 : UInt8) (isLastNal : Bool) (body : List UInt8)
    (off : ℕ) : List SendReq :=
  if off < body.length then
    fuReq k hdr0 hdr1 isLastNal body off ::
      fuLoop k hk hdr0 hdr1 isLastNal body (off + (fragAt k body off).length)
  else []
termination_by body.length - off
decreasing_by
  rw [length_fragAt]
  omega

/-- The packets of one NAL unit. -/
def nalReqs (maxPayload : ℕ) (nal : List UInt8) (isLastNal : Bool) : List SendReq :=
  if nal.length < 2 then []
  else if nal.length ≤ maxPayload then [{ payloadA := nal, payloadB := [], marker := isLastNal }]
  else
    fuLoop (maxFrag maxPayload) (maxFrag_pos maxPayload) (nal.getD 0 0) (nal.getD 1 0) isLastNal
      (nal.drop 2) 0

/-- The loop over the table of NAL units. -/
def sendReqs (maxPayload : ℕ) (auEnd : Bool) : List (List UInt8) → List SendReq
  | [] => []
  | nal :: nals => nalReqs maxPayload nal (auEnd && nals.isEmpty) ++ sendReqs maxPayload auEnd nals

/-- `rtp_h265_send_nals`: the packets passed to `send`, and the context afterwards. -/
def sendNals (ctx : RtpCtx) (data : List UInt8) (ts : UInt32) (auEnd : Bool) :
    RtpCtx × List RtpPacket :=
  Mealy.run (sendPacket ts) ctx
    (sendReqs ctx.maxPayload.toNat auEnd
      ((collectNals data 256 0).map fun s => s.bytes data))

/-! ### The receiver -/

/-- The payload is a fragmentation unit. -/
def isFu (payload : List UInt8) : Bool := nalType (payload.getD 0 0) == nalTypeFu

/-- The S bit. -/
def isFuStart (payload : List UInt8) : Bool := payload.getD 2 0 &&& 0x80 != 0

/-- The E bit. -/
def isFuEnd (payload : List UInt8) : Bool := payload.getD 2 0 &&& 0x40 != 0

/-- A first fragment begins with the NAL unit header rebuilt from the two headers, a later
one goes behind what was joined so far. -/
def joinFragment (joined : Option (List UInt8)) (payload : List UInt8) : Option (List UInt8) :=
  if isFuStart payload then
    some (((payload.getD 0 0 &&& 0x81) ||| ((payload.getD 2 0 &&& 0x3F) <<< (1 : UInt8))) ::
      payload.getD 1 0 :: payload.drop 3)
  else joined.map (· ++ payload.drop 3)

/-- One payload at the receiver: the fragments joined so far, and a NAL unit if one is
complete. -/
def depacketStep (joined : Option (List UInt8)) (payload : List UInt8) :
    Option (List UInt8) × List (List UInt8) :=
  if isFu payload then
    if isFuEnd payload then (none, (joinFragment joined payload).toList)
    else (joinFragment joined payload, [])
  else (none, [payload])

/-- The NAL units a receiver gets out of a series of payloads. -/
def depacketise (payloads : List (List UInt8)) : List (List UInt8) :=
  (Mealy.run depacketStep none payloads).2

/-! ### Flags that mark the first or the last -/

/-- Set on the last element and on no other, or on none. -/
def LastOnly (b : Bool) (ms : List Bool) : Prop :=
  ∀ i, (hi : i < ms.length) → ms[i] = (b && i + 1 == ms.length)

/-- Set on the first element and on no other. -/
def FirstOnly (ms : List Bool) : Prop := ∀ i, (hi : i < ms.length) → ms[i] = (i == 0)

theorem lastOnly_nil {b : Bool} : LastOnly b [] := fun i hi => by simp at hi

theorem lastOnly_cons {b m : Bool} {ms : List Bool} (hm : m = (b && ms.isEmpty))
    (h : LastOnly b ms) : LastOnly b (m :: ms) := by
  intro i hi
  cases i with
  | zero => cases ms <;> simp [hm]
  | succ i => simpa using h i (by simpa using hi)

theorem firstOnly_cons {m : Bool} {ms : List Bool} (hm : m = true) (h : ∀ x ∈ ms, x = false) :
    FirstOnly (m :: ms) := by
  intro i hi
  cases i with
  | zero => simpa using hm
  | succ i => simpa using h _ (List.getElem_mem (show i < ms.length by simpa using hi))

theorem LastOnly.append {b : Bool} {xs ys : List Bool} (hx : LastOnly false xs)
    (hy : LastOnly b ys) (hne : ys ≠ []) : LastOnly b (xs ++ ys) := by
  have hpos := List.length_pos_of_ne_nil hne
  intro i hi
  rw [List.length_append] at hi
  rw [List.getElem_append, List.length_append]
  split_ifs with hold
  · have hearly : (i + 1 == xs.length + ys.length) = false := by
      rw [beq_eq_false_iff_ne]
      omega
    rw [hx i hold, hearly, Bool.false_and, Bool.and_false]
  · have hshift : (i - xs.length + 1 == ys.length) = (i + 1 == xs.length + ys.length) := by
      rw [Bool.eq_iff_iff, beq_iff_eq, beq_iff_eq]
      omega
    rw [hy _ (by omega), hshift]

/-! ### Fragments -/

/-- The bits of the two headers. -/
theorem fuHdr_bits (hdr0 : UInt8) (start stop : Bool) :
    nalType (payloadHdr0 hdr0) = nalTypeFu ∧ (fuHdr start stop hdr0 &&& 0x80 != 0) = start ∧
      (fuHdr start stop hdr0 &&& 0x40 != 0) = stop ∧
      (payloadHdr0 hdr0 &&& 0x81) |||
        ((fuHdr start stop hdr0 &&& 0x3F) <<< (1 : UInt8)) = hdr0 := by
  obtain ⟨b⟩ := hdr0
  revert b start stop
  decide +kernel

section Fragments

variable {k : ℕ} {hk : 0 < k} {hdr0 hdr1 : UInt8} {isLastNal : Bool} {body : List UInt8} {off : ℕ}

/-- What the receiver sees of one fragment. -/
theorem fuReq_spec :
    isFu (fuReq k hdr0 hdr1 isLastNal body off).payload = true ∧
      isFuStart (fuReq k hdr0 hdr1 isLastNal body off).payload = (off == 0) ∧
      isFuEnd (fuReq k hdr0 hdr1 isLastNal body off).payload = isStop k body off ∧
      (fuReq k hdr0 hdr1 isLastNal body off).payload.length ≤ 3 + k := by
  obtain ⟨hfu, hstart, hstop, -⟩ := fuHdr_bits hdr0 (off == 0) (isStop k body off)
  refine ⟨beq_iff_eq.mpr hfu, hstart, hstop, ?_⟩
  rw [SendReq.payload, List.length_append]
  simp only [fuReq, length_fragAt, fuHeader, List.length_cons, List.length_nil]
  omega

/-- A fragment goes behind the ones before it. -/
theorem joinFragment_fuReq {joined : Option (List UInt8)}
    (hjoined : off ≠ 0 → joined = some (hdr0 :: hdr1 :: body.take off)) :
    joinFragment joined (fuReq k hdr0 hdr1 isLastNal body off).payload =
      some (hdr0 :: hdr1 :: body.take (off + (fragAt k body off).length)) := by
  obtain ⟨-, -, -, hhdr⟩ := fuHdr_bits hdr0 (off == 0) (isStop k body off)
  have htake : body.take (off + (fragAt k body off).length) =
      body.take off ++ fragAt k body off := by
    rw [List.take_add]
    congr 1
    rw [fragAt, List.length_take, List.take_eq_take_iff]
    simp
  rw [joinFragment, fuReq_spec.2.1, htake]
  split_ifs with h0
  · obtain rfl : off = 0 := beq_iff_eq.mp h0
    rw [beq_self_eq_true] at hhdr
    simp [SendReq.payload, fuReq, fuHeader, hhdr]
  · rw [hjoined (by simpa using h0)]
    simp [SendReq.payload, fuReq, fuHeader]

/-- The loop ends after a fragment exactly when that fragment is the last. -/
theorem fuLoop_eq_nil_iff : fuLoop k hk hdr0 hdr1 isLastNal body off = [] ↔ body.length ≤ off := by
  rw [fuLoop]
  split_ifs with h
  · simp
    omega
  · simp
    omega

theorem isEmpty_fuLoop :
    (fuLoop k hk hdr0 hdr1 isLastNal body (off + (fragAt k body off).length)).isEmpty =
      isStop k body off := by
  rw [Bool.eq_iff_iff, List.isEmpty_iff, fuLoop_eq_nil_iff, isStop, decide_eq_true_iff]

/-- The fragments joined are the NAL unit. -/
theorem run_depacketStep_fuLoop (hoff : off < body.length) (joined : Option (List UInt8))
    (hjoined : off ≠ 0 → joined = some (hdr0 :: hdr1 :: body.take off)) :
    Mealy.run depacketStep joined ((fuLoop k hk hdr0 hdr1 isLastNal body off).map SendReq.payload) =
      (none, [hdr0 :: hdr1 :: body]) := by
  fun_induction fuLoop k hk hdr0 hdr1 isLastNal body off generalizing joined with
  | case1 off h ih =>
    obtain ⟨hfu, -, hend, -⟩ := @fuReq_spec k hdr0 hdr1 isLastNal body off
    rw [List.map_cons, Mealy.run_cons, depacketStep, hfu, hend, joinFragment_fuReq hjoined]
    by_cases hs : isStop k body off = true
    · have hdone : body.length ≤ off + (fragAt k body off).length := by simpa [isStop] using hs
      simp [hs, fuLoop_eq_nil_iff.mpr hdone, List.take_of_length_le hdone]
    · have hmore : off + (fragAt k body off).length < body.length := by simpa [isStop] using hs
      simp only [hs, if_true, if_false, Bool.false_eq_true]
      rw [ih hmore _ fun _ => rfl]
      rfl
  | case2 off h => exact absurd hoff h

theorem mem_fuLoop {q : SendReq} (hq : q ∈ fuLoop k hk hdr0 hdr1 isLastNal body off) :
    isFu q.payload = true ∧ q.payload.length ≤ 3 + k := by
  fun_induction fuLoop k hk hdr0 hdr1 isLastNal body off with
  | case1 off h ih =>
    rcases List.mem_cons.mp hq with rfl | hq
    · obtain ⟨hfu, -, -, hlen⟩ := @fuReq_spec k hdr0 hdr1 isLastNal body off
      exact ⟨hfu, hlen⟩
    · exact ih hq
  | case2 off h => simp at hq

/-- The E bit is set on the last fragment only. -/
theorem lastOnly_isFuEnd_fuLoop :
    LastOnly true ((fuLoop k hk hdr0 hdr1 isLastNal body off).map fun q => isFuEnd q.payload) := by
  fun_induction fuLoop k hk hdr0 hdr1 isLastNal body off with
  | case1 off h ih =>
    refine lastOnly_cons ?_ ih
    simp only [fuReq_spec.2.2.1]
    rw [List.isEmpty_map, isEmpty_fuLoop, Bool.true_and]
  | case2 off h => exact lastOnly_nil

/-- The marker is set on the last fragment only, if at all. -/
theorem lastOnly_marker_fuLoop :
    LastOnly isLastNal ((fuLoop k hk hdr0 hdr1 isLastNal body off).map SendReq.marker) := by
  fun_induction fuLoop k hk hdr0 hdr1 isLastNal body off with
  | case1 off h ih =>
    refine lastOnly_cons ?_ ih
    rw [List.isEmpty_map, isEmpty_fuLoop, fuReq]
  | case2 off h => exact lastOnly_nil

/-- Behind offset 0 no fragment has the S bit. -/
theorem isFuStart_of_mem_fuLoop (hoff : 0 < off) {q : SendReq}
    (hq : q ∈ fuLoop k hk hdr0 hdr1 isLastNal body off) : isFuStart q.payload = false := by
  fun_induction fuLoop k hk hdr0 hdr1 isLastNal body off with
  | case1 off h ih =>
    rcases List.mem_cons.mp hq with rfl | hq
    · rw [fuReq_spec.2.1, beq_eq_false_iff_ne]
      omega
    · exact ih (by omega) hq
  | case2 off h => simp at hq

/-- The S bit is set on the first fragment only. -/
theorem firstOnly_isFuStart_fuLoop :
    FirstOnly ((fuLoop k hk hdr0 hdr1 isLastNal body 0).map fun q => isFuStart q.payload) := by
  rw [fuLoop]
  split_ifs with h
  · have hfrag := length_fragAt k body 0
    rw [List.map_cons]
    refine firstOnly_cons fuReq_spec.2.1 fun m hm => ?_
    obtain ⟨q, hq, rfl⟩ := List.mem_map.mp hm
    exact isFuStart_of_mem_fuLoop (by omega) hq
  · exact fun i hi => by simp at hi

/-- A body longer than one fragment takes at least two. -/
theorem two_le_length_fuLoop (hlong : k < body.length) :
    2 ≤ (fuLoop k hk hdr0 hdr1 isLastNal body 0).length := by
  have hfrag := length_fragAt k body 0
  have hrest : fuLoop k hk hdr0 hdr1 isLastNal body (0 + (fragAt k body 0).length) ≠ [] := by
    rw [ne_eq, fuLoop_eq_nil_iff]
    omega
  have hpos := List.length_pos_of_ne_nil hrest
  rw [fuLoop, if_pos (by omega), List.length_cons]
  omega

end Fragments

/-! ### One NAL unit -/

/-- The packets of one NAL unit: itself, if it fits, or at least two fragments, the first
of them with the S bit and the last with the E bit. -/
structure UnitPackets (maxPayload : ℕ) (nal : List UInt8) (payloads : List (List UInt8)) :
    Prop where
  single : nal.length ≤ maxPayload → payloads = [nal]
  fragments : maxPayload < nal.length →
    2 ≤ payloads.length ∧ (∀ p ∈ payloads, isFu p = true) ∧
      FirstOnly (payloads.map isFuStart) ∧ LastOnly true (payloads.map isFuEnd)

section Unit

variable {maxPayload : ℕ} (u : NalUnit) (isLastNal : Bool)

/-- A NAL unit of a type that is sent on its own: the types from 48 on are those of RTP. -/
def NalUnit.Plain (u : NalUnit) : Prop := nalType (u.bytes.getD 0 0) ≤ 47

theorem NalUnit.exists_cons : ∃ hdr0 hdr1 body, u.bytes = hdr0 :: hdr1 :: body := by
  have h := u.two_le_length
  match hb : u.bytes with
  | [] => simp [hb] at h
  | [_] => simp [hb] at h
  | hdr0 :: hdr1 :: body => exact ⟨hdr0, hdr1, body, rfl⟩

theorem isFu_eq_false (hplain : u.Plain) : isFu u.bytes = false := by
  rw [isFu, beq_eq_false_iff_ne]
  intro heq
  rw [NalUnit.Plain, heq] at hplain
  exact absurd hplain (by decide)

/-- A NAL unit that does not fit goes through the fragmentation loop. -/
theorem nalReqs_of_lt {hdr0 hdr1 : UInt8} {body : List UInt8}
    (hbytes : u.bytes = hdr0 :: hdr1 :: body)
    (hlong : maxPayload < u.bytes.length) :
    nalReqs maxPayload u.bytes isLastNal =
      fuLoop (maxFrag maxPayload) (maxFrag_pos maxPayload) hdr0 hdr1 isLastNal body 0 := by
  have htwo := u.two_le_length
  rw [nalReqs, if_neg (by omega), if_neg (by omega), hbytes]
  rfl

/-- One that fits is a packet of its own. -/
theorem nalReqs_of_le (hfits : u.bytes.length ≤ maxPayload) :
    nalReqs maxPayload u.bytes isLastNal =
      [{ payloadA := u.bytes, payloadB := [], marker := isLastNal }] := by
  have htwo := u.two_le_length
  rw [nalReqs, if_neg (by omega), if_pos hfits]

theorem unitPackets_nalReqs (hmax : 4 ≤ maxPayload) :
    UnitPackets maxPayload u.bytes
      ((nalReqs maxPayload u.bytes isLastNal).map SendReq.payload) where
  single hfits := by simp [nalReqs_of_le u isLastNal hfits, SendReq.payload]
  fragments hlong := by
    obtain ⟨hdr0, hdr1, body, hbytes⟩ := u.exists_cons
    have hbody : maxFrag maxPayload < body.length := by
      rw [hbytes, List.length_cons, List.length_cons] at hlong
      rw [maxFrag, if_pos (by omega)]
      omega
    rw [nalReqs_of_lt u isLastNal hbytes hlong, List.map_map, List.map_map, List.length_map]
    refine ⟨two_le_length_fuLoop hbody, fun p hp => ?_, firstOnly_isFuStart_fuLoop,
      lastOnly_isFuEnd_fuLoop⟩
    obtain ⟨q, hq, rfl⟩ := List.mem_map.mp hp
    exact (mem_fuLoop hq).1

/-- The packets of one NAL unit come back as that NAL unit. -/
theorem run_depacketStep_nalReqs (hmax : 4 ≤ maxPayload) (hplain : u.Plain) :
    Mealy.run depacketStep none ((nalReqs maxPayload u.bytes isLastNal).map SendReq.payload) =
      (none, [u.bytes]) := by
  rcases Nat.lt_or_ge maxPayload u.bytes.length with hlong | hfits
  · obtain ⟨hdr0, hdr1, body, hbytes⟩ := u.exists_cons
    have hpos : 0 < body.length := by
      rw [hbytes, List.length_cons, List.length_cons] at hlong
      omega
    rw [nalReqs_of_lt u isLastNal hbytes hlong, run_depacketStep_fuLoop hpos none (by simp), hbytes]
  · simp [nalReqs_of_le u isLastNal hfits, Mealy.run_cons, depacketStep, SendReq.payload,
      isFu_eq_false u hplain]

/-- No payload is longer than the limit. -/
theorem length_payload_le_of_mem_nalReqs (hmax : 4 ≤ maxPayload) {q : SendReq}
    (hq : q ∈ nalReqs maxPayload u.bytes isLastNal) : q.payload.length ≤ maxPayload := by
  rcases Nat.lt_or_ge maxPayload u.bytes.length with hlong | hfits
  · obtain ⟨hdr0, hdr1, body, hbytes⟩ := u.exists_cons
    rw [nalReqs_of_lt u isLastNal hbytes hlong] at hq
    have hlen := (mem_fuLoop hq).2
    rw [maxFrag, if_pos (by omega)] at hlen
    omega
  · rw [nalReqs_of_le u isLastNal hfits, List.mem_singleton] at hq
    simpa [hq, SendReq.payload] using hfits

/-- The marker is on the last packet only, if at all. -/
theorem lastOnly_marker_nalReqs :
    LastOnly isLastNal ((nalReqs maxPayload u.bytes isLastNal).map SendReq.marker) := by
  rcases Nat.lt_or_ge maxPayload u.bytes.length with hlong | hfits
  · obtain ⟨hdr0, hdr1, body, hbytes⟩ := u.exists_cons
    rw [nalReqs_of_lt u isLastNal hbytes hlong]
    exact lastOnly_marker_fuLoop
  · rw [nalReqs_of_le u isLastNal hfits]
    exact lastOnly_cons (by simp) lastOnly_nil

end Unit

/-! ### All NAL units of a call -/

section Calls

variable {maxPayload : ℕ} {auEnd : Bool}

theorem nalReqs_ne_nil (u : NalUnit) (isLastNal : Bool) (hmax : 4 ≤ maxPayload) :
    nalReqs maxPayload u.bytes isLastNal ≠ [] := by
  intro hnil
  have h := unitPackets_nalReqs u isLastNal hmax
  rw [hnil] at h
  rcases Nat.lt_or_ge maxPayload u.bytes.length with hlong | hfits
  · exact absurd (h.fragments hlong).1 (by simp)
  · exact absurd (h.single hfits) (by simp)

/-- Cutting the table in two: only the second part can end the access unit. -/
theorem sendReqs_append (xs : List (List UInt8)) {ys : List (List UInt8)} (hne : ys ≠ []) :
    sendReqs maxPayload auEnd (xs ++ ys) =
      sendReqs maxPayload false xs ++ sendReqs maxPayload auEnd ys := by
  induction xs with
  | nil => rfl
  | cons x xs ih =>
    have hmore : (xs ++ ys).isEmpty = false := by simp [hne]
    rw [List.cons_append, sendReqs, sendReqs, ih, hmore, Bool.and_false, Bool.false_and,
      List.append_assoc]

/-- The packets of a call, NAL unit by NAL unit. -/
theorem sendReqs_units (hmax : 4 ≤ maxPayload) (units : List NalUnit) :
    (∀ q ∈ sendReqs maxPayload auEnd (units.map NalUnit.bytes), q.payload.length ≤ maxPayload) ∧
    LastOnly auEnd ((sendReqs maxPayload auEnd (units.map NalUnit.bytes)).map SendReq.marker) ∧
    ∃ groups : List (List (List UInt8)),
      (sendReqs maxPayload auEnd (units.map NalUnit.bytes)).map SendReq.payload = groups.flatten ∧
      List.Forall₂ (fun u g => UnitPackets maxPayload u.bytes g) units groups := by
  induction units with
  | nil => exact ⟨by simp [sendReqs], lastOnly_nil, [], rfl, .nil⟩
  | cons u us ih =>
    obtain ⟨hlen, hmarks, groups, hgroups, hunits⟩ := ih
    simp only [List.map_cons, sendReqs, List.map_append]
    have hgroup := unitPackets_nalReqs u (auEnd && (us.map NalUnit.bytes).isEmpty) hmax
    refine ⟨fun q hq => ?_, ?_, _ :: groups, ?_, .cons hgroup hunits⟩
    · rcases List.mem_append.mp hq with hq | hq
      · exact length_payload_le_of_mem_nalReqs u _ hmax hq
      · exact hlen q hq
    · have hfirst := @lastOnly_marker_nalReqs maxPayload u (auEnd && (us.map NalUnit.bytes).isEmpty)
      cases us with
      | nil => simpa [sendReqs] using hfirst
      | cons v vs =>
        simp only [List.map_cons, List.isEmpty_cons, Bool.and_false] at hfirst ⊢
        refine hfirst.append hmarks ?_
        rw [sendReqs, List.map_append]
        simp [nalReqs_ne_nil v _ hmax]
    · rw [hgroups, List.flatten_cons]

/-- The packets of a call come back as its NAL units. -/
theorem run_depacketStep_sendReqs (hmax : 4 ≤ maxPayload) {units : List NalUnit}
    (hplain : ∀ u ∈ units, u.Plain) :
    Mealy.run depacketStep none
        ((sendReqs maxPayload auEnd (units.map NalUnit.bytes)).map SendReq.payload) =
      (none, units.map NalUnit.bytes) := by
  induction units with
  | nil => rfl
  | cons u us ih =>
    have hrest := ih fun v hv => hplain v (by simp [hv])
    simp only [List.map_cons, sendReqs, List.map_append, Mealy.run_append,
      run_depacketStep_nalReqs u _ hmax (hplain u (by simp)), hrest]
    rfl

end Calls

/-! ### Numbering -/

/-- `send_packet` over requests that fit the send buffer: each becomes a packet, numbered
in order. -/
theorem run_sendPacket (ts : UInt32) (ctx : RtpCtx) {reqs : List SendReq}
    (hfit : ∀ q ∈ reqs, rtpHdrLen + q.payload.length ≤ rtpSendBufMax) :
    (Mealy.run (sendPacket ts) ctx reqs).1 =
        { ctx with seq := ctx.seq + UInt16.ofNat reqs.length } ∧
      (Mealy.run (sendPacket ts) ctx reqs).2 = reqs.zipIdx.map fun x =>
        { marker := x.1.marker
          seq := ctx.seq + UInt16.ofNat x.2
          ts := ts
          ssrc := ctx.ssrc
          payload := x.1.payload } := by
  induction reqs using List.reverseRecOn with
  | nil => simp
  | append_singleton reqs q ih =>
    obtain ⟨hctx, hout⟩ := ih fun q' hq' => hfit q' (by simp [hq'])
    have hq := hfit q (by simp)
    have hroom : ¬ rtpSendBufMax < rtpHdrLen + q.payloadA.length + q.payloadB.length := by
      rw [SendReq.payload, List.length_append] at hq
      omega
    rw [Mealy.run_concat, hctx, hout, sendPacket, if_neg hroom]
    refine ⟨?_, ?_⟩
    · simp [UInt16.ofNat_add, UInt16.add_assoc]
    · simp [List.zipIdx_append]

/-- What `sendNals` makes of a buffer of NAL units. -/
theorem sendNals_annexB (ctx : RtpCtx) (units : List (StartCode × NalUnit))
    (hcount : units.length ≤ 256) (ts : UInt32) (auEnd : Bool) :
    sendNals ctx (annexB units) ts auEnd =
      Mealy.run (sendPacket ts) ctx
        (sendReqs ctx.maxPayload.toNat auEnd ((units.map Prod.snd).map NalUnit.bytes)) := by
  have hcollect := collectNals_annexB [] units hcount
  rw [List.nil_append, List.length_nil] at hcollect
  rw [sendNals, hcollect, List.map_map]
  rfl

/-! ### The round trip -/

/-- The calls of `rtp_h265_send_nals` for an access unit that is handed on in parts. -/
def partCalls (auEnd : Bool) : List (List (StartCode × NalUnit)) → List (List UInt8 × Bool)
  | [] => []
  | p :: ps => (annexB p, auEnd && ps.isEmpty) :: partCalls auEnd ps

/-- Successive calls with one timestamp. -/
def sendCalls (ts : UInt32) (ctx : RtpCtx) (calls : List (List UInt8 × Bool)) :
    RtpCtx × List RtpPacket :=
  Mealy.run (fun ctx call => sendNals ctx call.1 ts call.2) ctx calls

theorem maxPayload_run (ts : UInt32) (ctx : RtpCtx) (reqs : List SendReq) :
    (Mealy.run (sendPacket ts) ctx reqs).1.maxPayload = ctx.maxPayload := by
  induction reqs generalizing ctx with
  | nil => rfl
  | cons q reqs ih =>
    rw [Mealy.run_cons, ih, sendPacket]
    split_ifs <;> rfl

/-- An access unit handed on in parts goes out like one handed on whole. -/
theorem sendCalls_partCalls (ts : UInt32) (ctx : RtpCtx) (auEnd : Bool)
    {parts : List (List (StartCode × NalUnit))} (hparts : ∀ p ∈ parts, p ≠ [])
    (hcount : ∀ p ∈ parts, p.length ≤ 256) :
    sendCalls ts ctx (partCalls auEnd parts) =
      Mealy.run (sendPacket ts) ctx
        (sendReqs ctx.maxPayload.toNat auEnd ((parts.flatten.map Prod.snd).map NalUnit.bytes)) := by
  induction parts generalizing ctx with
  | nil => rfl
  | cons p ps ih =>
    have hp := sendNals_annexB ctx p (hcount p (by simp)) ts (auEnd && ps.isEmpty)
    have hrest := fun ctx' => ih ctx' (fun q hq => hparts q (by simp [hq]))
      (fun q hq => hcount q (by simp [hq]))
    simp only [sendCalls] at hrest
    rw [sendCalls, partCalls, Mealy.run_cons, hp, hrest, maxPayload_run]
    cases ps with
    | nil => simp [sendReqs]
    | cons q qs =>
      have hne : ((q :: qs).flatten.map Prod.snd).map NalUnit.bytes ≠ [] := by
        simp [hparts q (by simp)]
      rw [List.flatten_cons (l := p), List.map_append, List.map_append, sendReqs_append _ hne,
        Mealy.run_append, List.isEmpty_cons, Bool.and_false]

/-- What a receiver can rely on of the packets of an access unit. -/
structure GoodPackets (maxPayload : ℕ) (seq : UInt16) (auEnd : Bool) (units : List NalUnit)
    (packets : List RtpPacket) : Prop where
  /-- The receiver gets the NAL units back. -/
  roundTrip : depacketise (packets.map RtpPacket.payload) = units.map NalUnit.bytes
  length_le : ∀ p ∈ packets, p.payload.length ≤ maxPayload
  /-- Sequence numbers are consecutive. -/
  seq_eq : ∀ i, (hi : i < packets.length) → packets[i].seq = seq + UInt16.ofNat i
  /-- Each NAL unit is a packet or a series of fragments with one start and one end. -/
  groups : ∃ groups : List (List (List UInt8)),
    packets.map RtpPacket.payload = groups.flatten ∧
      List.Forall₂ (fun u g => UnitPackets maxPayload u.bytes g) units groups
  /-- The marker ends the access unit. -/
  marker : LastOnly auEnd (packets.map RtpPacket.marker)

/-- The packets of a list of NAL units are good. -/
theorem goodPackets_run (ctx : RtpCtx) (hmin : 4 ≤ ctx.maxPayload.toNat)
    (hmax : ctx.maxPayload.toNat ≤ 8192) {units : List NalUnit} (hplain : ∀ u ∈ units, u.Plain)
    (ts : UInt32) (auEnd : Bool) :
    GoodPackets ctx.maxPayload.toNat ctx.seq auEnd units
      (Mealy.run (sendPacket ts) ctx
        (sendReqs ctx.maxPayload.toNat auEnd (units.map NalUnit.bytes))).2 := by
  obtain ⟨hlen, hmarks, hgroups⟩ := @sendReqs_units _ auEnd hmin units
  have hdepack := @run_depacketStep_sendReqs _ auEnd hmin units hplain
  generalize sendReqs ctx.maxPayload.toNat auEnd (units.map NalUnit.bytes) = reqs at *
  have hfit : ∀ q ∈ reqs, rtpHdrLen + q.payload.length ≤ rtpSendBufMax := by
    intro q hq
    have hle := hlen q hq
    unfold rtpSendBufMax
    omega
  -- every request becomes one packet, in order
  obtain ⟨-, hout⟩ := run_sendPacket ts ctx hfit
  have hpayload : (Mealy.run (sendPacket ts) ctx reqs).2.map RtpPacket.payload =
      reqs.map SendReq.payload := by
    rw [hout, List.map_map, ← List.zipIdx_map_fst 0 reqs, List.map_map, List.zipIdx_map_fst]
    rfl
  have hmarker : (Mealy.run (sendPacket ts) ctx reqs).2.map RtpPacket.marker =
      reqs.map SendReq.marker := by
    rw [hout, List.map_map, ← List.zipIdx_map_fst 0 reqs, List.map_map, List.zipIdx_map_fst]
    rfl
  refine ⟨?_, fun p hp => ?_, fun i hi => ?_, ?_, ?_⟩
  · rw [hpayload, depacketise, hdepack]
  · obtain ⟨q, hq, heq⟩ : ∃ q ∈ reqs, q.payload = p.payload := by
      have hmem := List.mem_map_of_mem (f := RtpPacket.payload) hp
      rw [hpayload] at hmem
      exact List.mem_map.mp hmem
    rw [← heq]
    exact hlen q hq
  · simp [hout]
  · rwa [hpayload]
  · rwa [hmarker]

/-- **RTP packetisation is undone by depacketisation.** A buffer of 1 to 256 NAL units goes
out in packets that fit the limit, are numbered without a gap, come back as the same NAL
units and end, if the access unit does, in the one packet with the marker; and cutting the
buffer between NAL units into any number of calls makes no difference. -/
theorem rtp_roundTrip (units : List (StartCode × NalUnit)) (hne : units ≠ [])
    (hcount : units.length ≤ 256) (hplain : ∀ u ∈ units, u.2.Plain) (ctx : RtpCtx)
    (hmin : 4 ≤ ctx.maxPayload.toNat) (hmax : ctx.maxPayload.toNat ≤ 8192) (ts : UInt32)
    (auEnd : Bool) :
    (sendNals ctx (annexB units) ts auEnd).2 ≠ [] ∧
    GoodPackets ctx.maxPayload.toNat ctx.seq auEnd (units.map Prod.snd)
      (sendNals ctx (annexB units) ts auEnd).2 ∧
    ∀ parts : List (List (StartCode × NalUnit)), (∀ p ∈ parts, p ≠ []) → parts.flatten = units →
      sendCalls ts ctx (partCalls auEnd parts) = sendNals ctx (annexB units) ts auEnd := by
  have hplain' : ∀ u ∈ units.map Prod.snd, u.Plain := by
    intro u hu
    obtain ⟨x, hx, rfl⟩ := List.mem_map.mp hu
    exact hplain x hx
  have hgood := goodPackets_run ctx hmin hmax hplain' ts auEnd
  rw [← sendNals_annexB ctx units hcount] at hgood
  refine ⟨fun hnil => ?_, hgood, fun parts hparts hflat => ?_⟩
  · have hback := hgood.roundTrip
    rw [hnil] at hback
    exact hne (by simpa [depacketise] using hback.symm)
  · have hpart : ∀ p ∈ parts, p.length ≤ 256 := by
      intro p hp
      have hle := (List.sublist_flatten_of_mem hp).length_le
      rw [hflat] at hle
      omega
    rw [sendCalls_partCalls ts ctx auEnd hparts hpart, hflat, sendNals_annexB ctx units hcount]

/-- A parameter set and a slice. -/
def sampleUnits : List (StartCode × NalUnit) :=
  [(.long, ⟨[0x40, 0x01, 0x0C], by decide, by decide, by decide⟩),
   (.short, ⟨[0x26, 0x01, 0xAF, 0x00, 0x00, 0x02, 0x80], by decide, by decide, by decide⟩)]

/-- With the smallest limit the slice takes five fragments. -/
theorem rtp_roundTrip_sample :
    GoodPackets 4 0xFFFE true (sampleUnits.map Prod.snd)
        (sendNals ⟨7, 0xFFFE, 4⟩ (annexB sampleUnits) 90000 true).2 ∧
      (sendNals ⟨7, 0xFFFE, 4⟩ (annexB sampleUnits) 90000 true).2.length = 6 := by
  have hplain : ∀ u ∈ sampleUnits, u.2.Plain := by
    intro u hu
    simp only [sampleUnits, List.mem_cons, List.not_mem_nil, or_false] at hu
    rcases hu with rfl | rfl
    · exact (by decide : nalType 0x40 ≤ 47)
    · exact (by decide : nalType 0x26 ≤ 47)
  refine ⟨(rtp_roundTrip sampleUnits (by decide) (by decide) hplain ⟨7, 0xFFFE, 4⟩ (by decide)
    (by decide) 90000 true).2.1, ?_⟩
  decide +kernel

end Ar8030
