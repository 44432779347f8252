import Ar8030Transport.H265.Rtp
import Ar8030Transport.H265.TimingSei
import Ar8030Transport.Library.Mealy
import Ar8030Transport.Rx.Timestamps
import Ar8030Transport.Wire.Reassembly

/-!
# Handing frames on

`rxStep` is what the loop of `rx/main.c` does with one chunk off the stream. Only video is
fed to the reassembler; a slice of a streamed frame is handed on as soon as it is complete,
and the rest of the frame, with the timing SEI, when the frame is.

What a step depends on besides the chunk — the clock, the sync estimate, the sidecar's
encode time — is its `RxEnv`. What it does is a list of events: the chunk was taken, a call
of the RTP packetiser, the frame is complete. Each call carries the range of the reassembly
buffer it was made for.
-/

namespace Ar8030

/-! ### The loop -/

/-- What a chunk's step depends on besides the chunk. -/
structure RxEnv where
  /-- `clock_sync_now_us()` when a frame is complete. -/
  rxDoneUs : UInt64
  /-- `clock_sync_get()`: the offset and its uncertainty. -/
  estimate : Option (ℤ × UInt32)
  /-- `sidecar.encode_avg_us`. -/
  encodeUs : UInt32
  deriving DecidableEq, Repr

/-- The state of the loop. -/
structure RxState where
  reasm : Reassembly
  fwdOff : ℕ
  fwdVcl : Bool
  lastFrameSeq : UInt16
  haveLastFrameSeq : Bool
  framesLost : UInt32
  deriving DecidableEq, Repr

/-- The state the loop starts in. -/
def RxState.init (cap : ℕ) : RxState where
  reasm := Reassembly.init cap
  fwdOff := 0
  fwdVcl := false
  lastFrameSeq := 0
  haveLastFrameSeq := false
  framesLost := 0

/-- What a call of the packetiser was made for. -/
inductive CallKind where
  /-- `buf[off..off + len)` of the reassembly buffer. -/
  | range (off len : ℕ)
  /-- The whole frame, `buf[0..len)` before the timing SEI went in. -/
  | whole (len : ℕ)
  /-- The timing SEI on its own. -/
  | sei
  deriving DecidableEq, Repr

/-- One call of `rtp_h265_send_nals`; `rtp_h265_send_frame` is the same with `auEnd`. -/
structure RtpCall where
  kind : CallKind
  data : List UInt8
  ts : UInt32
  auEnd : Bool
  deriving DecidableEq, Repr

/-- What the loop does. -/
inductive RxEvent where
  /-- A chunk was taken, up to `writeOff` in the buffer. -/
  | taken (c : Chunk) (writeOff : ℕ)
  | call (c : RtpCall)
  /-- A frame is complete and was handed on, with this timing SEI (empty if none). -/
  | complete (frame : Completed) (sei : List UInt8) (env : RxEnv)
  deriving DecidableEq, Repr

/-- `taken` in `rx/main.c`: whether the chunk just fed was taken. -/
def isTaken (r : Reassembly) (hdr : ChunkHdr) : Bool :=
  r.active && r.frameSeq == hdr.frameSeq && r.nextChunkIdx == hdr.chunkIdx + 1

/-- The first chunk of a frame starts the forwarding anew. -/
def RxState.restart (s : RxState) (taken : Bool) (hdr : ChunkHdr) : RxState :=
  if taken && hdr.chunkIdx == 0 then { s with fwdOff := 0, fwdVcl := false } else s

/-- `buf[off..)` handed on with the marker or without. -/
def rangeCall (buf : List UInt8) (off : ℕ) (ts : UInt32) (auEnd : Bool) : RtpCall where
  kind := .range off (buf.length - off)
  data := buf.drop off
  ts := ts
  auEnd := auEnd

/-- A chunk that does not complete a frame: hand on the slice it completes, if it does. -/
def RxState.forwardSlice (s : RxState) (taken : Bool) (hdr : ChunkHdr) :
    RxState × List RxEvent :=
  if taken && s.reasm.chunkCount == 0 && hasFlag hdr.flags chunkFlagSliceEnd &&
      decide (s.fwdOff < s.reasm.buf.length) then
    ({ s with
        fwdVcl := s.fwdVcl || hasVcl (s.reasm.buf.drop s.fwdOff)
        fwdOff := s.reasm.buf.length },
      [.call (rangeCall s.reasm.buf s.fwdOff (rtpTs s.reasm.framePts) false)])
  else (s, [])

/-- Count the frames that never came whole. -/
def RxState.countLost (s : RxState) : RxState :=
  let gap := s.reasm.frameSeq - s.lastFrameSeq
  { s with
    framesLost :=
      if s.haveLastFrameSeq && decide (1 < gap) && decide (gap < 1000) then
        s.framesLost + (gap.toUInt32 - 1)
      else s.framesLost
    lastFrameSeq := s.reasm.frameSeq
    haveLastFrameSeq := true }

/-- The timing data of a complete frame. -/
def RxState.timing (s : RxState) (env : RxEnv) (offset : ℤ) (uncertainty : UInt32) :
    TimingSeiV1 where
  version := timingSeiVersion
  flags := timingSeiFlagSyncValid ||| (if env.encodeUs ≠ 0 then timingSeiFlagEncode else 0)
  frameSeq := s.reasm.frameSeq
  captureGroundUs :=
    unwrapAirPts s.reasm.framePts (env.rxDoneUs + UInt64.ofInt offset) - UInt64.ofInt offset
  rxDoneGroundUs := env.rxDoneUs
  syncUncertaintyUs := uncertainty
  encodeUs := env.encodeUs
  framesLost := s.framesLost

/-- The timing SEI of a complete frame: none without an estimate or with the option off, a
suffix SEI once a slice has gone out. -/
def RxState.buildSei (s : RxState) (timingSei : Bool) (env : RxEnv) : List UInt8 :=
  match env.estimate with
  | none => []
  | some (offset, uncertainty) =>
    if timingSei then
      if s.fwdVcl then timingSeiBuildSuffix (s.timing env offset uncertainty)
      else timingSeiBuild (s.timing env offset uncertainty)
    else []

/-- A frame of which nothing has gone out, with the SEI inserted where that is possible. -/
def RxState.wholeCall (s : RxState) (sei : List UInt8) : RtpCall where
  kind := .whole s.reasm.buf.length
  data :=
    if sei ≠ [] then (timingSeiInsert s.reasm.buf s.reasm.cap sei).getD s.reasm.buf
    else s.reasm.buf
  ts := rtpTs s.reasm.framePts
  auEnd := true

/-- The SEI on its own, with the marker if nothing is left. -/
def RxState.seiCalls (s : RxState) (sei : List UInt8) : List RtpCall :=
  if sei ≠ [] then
    [{ kind := .sei
       data := sei
       ts := rtpTs s.reasm.framePts
       auEnd := s.reasm.buf.length - s.fwdOff == 0 }]
  else []

/-- The rest of a frame that went out slice by slice. -/
def RxState.restCalls (s : RxState) : List RtpCall :=
  if s.reasm.buf.length - s.fwdOff ≠ 0 then
    [rangeCall s.reasm.buf s.fwdOff (rtpTs s.reasm.framePts) true]
  else []

/-- The calls that hand on a complete frame, or the rest of it. -/
def RxState.finishCalls (s : RxState) (sei : List UInt8) : List RtpCall :=
  if s.fwdOff = 0 then [s.wholeCall sei] else s.seiCalls sei ++ s.restCalls

/-- A chunk that completes a frame. -/
def RxState.finishFrame (s : RxState) (timingSei : Bool) (env : RxEnv) :
    RxState × List RxEvent :=
  let s := s.countLost
  let sei := s.buildSei timingSei env
  ({ s with fwdOff := 0, fwdVcl := false, reasm := s.reasm.reset },
    (s.finishCalls sei).map .call ++ [.complete s.reasm.completed sei env])

/-- One chunk off the stream. -/
def rxStep (timingSei : Bool) (s : RxState) (input : Chunk × RxEnv) : RxState × List RxEvent :=
  let c := input.1
  if c.hdr.codec = chunkCodecH265 then
    let fed := s.reasm.feed c.hdr c.payload
    let taken := isTaken fed.2 c.hdr
    let s' := RxState.restart { s with reasm := fed.2 } taken c.hdr
    let r := if fed.1 then s'.finishFrame timingSei input.2 else s'.forwardSlice taken c.hdr
    (r.1, (if taken then [.taken c fed.2.buf.length] else []) ++ r.2)
  else (s, [])

/-- A run of the loop from its start. -/
def rxRun (timingSei : Bool) (cap : ℕ) (inputs : List (Chunk × RxEnv)) : RxState × List RxEvent :=
  Mealy.run (rxStep timingSei) (RxState.init cap) inputs

end Ar8030
