import Ar8030Transport.Library.Mealy
import Ar8030Transport.Library.Trace
import Ar8030Transport.Wire.Frame

/-!
# The send loop

`txStep` is what the loop of `tx/main.c` does with one entry of the frame ring. An entry that
is a whole frame goes through `ar8030_chunk_frame`; the slices of a frame that is still being
encoded, marked `PARTIAL` but for the last, go through `ar8030_chunk_part` one by one, with
what is known of the open frame kept in `sf`.

Whether a write succeeds is decided outside: each entry comes with the outcomes of its writes.
What a step does is a list of events, `advance` being the increment of `frame_seq`; cutting a
run's events there gives what was done for each frame.

The times a frame took and the statistics made of them are left out.
-/

namespace Ar8030

open Trace

/-! ### Ring entries -/

/-- `VENC_FRAME_FLAG_IDR`. -/
def vencFrameFlagIdr : UInt8 := 0x01

/-- `VENC_FRAME_FLAG_GDR`. -/
def vencFrameFlagGdr : UInt8 := 0x02

/-- `VENC_FRAME_FLAG_ENHANCE`. -/
def vencFrameFlagEnhance : UInt8 := 0x04

/-- `VENC_FRAME_FLAG_PARTIAL`: more of the same access unit follows in the next entry. -/
def vencFrameFlagPartial : UInt8 := 0x10

/-- An entry of the frame ring: what the loop reads of its `VencFrameMeta`, and the data. -/
structure RingEntry where
  pts : UInt32
  flags : UInt8
  data : List UInt8
  deriving DecidableEq, Repr

/-- The entry is a slice with more to follow. -/
def RingEntry.isPartial (e : RingEntry) : Bool := hasFlag e.flags vencFrameFlagPartial

/-- `frame_flags_from_meta`. -/
def frameFlagsFromMeta (flags : UInt8) : UInt8 :=
  (if hasFlag flags vencFrameFlagIdr then chunkFlagIdr else 0) |||
    (if hasFlag flags vencFrameFlagGdr then chunkFlagGdr else 0) |||
    (if hasFlag flags vencFrameFlagEnhance then chunkFlagEnhance else 0)

/-- They leave the two chunk bits alone. -/
theorem frameFlagsFromMeta_free (flags : UInt8) :
    frameFlagsFromMeta flags &&& (chunkFlagFrameEnd ||| chunkFlagSliceEnd) = 0 := by
  obtain ⟨b⟩ := flags
  revert b
  decide +kernel

/-! ### The state -/

/-- The chunk payload size the sender was started with; `main` takes no other. -/
structure TxConfig where
  chunkPayload : ℕ
  chunkPayload_pos : 0 < chunkPayload
  chunkPayload_le : chunkPayload ≤ chunkMaxPayload

/-- `chunk_scratch_size`. -/
def TxConfig.scratchSize (cfg : TxConfig) : ℕ := chunkHdrSize + cfg.chunkPayload

/-- `sf`, the frame being sent slice by slice. -/
structure StreamedFrame where
  isOpen : Bool
  failed : Bool
  pts : UInt32
  flags : UInt8
  /-- `chunk_idx` of its next chunk. -/
  nextIdx : ℕ
  /-- Chunks written. -/
  sent : ℕ
  /-- Ring entries so far. -/
  entries : ℕ
  deriving DecidableEq, Repr

/-- `struct tx_stats`. -/
structure TxStats where
  framesIn : ℕ
  framesComplete : ℕ
  framesIncomplete : ℕ
  chunksSent : ℕ
  chunksFailed : ℕ
  bytesSent : ℕ
  deriving DecidableEq, Repr

/-- The state of the loop. -/
structure TxState where
  frameSeq : UInt16
  sf : StreamedFrame
  stats : TxStats
  deriving DecidableEq, Repr

/-- The state the loop starts in. -/
def TxState.init : TxState where
  frameSeq := 0
  sf := ⟨false, false, 0, 0, 0, 0, 0⟩
  stats := ⟨0, 0, 0, 0, 0, 0⟩

/-- What the loop does. -/
inductive TxEvent where
  /-- An entry of the frame with the current `frame_seq`. -/
  | entry (e : RingEntry)
  /-- A chunk was written to the socket. -/
  | wrote (c : Chunk)
  /-- A chunk could not be written. -/
  | failed (c : Chunk)
  /-- The chunker refused an entry. -/
  | refused
  /-- `frame_seq++`. -/
  | advance
  deriving DecidableEq, Repr

/-! ### Writing chunks -/

/-- What the send function works on: the outcomes of the writes to come, what was done so
far, and the statistics. -/
structure SendCtx where
  outcomes : List Bool
  log : List TxEvent
  stats : TxStats

/-- `chunk_send_to_socket`; with no outcome left a write succeeds. -/
def chunkSendToSocket (ctx : SendCtx) (c : Chunk) : Bool × SendCtx :=
  if ctx.outcomes.headD true then
    (true,
      { outcomes := ctx.outcomes.tail
        log := ctx.log ++ [.wrote c]
        stats := { ctx.stats with
          chunksSent := ctx.stats.chunksSent + 1
          bytesSent := ctx.stats.bytesSent + c.bytes.length } })
  else
    (false,
      { outcomes := ctx.outcomes.tail
        log := ctx.log ++ [.failed c]
        stats := { ctx.stats with chunksFailed := ctx.stats.chunksFailed + 1 } })

/-- What came of a call of the chunker: what was done, and the statistics. -/
def callLog (call : Option (ChunkRun SendCtx)) : List TxEvent :=
  match call with
  | none => [.refused]
  | some r => r.ctx.log

/-- The statistics after a call of the chunker. -/
def callStats (stats : TxStats) (call : Option (ChunkRun SendCtx)) : TxStats :=
  match call with
  | none => stats
  | some r => r.ctx.stats

/-! ### The loop -/

/-- An entry with another pts than the open frame's: the open one has lost its end. -/
def TxState.abandons (s : TxState) (e : RingEntry) : Bool := s.sf.isOpen && e.pts != s.sf.pts

/-- Give up the open frame if the entry is not one of its own. -/
def TxState.abandon (s : TxState) (e : RingEntry) : TxState :=
  if s.abandons e then
    { frameSeq := s.frameSeq + 1
      sf := { s.sf with isOpen := false }
      stats := { s.stats with framesIncomplete := s.stats.framesIncomplete + 1 } }
  else s

/-- The first slice of a frame opens it. -/
def TxState.openFrame (s : TxState) (e : RingEntry) : TxState :=
  if s.sf.isOpen then s
  else
    { s with
      sf := ⟨true, false, e.pts, frameFlagsFromMeta e.flags, 0, 0, 0⟩
      stats := { s.stats with framesIn := s.stats.framesIn + 1 } }

/-- What the chunks of the entry's frame carry alike. -/
def TxState.partInfo (s : TxState) (e : RingEntry) : FrameInfo where
  frameSeq := s.frameSeq
  flags := s.sf.flags
  codec := chunkCodecH265
  framePts := e.pts

/-- The call of `ar8030_chunk_part` for a slice of the open frame. -/
def TxState.partCall (cfg : TxConfig) (s : TxState) (e : RingEntry) (outcomes : List Bool) :
    Option (ChunkRun SendCtx) :=
  chunkPart (s.partInfo e) e.data cfg.chunkPayload s.sf.nextIdx (!e.isPartial) chunkSendToSocket
    ⟨outcomes, [], s.stats⟩ cfg.scratchSize

/-- `sf` after that call. -/
def StreamedFrame.afterCall (sf : StreamedFrame) : Option (ChunkRun SendCtx) → StreamedFrame
  | none => { sf with failed := true, entries := sf.entries + 1 }
  | some r =>
    { sf with
      failed := sf.failed || r.sent != r.outChunkCount
      sent := sf.sent + r.sent
      nextIdx := sf.nextIdx + r.outChunkCount
      entries := sf.entries + 1 }

/-- A slice of the open frame. After a failed chunk the rest of the frame is of no use. -/
def TxState.sendPart (cfg : TxConfig) (s : TxState) (e : RingEntry) (outcomes : List Bool) :
    TxState × List TxEvent :=
  if s.sf.failed then ({ s with sf := { s.sf with entries := s.sf.entries + 1 } }, [])
  else
    ({ s with
        sf := s.sf.afterCall (s.partCall cfg e outcomes)
        stats := callStats s.stats (s.partCall cfg e outcomes) },
      callLog (s.partCall cfg e outcomes))

/-- The end of a frame: count it, and move on to the next `frame_seq`. -/
def TxState.finish (s : TxState) (sent : Option ℕ) (expectedChunks : ℕ) : TxState :=
  { s with
    frameSeq := s.frameSeq + 1
    stats :=
      if sent = some expectedChunks then
        { s.stats with framesComplete := s.stats.framesComplete + 1 }
      else { s.stats with framesIncomplete := s.stats.framesIncomplete + 1 } }

/-- The call of `ar8030_chunk_frame` for a whole frame. -/
def TxState.frameCall (cfg : TxConfig) (s : TxState) (e : RingEntry) (outcomes : List Bool) :
    Option (ChunkRun SendCtx) :=
  chunkFrame ⟨s.frameSeq, frameFlagsFromMeta e.flags, chunkCodecH265, e.pts⟩ e.data
    cfg.chunkPayload chunkSendToSocket
    ⟨outcomes, [], { s.stats with framesIn := s.stats.framesIn + 1 }⟩ cfg.scratchSize

/-- An entry that is a whole frame. -/
def TxState.sendWhole (cfg : TxConfig) (s : TxState) (e : RingEntry) (outcomes : List Bool) :
    TxState × List TxEvent :=
  let call := s.frameCall cfg e outcomes
  (TxState.finish
      { s with stats := callStats { s.stats with framesIn := s.stats.framesIn + 1 } call }
      (call.map ChunkRun.sent) ((call.map ChunkRun.outChunkCount).getD 0),
    callLog call ++ [.advance])

/-- A slice; the last one, which is not `PARTIAL`, ends the frame. -/
def TxState.sendSlice (cfg : TxConfig) (s : TxState) (e : RingEntry) (outcomes : List Bool) :
    TxState × List TxEvent :=
  let r := (s.openFrame e).sendPart cfg e outcomes
  if e.isPartial then r
  else
    (TxState.finish { r.1 with sf := { r.1.sf with isOpen := false } } (some r.1.sf.sent)
        r.1.sf.nextIdx,
      r.2 ++ [.advance])

/-- One entry off the ring, with the outcomes of its writes. -/
def txStep (cfg : TxConfig) (s : TxState) (input : RingEntry × List Bool) :
    TxState × List TxEvent :=
  let e := input.1
  let s' := s.abandon e
  let r := if e.isPartial || s'.sf.isOpen then s'.sendSlice cfg e input.2
    else s'.sendWhole cfg e input.2
  (r.1, (if s.abandons e then [.advance] else []) ++ .entry e :: r.2)

/-- A run of the loop from its start. -/
def txRun (cfg : TxConfig) (inputs : List (RingEntry × List Bool)) : TxState × List TxEvent :=
  Mealy.run (txStep cfg) TxState.init inputs

/-! ### What was done for a frame -/

/-- The frame number moves on. -/
def TxEvent.isAdvance : TxEvent → Bool
  | .advance => true
  | _ => false

/-- The events of each frame `frame_seq` has moved past, and those of the current one. -/
def frameLogs (tr : List TxEvent) : List (List TxEvent) × List TxEvent :=
  cutAt TxEvent.isAdvance tr

/-- The entry an event is. -/
def TxEvent.entry? : TxEvent → Option RingEntry
  | .entry e => some e
  | _ => none

/-- The entries of a frame, in order. -/
def entriesOf (seg : List TxEvent) : List RingEntry := seg.filterMap TxEvent.entry?

/-- The chunk an event wrote. -/
def TxEvent.wrote? : TxEvent → Option Chunk
  | .wrote c => some c
  | _ => none

/-- The chunks written of a frame, in order. -/
def writtenOf (seg : List TxEvent) : List Chunk := seg.filterMap TxEvent.wrote?

/-- The bytes of a frame's entries. -/
def entryData (seg : List TxEvent) : List UInt8 := (entriesOf seg).flatMap RingEntry.data

/-- A chunk failed, or an entry was refused. -/
def TxEvent.isFailure : TxEvent → Bool
  | .failed _ => true
  | .refused => true
  | _ => false

end Ar8030
