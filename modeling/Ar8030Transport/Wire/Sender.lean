import Mathlib.Algebra.BigOperators.Group.List.Basic
import Ar8030Transport.Wire.Frame

/-!
# Frames as they are sent

A `VideoFrame` is what a sender hands to the chunker: either one whole frame, or one or
more parts in order, the last of which ends the frame. `VideoFrame.chunks` calls
`chunkFrame` or `chunkPart` for it, each part numbered on from the one before; a call that
is refused makes the frame `none`.

Frames carry what the chunker asks of its callers: chunk payloads between 1 and 65535
bytes, flags that leave the two chunk bits alone, and at most 65535 chunks. For such a
frame no call is refused, and the chunks are those of `FrameChunks`.
-/

namespace Ar8030

open Pieces

/-- The data of one call of the chunker and the chunk payload size it is given. -/
structure Part where
  data : List UInt8
  chunkPayload : ℕ
  chunkPayload_pos : 0 < chunkPayload
  chunkPayload_le : chunkPayload ≤ chunkMaxPayload

/-- How many chunks a part takes. -/
def Part.chunksNeeded (p : Part) : ℕ := piecesNeeded p.data.length p.chunkPayload

/-- The scratch buffer the callers use: one chunk of the payload size in force. -/
def Part.scratchCap (p : Part) : ℕ := chunkHdrSize + p.chunkPayload

/-- A frame is sent in one call, or part by part. -/
inductive FrameBody where
  | whole (p : Part)
  | streamed (ps : List Part) (last : Part)

namespace FrameBody

/-- The parts in order. -/
def parts : FrameBody → List Part
  | whole p => [p]
  | streamed ps last => ps ++ [last]

/-- The frame's bytes. -/
def data (b : FrameBody) : List UInt8 := b.parts.flatMap Part.data

/-- The number of chunks of the frame. -/
def chunksNeeded (b : FrameBody) : ℕ := (b.parts.map Part.chunksNeeded).sum

/-- The frame is sent part by part. -/
def isStreamed : FrameBody → Bool
  | whole _ => false
  | streamed _ _ => true

end FrameBody

/-- A video frame as a sender hands it to the chunker. -/
structure VideoFrame where
  flags : UInt8
  framePts : UInt32
  body : FrameBody
  flags_free : flags &&& (chunkFlagFrameEnd ||| chunkFlagSliceEnd) = 0
  chunksNeeded_le : body.chunksNeeded ≤ 0xFFFF

/-- What the frame's chunks carry alike when it is sent with a given sequence number. -/
def VideoFrame.info (f : VideoFrame) (frameSeq : UInt16) : FrameInfo where
  frameSeq := frameSeq
  flags := f.flags
  codec := chunkCodecH265
  framePts := f.framePts

/-- `ar8030_chunk_part` for the parts of a streamed frame, `first_idx` running on. -/
def sendParts (info : FrameInfo) : ℕ → List Part → Part → List Chunk → Option (List Chunk)
  | firstIdx, [], last, acc =>
    (chunkPart info last.data last.chunkPayload firstIdx true collect acc last.scratchCap).map
      ChunkRun.ctx
  | firstIdx, p :: ps, last, acc => do
    let r ← chunkPart info p.data p.chunkPayload firstIdx false collect acc p.scratchCap
    sendParts info (firstIdx + r.outChunkCount) ps last r.ctx

/-- The chunks the chunker emits for a frame, or `none` if it refuses. -/
def VideoFrame.chunks (f : VideoFrame) (frameSeq : UInt16) : Option (List Chunk) :=
  match f.body with
  | .whole p =>
    (chunkFrame (f.info frameSeq) p.data p.chunkPayload collect [] p.scratchCap).map ChunkRun.ctx
  | .streamed ps last => sendParts (f.info frameSeq) 0 ps last []

/-! ### No call is refused -/

theorem Part.one_le_chunksNeeded (p : Part) : 1 ≤ p.chunksNeeded := one_le_piecesNeeded _ _

/-- The 32-bit chunk count of a part that needs at most 65535 chunks. -/
theorem Part.chunkCountOf_eq (p : Part) (h : p.chunksNeeded ≤ 0xFFFF) :
    chunkCountOf p.data.length p.chunkPayload = p.chunksNeeded :=
  Ar8030.chunkCountOf_eq (add_le_of_piecesNeeded_le p.chunkPayload_pos p.chunkPayload_le h)

/-- One run with the collecting send function. -/
theorem Part.chunkRun_collect (p : Part) {info : FrameInfo} {firstIdx totalCount : ℕ}
    {frameEnd part : Bool} {acc : List Chunk} (h : firstIdx + p.chunksNeeded ≤ 0xFFFF) :
    chunkRun info p.data p.chunkPayload firstIdx totalCount frameEnd part collect acc
      p.scratchCap =
      some
        { sent := p.chunksNeeded
          outChunkCount := p.chunksNeeded
          ctx := acc ++ runChunks info p.data p.chunkPayload firstIdx totalCount p.chunksNeeded
            frameEnd part } := by
  have hcount := p.chunkCountOf_eq (by omega)
  have hle : (firstIdx + chunkCountOf p.data.length p.chunkPayload) % 2 ^ 32 ≤ 0xFFFF := by
    rw [hcount, Nat.mod_eq_of_lt (by omega)]
    exact h
  rw [Part.scratchCap, chunkRun_eq_some p.chunkPayload_pos p.chunkPayload_le le_rfl hle, hcount,
    sendChunks_collect, length_runChunks]

/-- A whole frame is one run. -/
theorem chunkFrame_eq (p : Part) {info : FrameInfo} (h : 0 + p.chunksNeeded ≤ 0xFFFF) :
    (chunkFrame info p.data p.chunkPayload collect [] p.scratchCap).map ChunkRun.ctx =
      some (runChunks info p.data p.chunkPayload 0 p.chunksNeeded p.chunksNeeded false false) := by
  have hcount := p.chunkCountOf_eq (by omega)
  have hpay : ¬ (p.chunkPayload = 0 ∨ chunkMaxPayload < p.chunkPayload) := by
    have := p.chunkPayload_pos
    have := p.chunkPayload_le
    omega
  rw [chunkFrame, if_neg hpay, hcount, if_neg (by omega), p.chunkRun_collect h]
  rfl

/-- The bytes of one run. -/
theorem Part.frameData_runChunks (p : Part) {info : FrameInfo} {firstIdx totalCount : ℕ}
    {frameEnd part : Bool} :
    frameData (runChunks info p.data p.chunkPayload firstIdx totalCount p.chunksNeeded frameEnd
      part) = p.data :=
  flatMap_payload_runChunks p.chunkPayload_pos

/-- The parts of a streamed frame from the one with chunk number `acc.length` on. -/
theorem sendParts_eq_some {info : FrameInfo} (hfree : info.FlagsFree) {ps : List Part}
    {last : Part} {acc : List Chunk} (hacc : StreamedStart info acc)
    (hlen : acc.length + ((ps ++ [last]).map Part.chunksNeeded).sum ≤ 0xFFFF) :
    ∃ cs, sendParts info acc.length ps last acc = some cs ∧ FrameChunks info true cs ∧
      frameData cs = frameData acc ++ (ps ++ [last]).flatMap Part.data := by
  induction ps generalizing acc with
  | nil =>
    have hlast : acc.length + last.chunksNeeded ≤ 0xFFFF := by simpa using hlen
    refine ⟨_, by rw [sendParts, chunkPart, last.chunkRun_collect hlast]; rfl,
      hacc.append_last last.data hfree last.chunkPayload_le last.one_le_chunksNeeded hlast, ?_⟩
    simp [frameData_append, last.frameData_runChunks]
  | cons p ps ih =>
    simp only [List.cons_append, List.map_cons, List.sum_cons] at hlen
    have hp : acc.length + p.chunksNeeded ≤ 0xFFFF := by omega
    have hnext := hacc.append_part p.data hfree p.chunkPayload_le hp
    obtain ⟨cs, hsend, hframe, hdata⟩ := ih hnext (by simpa [Nat.add_assoc] using hlen)
    refine ⟨cs, ?_, hframe, ?_⟩
    · rw [sendParts, chunkPart, p.chunkRun_collect hp]
      simpa using hsend
    · rw [hdata, frameData_append, p.frameData_runChunks]
      simp

/-- **The chunks of a frame**: the chunker refuses nothing, and what it emits is the frame. -/
theorem VideoFrame.chunks_eq_some (f : VideoFrame) (frameSeq : UInt16) :
    ∃ cs, f.chunks frameSeq = some cs ∧ FrameChunks (f.info frameSeq) f.body.isStreamed cs ∧
      frameData cs = f.body.data := by
  have hfree : (f.info frameSeq).FlagsFree := f.flags_free
  have hlen := f.chunksNeeded_le
  rw [VideoFrame.chunks]
  cases hbody : f.body with
  | whole p =>
    have hp : 0 + p.chunksNeeded ≤ 0xFFFF := by
      simpa [hbody, FrameBody.chunksNeeded, FrameBody.parts] using hlen
    refine ⟨_, chunkFrame_eq p hp, frameChunks_whole p.data hfree p.chunkPayload_le
      p.one_le_chunksNeeded (by omega), ?_⟩
    simp [p.frameData_runChunks, FrameBody.data, FrameBody.parts]
  | streamed ps last =>
    rw [hbody] at hlen
    have hlen' :
        ([] : List Chunk).length + ((ps ++ [last]).map Part.chunksNeeded).sum ≤ 0xFFFF := by
      simpa [FrameBody.chunksNeeded, FrameBody.parts] using hlen
    obtain ⟨cs, hsend, hframe, hdata⟩ :=
      sendParts_eq_some hfree (streamedStart_nil (f.info frameSeq)) hlen'
    exact ⟨cs, hsend, hframe, by simpa [frameData, FrameBody.data, FrameBody.parts] using hdata⟩

/-! ### A sequence of frames -/

/-- The chunks of frames sent one after another, `frame_seq` going up by one from frame to
frame. Each chunk is kept with the number of its frame. -/
def sendFrames (k : ℕ) (frameSeq : UInt16) : List VideoFrame → Option (List (ℕ × Chunk))
  | [] => some []
  | f :: fs => do
    let cs ← f.chunks frameSeq
    let rest ← sendFrames (k + 1) (frameSeq + 1) fs
    return cs.map (Prod.mk k) ++ rest

/-- A sequence of frames is its first frame and the rest. -/
theorem sendFrames_cons (k : ℕ) (frameSeq : UInt16) (f : VideoFrame) (fs : List VideoFrame)
    {sent : List (ℕ × Chunk)} (h : sendFrames k frameSeq (f :: fs) = some sent) :
    ∃ cs rest, FrameChunks (f.info frameSeq) f.body.isStreamed cs ∧ frameData cs = f.body.data ∧
      sendFrames (k + 1) (frameSeq + 1) fs = some rest ∧ sent = cs.map (Prod.mk k) ++ rest := by
  obtain ⟨cs, hcs, hframe, hdata⟩ := f.chunks_eq_some frameSeq
  simp only [sendFrames, hcs, Option.bind_eq_bind, Option.bind_some, Option.bind_eq_some_iff] at h
  obtain ⟨rest, hrest, hsent⟩ := h
  exact ⟨cs, rest, hframe, hdata, hrest, (Option.some.inj hsent).symm⟩

/-- Every sequence of frames can be sent. -/
theorem exists_sendFrames (k : ℕ) (frameSeq : UInt16) (fs : List VideoFrame) :
    ∃ sent, sendFrames k frameSeq fs = some sent := by
  induction fs generalizing k frameSeq with
  | nil => exact ⟨[], rfl⟩
  | cons f fs ih =>
    obtain ⟨cs, hcs, -⟩ := f.chunks_eq_some frameSeq
    obtain ⟨rest, hrest⟩ := ih (k + 1) (frameSeq + 1)
    exact ⟨cs.map (Prod.mk k) ++ rest, by simp [sendFrames, hcs, hrest]⟩

/-- Frame numbers go up from the first frame's. -/
theorem le_of_mem_sendFrames {k : ℕ} {frameSeq : UInt16} {fs : List VideoFrame}
    {sent : List (ℕ × Chunk)} (h : sendFrames k frameSeq fs = some sent) {x : ℕ × Chunk}
    (hx : x ∈ sent) : k ≤ x.1 := by
  induction fs generalizing k frameSeq sent with
  | nil =>
    obtain rfl := Option.some.inj h
    simp at hx
  | cons f fs ih =>
    obtain ⟨cs, rest, -, -, hrest, rfl⟩ := sendFrames_cons k frameSeq f fs h
    rcases List.mem_append.mp hx with hx | hx
    · obtain ⟨c, -, rfl⟩ := List.mem_map.mp hx
      exact le_rfl
    · exact Nat.le_of_succ_le (ih hrest hx)

/-- A frame sent whole in two chunks, and one streamed in two parts, the last part empty. -/
def sampleFrames : List VideoFrame :=
  [{ flags := chunkFlagIdr
     framePts := 1000
     body := .whole ⟨[0x11, 0x22, 0x33], 2, by decide, by decide⟩
     flags_free := by decide
     chunksNeeded_le := by decide },
   { flags := 0
     framePts := 17667
     body := .streamed [⟨[0x44, 0x55], 2, by decide, by decide⟩] ⟨[], 1400, by decide, by decide⟩
     flags_free := by decide
     chunksNeeded_le := by decide }]

end Ar8030
