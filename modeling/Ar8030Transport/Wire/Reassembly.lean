import Mathlib.Tactic.SplitIfs
import Ar8030Transport.Wire.Chunk

/-!
# Reassembly

`Reassembly.feed` is `ar8030_reassembly_feed` (`common/reassembly.c`). The buffer is
modelled by the bytes collected so far, `buf[0..write_off)`, so `write_off` is the length
of the list; the capacity check adds 32-bit lengths as the source does.

`videoStep` is what `rx/main.c` does with one chunk off the stream as far as the
reassembler is concerned: only H.265 chunks are fed, and a completed frame is handed on and
followed by a reset.
-/

namespace Ar8030

/-- `ar8030_reassembly_t`, with the bytes collected so far. -/
structure Reassembly where
  buf : List UInt8
  cap : ℕ
  frameSeq : UInt16
  chunkCount : UInt16
  nextChunkIdx : UInt16
  framePts : UInt32
  flags : UInt8
  active : Bool
  done : Bool
  completedFrames : ℕ
  droppedFrames : ℕ
  lastBadSeq : UInt16
  haveLastBadSeq : Bool
  deriving DecidableEq, Repr

namespace Reassembly

/-- `ar8030_reassembly_init`. -/
def init (cap : ℕ) : Reassembly where
  buf := []
  cap := cap
  frameSeq := 0
  chunkCount := 0
  nextChunkIdx := 0
  framePts := 0
  flags := 0
  active := false
  done := false
  completedFrames := 0
  droppedFrames := 0
  lastBadSeq := 0
  haveLastBadSeq := false

/-- `ar8030_reassembly_reset`. -/
def reset (r : Reassembly) : Reassembly :=
  { r with active := false, done := false, buf := [], nextChunkIdx := 0 }

/-- `note_dropped`: count a dropped frame once per distinct sequence number. -/
def noteDropped (r : Reassembly) (frameSeq : UInt16) : Reassembly :=
  if r.haveLastBadSeq && r.lastBadSeq == frameSeq then r
  else { r with
    droppedFrames := r.droppedFrames + 1
    lastBadSeq := frameSeq
    haveLastBadSeq := true }

/-- Drop the frame and wait for the next one. -/
def refuse (r : Reassembly) (hdr : ChunkHdr) : Reassembly := (r.noteDropped hdr.frameSeq).reset

/-- The chunk does not belong to the frame being collected. -/
def isNewFrame (r : Reassembly) (hdr : ChunkHdr) : Bool := !r.active || hdr.frameSeq != r.frameSeq

/-- A streamed frame whose end never came is given up for the next one. -/
def giveUp (r : Reassembly) : Reassembly :=
  if r.active && !r.done && r.chunkCount == 0 then r.noteDropped r.frameSeq else r

/-- Start collecting the frame whose chunk 0 has come. -/
def start (r : Reassembly) (hdr : ChunkHdr) : Reassembly :=
  { r with
    active := true
    done := false
    frameSeq := hdr.frameSeq
    chunkCount := if hasFlag hdr.flags chunkFlagFrameEnd then 0 else hdr.chunkCount
    framePts := hdr.framePts
    flags := hdr.flags &&& ~~~(chunkFlagFrameEnd ||| chunkFlagSliceEnd)
    buf := []
    nextChunkIdx := 0 }

/-- The chunk is the one that ends a streamed frame. -/
def frameEnd (r : Reassembly) (hdr : ChunkHdr) : Bool :=
  r.chunkCount == 0 && hasFlag hdr.flags chunkFlagFrameEnd &&
    hdr.chunkCount.toNat == hdr.chunkIdx.toNat + 1

/-- The chunk count the chunk has to carry. -/
def wantCount (r : Reassembly) (hdr : ChunkHdr) : UInt16 :=
  if r.frameEnd hdr then hdr.chunkCount else r.chunkCount

/-- The chunk's payload is copied behind what was collected. -/
def store (r : Reassembly) (payload : List UInt8) : Reassembly :=
  { r with buf := r.buf ++ payload, nextChunkIdx := r.nextChunkIdx + 1 }

/-- The second half of `ar8030_reassembly_feed`: extend the frame being collected. -/
def extend (r : Reassembly) (hdr : ChunkHdr) (payload : List UInt8) : Bool × Reassembly :=
  if hdr.chunkIdx ≠ r.nextChunkIdx ∨ hdr.chunkCount ≠ r.wantCount hdr then (false, r.refuse hdr)
  else if r.cap < (r.buf.length + payload.length) % 2 ^ 32 then (false, r.refuse hdr)
  else if r.frameEnd hdr ∨ (r.store payload).nextChunkIdx = r.chunkCount then
    (true, { r.store payload with done := true, completedFrames := r.completedFrames + 1 })
  else (false, r.store payload)

/-- `ar8030_reassembly_feed`: whether the chunk completed a frame, and the new state. -/
def feed (r : Reassembly) (hdr : ChunkHdr) (payload : List UInt8) : Bool × Reassembly :=
  if r.isNewFrame hdr then
    if hdr.chunkIdx ≠ 0 then (false, r.giveUp.refuse hdr)
    else (r.giveUp.start hdr).extend hdr payload
  else r.extend hdr payload

/-! ### What a chunk can do -/

@[simp]
theorem cap_noteDropped (r : Reassembly) (s : UInt16) : (r.noteDropped s).cap = r.cap := by
  rw [noteDropped]
  split_ifs <;> rfl

@[simp]
theorem cap_giveUp (r : Reassembly) : r.giveUp.cap = r.cap := by
  rw [giveUp]
  split_ifs <;> simp

@[simp]
theorem cap_refuse (r : Reassembly) (hdr : ChunkHdr) : (r.refuse hdr).cap = r.cap := by
  simp [refuse, reset]

@[simp]
theorem active_refuse (r : Reassembly) (hdr : ChunkHdr) : (r.refuse hdr).active = false := rfl

@[simp]
theorem cap_extend (r : Reassembly) (hdr : ChunkHdr) (payload : List UInt8) :
    (r.extend hdr payload).2.cap = r.cap := by
  rw [extend]
  split_ifs <;> simp [store]

@[simp]
theorem cap_feed (r : Reassembly) (hdr : ChunkHdr) (payload : List UInt8) :
    (r.feed hdr payload).2.cap = r.cap := by
  rw [feed]
  split_ifs <;> simp [start]

/-- Extending the frame being collected: the chunk is refused, or it is the next one and its
payload goes behind what was collected. -/
theorem extend_cases (r : Reassembly) (hdr : ChunkHdr) (payload : List UInt8) :
    ((r.extend hdr payload).1 = false ∧ (r.extend hdr payload).2.active = false) ∨
      ((r.extend hdr payload).2.active = r.active ∧
        (r.extend hdr payload).2.frameSeq = r.frameSeq ∧
        (r.extend hdr payload).2.nextChunkIdx = hdr.chunkIdx + 1 ∧
        (r.extend hdr payload).2.buf = r.buf ++ payload) := by
  rw [extend]
  split_ifs with hbad hroom hdone
  · exact Or.inl ⟨rfl, rfl⟩
  · exact Or.inl ⟨rfl, rfl⟩
  all_goals
    rw [not_or, not_not] at hbad
    exact Or.inr ⟨rfl, rfl, by simp [store, hbad.1], rfl⟩

/-- **One chunk**, with any header: it is refused and the frame dropped, or its payload
starts a frame or goes behind what was collected of its frame. -/
theorem feed_cases (r : Reassembly) (hdr : ChunkHdr) (payload : List UInt8) :
    ((r.feed hdr payload).1 = false ∧ (r.feed hdr payload).2.active = false) ∨
      ((r.feed hdr payload).2.active = true ∧
        (r.feed hdr payload).2.frameSeq = hdr.frameSeq ∧
        (r.feed hdr payload).2.nextChunkIdx = hdr.chunkIdx + 1 ∧
        ∃ base, (r.feed hdr payload).2.buf = base ++ payload ∧
          ((base = [] ∧ hdr.chunkIdx = 0) ∨ (base = r.buf ∧ r.active = true))) := by
  rw [feed]
  split_ifs with hnew hidx
  · exact Or.inl ⟨rfl, rfl⟩
  · rcases (r.giveUp.start hdr).extend_cases hdr payload with h | ⟨hact, hseq, hnext, hbuf⟩
    · exact Or.inl h
    · exact Or.inr ⟨hact, hseq, hnext, [], hbuf, Or.inl ⟨rfl, not_not.mp hidx⟩⟩
  · rcases r.extend_cases hdr payload with h | ⟨hact, hseq, hnext, hbuf⟩
    · exact Or.inl h
    · obtain ⟨hactive, hsame⟩ : r.active = true ∧ hdr.frameSeq = r.frameSeq := by
        simpa [isNewFrame] using hnew
      exact Or.inr ⟨hact.trans hactive, hseq.trans hsame.symm, hnext, r.buf, hbuf,
        Or.inr ⟨rfl, hactive⟩⟩

end Reassembly

/-! ### Feeding the video chunks -/

/-- A completed frame as `rx/main.c` finds it in the reassembler. -/
structure Completed where
  frameSeq : UInt16
  framePts : UInt32
  flags : UInt8
  data : List UInt8
  deriving DecidableEq, Repr

/-- The frame the reassembler holds. -/
def Reassembly.completed (r : Reassembly) : Completed where
  frameSeq := r.frameSeq
  framePts := r.framePts
  flags := r.flags
  data := r.buf

/-- What `rx/main.c` does with the answer of `feed`: a completed frame is handed on and
followed by a reset. -/
def handOn : Bool × Reassembly → Reassembly × List Completed
  | (true, r) => (r.reset, [r.completed])
  | (false, r) => (r, [])

/-- One chunk off the stream, as `rx/main.c` treats it: only video reaches the
reassembler. -/
def videoStep (r : Reassembly) (c : Chunk) : Reassembly × List Completed :=
  if c.hdr.codec = chunkCodecH265 then handOn (r.feed c.hdr c.payload) else (r, [])

end Ar8030
