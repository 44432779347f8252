import Ar8030Transport.Library.Pieces
import Ar8030Transport.Wire.Chunk

/-!
# The chunker

`chunkRun`, `chunkFrame` and `chunkPart` are `common/chunker.c`: one run of chunks for a
whole frame, or for one part of a frame that is still being encoded. Lengths and indices
are 32-bit unsigned in the source, so the sums below are taken modulo `2 ^ 32` where they
can wrap; `chunkCountOf` is the one place where this matters, and `chunkCountOf_eq` says
when it does not.

The send function is a parameter with a context of its own: it answers whether the chunk
was taken. A run stops at the first chunk that is refused.
-/

namespace Ar8030

open Pieces

/-- What every chunk of a frame carries alike. -/
structure FrameInfo where
  frameSeq : UInt16
  flags : UInt8
  codec : UInt8
  framePts : UInt32
  deriving DecidableEq, Repr

/-- `(data_len + chunk_payload - 1) / chunk_payload` in 32-bit arithmetic, at least one
chunk. -/
def chunkCountOf (dataLen chunkPayload : ℕ) : ℕ :=
  let n := (dataLen + chunkPayload - 1) % 2 ^ 32 / chunkPayload
  if n = 0 then 1 else n

/-- Chunk `i` of a run: the body of the loop in `chunk_run`. -/
def runChunk (info : FrameInfo) (data : List UInt8)
    (chunkPayload firstIdx totalCount chunkCount : ℕ) (frameEnd part : Bool) (i : ℕ) : Chunk :=
  let payload := piece chunkPayload data i
  let final := frameEnd && i + 1 == chunkCount
  let sliceEnd := part && !frameEnd && i + 1 == chunkCount
  { hdr :=
      { magic := chunkMagic
        frameSeq := info.frameSeq
        chunkIdx := UInt16.ofNat (firstIdx + i)
        chunkCount := UInt16.ofNat (if final then firstIdx + chunkCount else totalCount)
        payloadLen := UInt16.ofNat payload.length
        flags :=
          if final then info.flags ||| chunkFlagFrameEnd
          else if sliceEnd then info.flags ||| chunkFlagSliceEnd else info.flags
        codec := info.codec
        framePts := info.framePts
        checksum := crc16 payload
        reserved := 0 }
    payload := payload }

/-- All chunks of a run, in order. -/
def runChunks (info : FrameInfo) (data : List UInt8)
    (chunkPayload firstIdx totalCount chunkCount : ℕ) (frameEnd part : Bool) : List Chunk :=
  (List.range chunkCount).map
    (runChunk info data chunkPayload firstIdx totalCount chunkCount frameEnd part)

/-- Hand the chunks to the send function until one is refused; how many were taken, and the
send function's context afterwards. -/
def sendChunks {σ : Type*} (send : σ → Chunk → Bool × σ) : List Chunk → σ → ℕ × σ
  | [], ctx => (0, ctx)
  | c :: cs, ctx =>
    match send ctx c with
    | (true, ctx') => ((sendChunks send cs ctx').1 + 1, (sendChunks send cs ctx').2)
    | (false, ctx') => (0, ctx')

/-- What a run that was not refused outright returns: the chunks sent, the chunks the data
needed (`*out_chunk_count`) and the send function's context. -/
structure ChunkRun (σ : Type*) where
  sent : ℕ
  outChunkCount : ℕ
  ctx : σ

/-- `chunk_run`; `none` is the return value `-1`, with nothing sent. -/
def chunkRun {σ : Type*} (info : FrameInfo) (data : List UInt8)
    (chunkPayload firstIdx totalCount : ℕ) (frameEnd part : Bool)
    (send : σ → Chunk → Bool × σ) (ctx : σ) (scratchCap : ℕ) : Option (ChunkRun σ) :=
  if chunkPayload = 0 ∨ chunkMaxPayload < chunkPayload then none
  else if scratchCap < chunkHdrSize + chunkPayload then none
  else
    let chunkCount := chunkCountOf data.length chunkPayload
    if 0xFFFF < (firstIdx + chunkCount) % 2 ^ 32 then none
    else
      let r := sendChunks send
        (runChunks info data chunkPayload firstIdx totalCount chunkCount frameEnd part) ctx
      some { sent := r.1, outChunkCount := chunkCount, ctx := r.2 }

/-- `ar8030_chunk_frame`: a whole frame, every chunk carrying the chunk count. -/
def chunkFrame {σ : Type*} (info : FrameInfo) (data : List UInt8) (chunkPayload : ℕ)
    (send : σ → Chunk → Bool × σ) (ctx : σ) (scratchCap : ℕ) : Option (ChunkRun σ) :=
  if chunkPayload = 0 ∨ chunkMaxPayload < chunkPayload then none
  else
    let chunkCount := chunkCountOf data.length chunkPayload
    if 0xFFFF < chunkCount then none
    else chunkRun info data chunkPayload 0 chunkCount false false send ctx scratchCap

/-- `ar8030_chunk_part`: one part of a streamed frame, numbered from `firstIdx` on. -/
def chunkPart {σ : Type*} (info : FrameInfo) (data : List UInt8) (chunkPayload firstIdx : ℕ)
    (last : Bool) (send : σ → Chunk → Bool × σ) (ctx : σ) (scratchCap : ℕ) :
    Option (ChunkRun σ) :=
  chunkRun info data chunkPayload firstIdx 0 last true send ctx scratchCap

/-! ### The chunk count -/

/-- Below the wrap the 32-bit count is the number of pieces needed. -/
theorem chunkCountOf_eq {dataLen chunkPayload : ℕ}
    (hwrap : dataLen + chunkPayload ≤ 2 ^ 32) :
    chunkCountOf dataLen chunkPayload = piecesNeeded dataLen chunkPayload := by
  have hmod : (dataLen + chunkPayload - 1) % 2 ^ 32 = dataLen + chunkPayload - 1 :=
    Nat.mod_eq_of_lt (by omega)
  simp only [chunkCountOf, hmod, piecesNeeded]
  generalize (dataLen + chunkPayload - 1) / chunkPayload = n
  split <;> omega

/-- Data that needs at most `0xFFFF` chunks is too short for the count to wrap. -/
theorem add_le_of_piecesNeeded_le {dataLen chunkPayload : ℕ} (hpos : 0 < chunkPayload)
    (hmax : chunkPayload ≤ chunkMaxPayload) (h : piecesNeeded dataLen chunkPayload ≤ 0xFFFF) :
    dataLen + chunkPayload ≤ 2 ^ 32 := by
  have hlen := length_le_of_piecesNeeded_le hpos h
  have hle : 0xFFFF * chunkPayload ≤ 0xFFFF * chunkMaxPayload := Nat.mul_le_mul_left _ hmax
  simp only [chunkMaxPayload] at hmax hle
  omega

/-! ### The chunks of a run -/

section Run

variable {info : FrameInfo} {data : List UInt8}
  {chunkPayload firstIdx totalCount chunkCount : ℕ} {frameEnd part : Bool}

@[simp]
theorem length_runChunks :
    (runChunks info data chunkPayload firstIdx totalCount chunkCount frameEnd part).length =
      chunkCount := by
  simp [runChunks]

theorem getElem_runChunks {i : ℕ}
    (hi : i < (runChunks info data chunkPayload firstIdx totalCount chunkCount frameEnd
      part).length) :
    (runChunks info data chunkPayload firstIdx totalCount chunkCount frameEnd part)[i] =
      runChunk info data chunkPayload firstIdx totalCount chunkCount frameEnd part i := by
  simp [runChunks]

/-- Every chunk of a run carries its own length and checksum. -/
theorem runChunk_sealed (hmax : chunkPayload ≤ chunkMaxPayload) (i : ℕ) :
    (runChunk info data chunkPayload firstIdx totalCount chunkCount frameEnd part i).Sealed := by
  have hlen := length_piece_le chunkPayload data i
  simp only [chunkMaxPayload] at hmax
  exact ⟨rfl, by simp only [runChunk, UInt16.toNat_ofNat']; omega, rfl⟩

/-- The payloads of a run concatenate to the data, when the count is the one needed. -/
theorem flatMap_payload_runChunks (hpos : 0 < chunkPayload) :
    (runChunks info data chunkPayload firstIdx totalCount (piecesNeeded data.length chunkPayload)
      frameEnd part).flatMap Chunk.payload = data := by
  rw [runChunks, List.flatMap_map]
  exact flatMap_piece_piecesNeeded hpos data

end Run

/-! ### Sending -/

section Send

variable {σ : Type*} {send : σ → Chunk → Bool × σ}

/-- The send function that takes every chunk and keeps them in order. -/
def collect (acc : List Chunk) (c : Chunk) : Bool × List Chunk := (true, acc ++ [c])

theorem sendChunks_collect (cs acc : List Chunk) :
    sendChunks collect cs acc = (cs.length, acc ++ cs) := by
  induction cs generalizing acc with
  | nil => simp [sendChunks]
  | cons c cs ih => simp [sendChunks, collect, ih]

/-- What `chunk_run` does when it does not refuse the data. -/
theorem chunkRun_eq_some {info : FrameInfo} {data : List UInt8}
    {chunkPayload firstIdx totalCount scratchCap : ℕ} {frameEnd part : Bool} {ctx : σ}
    (hpos : 0 < chunkPayload) (hmax : chunkPayload ≤ chunkMaxPayload)
    (hscratch : chunkHdrSize + chunkPayload ≤ scratchCap)
    (hcount : (firstIdx + chunkCountOf data.length chunkPayload) % 2 ^ 32 ≤ 0xFFFF) :
    chunkRun info data chunkPayload firstIdx totalCount frameEnd part send ctx scratchCap =
      some
        { sent := (sendChunks send (runChunks info data chunkPayload firstIdx totalCount
            (chunkCountOf data.length chunkPayload) frameEnd part) ctx).1
          outChunkCount := chunkCountOf data.length chunkPayload
          ctx := (sendChunks send (runChunks info data chunkPayload firstIdx totalCount
            (chunkCountOf data.length chunkPayload) frameEnd part) ctx).2 } := by
  have hpay : ¬ (chunkPayload = 0 ∨ chunkMaxPayload < chunkPayload) := by omega
  rw [chunkRun, if_neg hpay, if_neg (by omega), if_neg (by omega)]

end Send

end Ar8030
