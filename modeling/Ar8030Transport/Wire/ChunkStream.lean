import Mathlib.Tactic.SplitIfs
import Ar8030Transport.Wire.Chunk

/-!
# The chunk stream reader

`ChunkStream.read` is `ar8030_chunk_stream_read` (`common/chunk_stream.c`): it pulls one
chunk at a time out of a byte stream whose reads have no relation to chunk boundaries,
dropping whatever stands in front of the next magic and rewinding past the magic of a chunk
whose checksum fails.

The buffer is modelled by its valid bytes `buf[0..len)`, so `len` is the length of the list.
The injected `read_fn` is a `ReadSource`: the bytes still to come and the sizes the coming
reads ask for, `0` being a timeout. A read never delivers more than the room it is given,
and once the list of reads is used up there is no more data.

One turn of the `for (;;)` loop up to `fill` is `ChunkStream.advance`. A turn that goes
round again either had its checksum fail, and drops four bytes, or got bytes from a read,
and uses one up; that is the termination argument of `ChunkStream.read`.
-/

namespace Ar8030

/-- The state of `ar8030_chunk_stream_t`, with the valid bytes of its buffer. -/
structure ChunkStream where
  stopFlag : Bool
  cap : ℕ
  buf : List UInt8
  chunksRead : ℕ
  bytesConsumed : ℕ
  resyncDroppedBytes : ℕ
  checksumFails : ℕ
  deriving DecidableEq, Repr

/-- `ar8030_chunk_stream_init`. -/
def ChunkStream.init (cap : ℕ) (stopFlag : Bool) : ChunkStream where
  stopFlag := stopFlag
  cap := cap
  buf := []
  chunksRead := 0
  bytesConsumed := 0
  resyncDroppedBytes := 0
  checksumFails := 0

/-! ### The byte source -/

/-- What `read_fn` has to offer: the bytes still to come, and how many bytes each coming
read delivers at most (`0` is a timeout). -/
structure ReadSource where
  rest : List UInt8
  reads : List ℕ
  deriving DecidableEq, Repr

/-- One call of `read_fn` with room for `room` bytes. -/
def ReadSource.readFn (w : ReadSource) (room : ℕ) : List UInt8 × ReadSource :=
  match w.reads with
  | [] => ([], w)
  | n :: ns => (w.rest.take (min n room), { rest := w.rest.drop (min n room), reads := ns })

/-! ### Scanning and filling -/

/-- `memchr` over the first `n` bytes. -/
def memchr (l : List UInt8) (c : UInt8) (n : ℕ) : Option ℕ := (l.take n).findIdx? (· == c)

/-- The loop of `scan_for_magic`, standing at offset `i`. -/
def scanLoop (buf : List UInt8) (i : ℕ) : ℕ :=
  if 4 ≤ buf.length - i then
    match memchr (buf.drop i) (magicBytes.headD 0) (buf.length - i - 3) with
    | none => if 3 ≤ buf.length then buf.length - 3 else 0
    | some p =>
      if (buf.drop (i + p)).take 4 = magicBytes then i + p else scanLoop buf (i + p + 1)
  else if 3 ≤ buf.length then buf.length - 3 else 0
termination_by buf.length - i

/-- `scan_for_magic`: the number of leading bytes that are junk for certain. -/
def scanForMagic (buf : List UInt8) : ℕ := scanLoop buf 0

/-- `fill`: append what `read_fn` has right now; whether bytes were added. -/
def ChunkStream.fill (s : ChunkStream) (w : ReadSource) : Bool × ChunkStream × ReadSource :=
  if s.cap ≤ s.buf.length then (false, s, w)
  else
    match w.readFn (s.cap - s.buf.length) with
    | ([], w') => (false, s, w')
    | (b :: bytes, w') => (true, { s with buf := s.buf ++ b :: bytes }, w')

/-! ### One turn of the loop -/

/-- The resync at the top of the loop: drop everything in front of the next magic. -/
def ChunkStream.resync (s : ChunkStream) : ChunkStream :=
  if 4 ≤ s.buf.length then
    if scanForMagic s.buf = 0 then s
    else { s with
      buf := s.buf.drop (scanForMagic s.buf)
      resyncDroppedBytes := s.resyncDroppedBytes + scanForMagic s.buf }
  else s

/-- What one turn of the loop, up to `fill`, comes to. -/
inductive Advance where
  /-- Return `-1`: the payload does not fit the caller's buffer. -/
  | tooBig (s : ChunkStream)
  /-- `continue` after a checksum failure. -/
  | retry (s : ChunkStream)
  /-- Return `1` with a chunk. -/
  | chunk (s : ChunkStream) (hdr : ChunkHdr) (payload : List UInt8)
  /-- Go on to `fill`. -/
  | fill (s : ChunkStream)

/-- The header copied from the front of a buffer. -/
def frontHdr (buf : List UInt8) : ChunkHdr := ChunkHdr.ofBytes buf

/-- The length of the chunk the front header announces. -/
def frontNeed (buf : List UInt8) : ℕ := chunkHdrSize + (frontHdr buf).payloadLen.toNat

/-- The payload the front header announces. -/
def frontPayload (buf : List UInt8) : List UInt8 :=
  (buf.drop chunkHdrSize).take (frontHdr buf).payloadLen.toNat

/-- A chunk was taken off the front. -/
def ChunkStream.takeChunk (s : ChunkStream) : ChunkStream :=
  { s with
    buf := s.buf.drop (frontNeed s.buf)
    chunksRead := s.chunksRead + 1
    bytesConsumed := s.bytesConsumed + frontNeed s.buf }

/-- Only the magic of a chunk whose checksum failed is dropped. -/
def ChunkStream.dropMagic (s : ChunkStream) : ChunkStream :=
  { s with
    buf := s.buf.drop 4
    checksumFails := s.checksumFails + 1
    resyncDroppedBytes := s.resyncDroppedBytes + 4 }

/-- The body of the loop behind the resync: try to take a chunk off the front. -/
def ChunkStream.tryFront (payloadBufCap : ℕ) (s : ChunkStream) : Advance :=
  if chunkHdrSize ≤ s.buf.length ∧ frontNeed s.buf ≤ s.buf.length then
    if payloadBufCap < (frontHdr s.buf).payloadLen.toNat then .tooBig s
    else if crc16 (frontPayload s.buf) = (frontHdr s.buf).checksum then
      .chunk s.takeChunk (frontHdr s.buf) (frontPayload s.buf)
    else .retry s.dropMagic
  else .fill s

/-- One turn of the loop of `ar8030_chunk_stream_read`, up to `fill`. -/
def ChunkStream.advance (payloadBufCap : ℕ) (s : ChunkStream) : Advance :=
  s.resync.tryFront payloadBufCap

/-- What a call returns: `1` with a chunk, `0`, or `-1`. -/
inductive ReadResult where
  | chunk (hdr : ChunkHdr) (payload : List UInt8)
  | none
  | error
  deriving DecidableEq, Repr

theorem ChunkStream.length_resync_le (s : ChunkStream) : s.resync.buf.length ≤ s.buf.length := by
  rw [ChunkStream.resync]
  split_ifs <;> simp

/-- A checksum failure drops bytes from the buffer. -/
theorem ChunkStream.length_lt_of_retry {payloadBufCap : ℕ} {s s' : ChunkStream}
    (h : s.advance payloadBufCap = .retry s') : s'.buf.length < s.buf.length := by
  have hle := s.length_resync_le
  rw [ChunkStream.advance, ChunkStream.tryFront] at h
  split_ifs at h with hfront
  obtain rfl := Advance.retry.inj h
  obtain ⟨hhdr, -⟩ := hfront
  simp only [ChunkStream.dropMagic, chunkHdrSize, List.length_drop] at hhdr ⊢
  omega

/-- A read that added bytes used up one entry of the schedule. -/
theorem ChunkStream.reads_lt_of_fill {s s' : ChunkStream} {w w' : ReadSource}
    (h : s.fill w = (true, s', w')) : w'.reads.length < w.reads.length := by
  obtain ⟨rest, reads⟩ := w
  rw [ChunkStream.fill] at h
  split_ifs at h
  · simp at h
  · split at h
    · simp at h
    · rename_i b bytes w'' hread
      obtain ⟨-, rfl⟩ : _ ∧ w'' = w' := by simpa using h
      cases reads with
      | nil => simp [ReadSource.readFn] at hread
      | cons n ns =>
        obtain ⟨-, rfl⟩ : _ ∧ _ = w'' := by simpa [ReadSource.readFn] using hread
        simp

/-- `ar8030_chunk_stream_read`. -/
def ChunkStream.read (payloadBufCap : ℕ) (s : ChunkStream) (w : ReadSource) :
    ReadResult × ChunkStream × ReadSource :=
  if s.stopFlag then (.none, s, w)
  else
    match h : s.advance payloadBufCap with
    | .tooBig s' => (.error, s', w)
    | .chunk s' hdr payload => (.chunk hdr payload, s', w)
    | .retry s' =>
      have := ChunkStream.length_lt_of_retry h
      ChunkStream.read payloadBufCap s' w
    | .fill s' =>
      match h' : s'.fill w with
      | (false, s'', w') => (.none, s'', w')
      | (true, s'', w') =>
        have := ChunkStream.reads_lt_of_fill h'
        ChunkStream.read payloadBufCap s'' w'
termination_by (w.reads.length, s.buf.length)

/-- `n` successive calls of the reader: what each returned, and the state after them. -/
def ChunkStream.readCalls (payloadBufCap : ℕ) :
    ℕ → ChunkStream → ReadSource → List ReadResult × ChunkStream × ReadSource
  | 0, s, w => ([], s, w)
  | n + 1, s, w =>
    let r := s.read payloadBufCap w
    let rs := ChunkStream.readCalls payloadBufCap n r.2.1 r.2.2
    (r.1 :: rs.1, rs.2)

/-- The chunk a call returned, if it returned one. -/
def ReadResult.chunk? : ReadResult → Option (ChunkHdr × List UInt8)
  | .chunk hdr payload => some (hdr, payload)
  | .none => Option.none
  | .error => Option.none

end Ar8030
