import Ar8030Transport.Library.LittleEndian

/-!
# The chunk wire format

One chunk is a packed 22-byte header followed by `payloadLen` payload bytes
(`common/ar8030_chunk.h`). Both ends are little-endian and copy the packed struct to and
from the wire with `memcpy`, so `ChunkHdr.toBytes` and `ChunkHdr.ofBytes` are the
concatenation of the fields' little-endian encodings and its inverse.

The checksum is the CRC-16 of the payload (`common/crc16.c`); it does not cover the header.
-/

namespace Ar8030

/-! ### Constants -/

/-- `AR8030_CHUNK_MAGIC`, `"AFRM"` on the wire. -/
def chunkMagic : UInt32 := 0x4D524641

/-- `AR8030_CHUNK_HDR_SIZE`. -/
def chunkHdrSize : ℕ := 22

/-- `AR8030_CHUNK_MAX_PAYLOAD`: `payloadLen` is a 16-bit field. -/
def chunkMaxPayload : ℕ := 65535

/-- `AR8030_CHUNK_FLAG_IDR`. -/
def chunkFlagIdr : UInt8 := 0x01

/-- `AR8030_CHUNK_FLAG_GDR`. -/
def chunkFlagGdr : UInt8 := 0x02

/-- `AR8030_CHUNK_FLAG_ENHANCE`. -/
def chunkFlagEnhance : UInt8 := 0x04

/-- `AR8030_CHUNK_FLAG_FRAME_END`: the chunk that ends a streamed frame. -/
def chunkFlagFrameEnd : UInt8 := 0x80

/-- `AR8030_CHUNK_FLAG_SLICE_END`: the last chunk of one part of a streamed frame. -/
def chunkFlagSliceEnd : UInt8 := 0x40

/-- `AR8030_CHUNK_CODEC_H265`. -/
def chunkCodecH265 : UInt8 := 0x01

/-- `AR8030_CHUNK_CODEC_CTRL`. -/
def chunkCodecCtrl : UInt8 := 0x03

/-- A flag byte has a bit of `mask` set, as C's `flags & mask` reads in a condition. -/
def hasFlag (flags mask : UInt8) : Bool := flags &&& mask != 0

/-! ### CRC-16 -/

/-- One bit of the CRC-16-CCITT shift register. -/
def crc16Bit (crc : UInt16) : UInt16 :=
  if crc &&& 0x8000 != 0 then (crc <<< 1) ^^^ 0x1021 else crc <<< 1

/-- One byte of the CRC-16: the byte enters at the top, then eight shifts. -/
def crc16Byte (crc : UInt16) (b : UInt8) : UInt16 :=
  crc16Bit^[8] (crc ^^^ (b.toUInt16 <<< 8))

/-- `ar8030_crc16`. -/
def crc16 (data : List UInt8) : UInt16 := data.foldl crc16Byte 0xFFFF

-- the standard check string of CRC-16-CCITT with initial value 0xFFFF
example : crc16 [0x31, 0x32, 0x33, 0x34, 0x35, 0x36, 0x37, 0x38, 0x39] = 0x29B1 := by
  decide +kernel

/-! ### The header -/

/-- `struct ar8030_chunk_hdr`. -/
structure ChunkHdr where
  magic : UInt32
  frameSeq : UInt16
  chunkIdx : UInt16
  chunkCount : UInt16
  payloadLen : UInt16
  flags : UInt8
  codec : UInt8
  framePts : UInt32
  checksum : UInt16
  reserved : UInt16
  deriving DecidableEq, Repr

/-- The packed header as it goes onto the wire. -/
def ChunkHdr.toBytes (h : ChunkHdr) : List UInt8 :=
  LittleEndian.encode 4 h.magic.toNat ++ LittleEndian.encode 2 h.frameSeq.toNat ++
    LittleEndian.encode 2 h.chunkIdx.toNat ++ LittleEndian.encode 2 h.chunkCount.toNat ++
    LittleEndian.encode 2 h.payloadLen.toNat ++ LittleEndian.encode 1 h.flags.toNat ++
    LittleEndian.encode 1 h.codec.toNat ++ LittleEndian.encode 4 h.framePts.toNat ++
    LittleEndian.encode 2 h.checksum.toNat ++ LittleEndian.encode 2 h.reserved.toNat

/-- The field of `n` bytes at offset `off` of a packed struct. -/
def fieldAt (off n : ℕ) (buf : List UInt8) : ℕ := LittleEndian.decode ((buf.drop off).take n)

/-- `memcpy(hdr, buf, AR8030_CHUNK_HDR_SIZE)`: the header at the front of a buffer. -/
def ChunkHdr.ofBytes (buf : List UInt8) : ChunkHdr where
  magic := UInt32.ofNat (fieldAt 0 4 buf)
  frameSeq := UInt16.ofNat (fieldAt 4 2 buf)
  chunkIdx := UInt16.ofNat (fieldAt 6 2 buf)
  chunkCount := UInt16.ofNat (fieldAt 8 2 buf)
  payloadLen := UInt16.ofNat (fieldAt 10 2 buf)
  flags := UInt8.ofNat (fieldAt 12 1 buf)
  codec := UInt8.ofNat (fieldAt 13 1 buf)
  framePts := UInt32.ofNat (fieldAt 14 4 buf)
  checksum := UInt16.ofNat (fieldAt 18 2 buf)
  reserved := UInt16.ofNat (fieldAt 20 2 buf)

@[simp]
theorem ChunkHdr.length_toBytes (h : ChunkHdr) : h.toBytes.length = chunkHdrSize := by
  simp [ChunkHdr.toBytes, chunkHdrSize]

/-- Fields in front of the one read are skipped. -/
theorem fieldAt_skip {off n m v : ℕ} (post : List UInt8) (h : m ≤ off) :
    fieldAt off n (LittleEndian.encode m v ++ post) = fieldAt (off - m) n post := by
  have hlen := LittleEndian.length_encode m v
  rw [fieldAt, fieldAt, List.drop_append, List.drop_of_length_le (by omega), hlen,
    List.nil_append]

/-- The field at the front is read back. -/
theorem fieldAt_encode {n v : ℕ} (post : List UInt8) (hv : v < 256 ^ n) :
    fieldAt 0 n (LittleEndian.encode n v ++ post) = v := by
  rw [fieldAt, List.drop_zero, List.take_left' (LittleEndian.length_encode n v),
    LittleEndian.decode_encode_of_lt hv]

/-- A field of a machine word is read back. -/
theorem uint8_fieldAt (x : UInt8) (post : List UInt8) :
    UInt8.ofNat (fieldAt 0 1 (LittleEndian.encode 1 x.toNat ++ post)) = x := by
  rw [fieldAt_encode post (by simpa using x.toNat_lt), UInt8.ofNat_toNat]

theorem uint16_fieldAt (x : UInt16) (post : List UInt8) :
    UInt16.ofNat (fieldAt 0 2 (LittleEndian.encode 2 x.toNat ++ post)) = x := by
  rw [fieldAt_encode post (by simpa using x.toNat_lt), UInt16.ofNat_toNat]

theorem uint32_fieldAt (x : UInt32) (post : List UInt8) :
    UInt32.ofNat (fieldAt 0 4 (LittleEndian.encode 4 x.toNat ++ post)) = x := by
  rw [fieldAt_encode post (by simpa using x.toNat_lt), UInt32.ofNat_toNat]

theorem uint64_fieldAt (x : UInt64) (post : List UInt8) :
    UInt64.ofNat (fieldAt 0 8 (LittleEndian.encode 8 x.toNat ++ post)) = x := by
  rw [fieldAt_encode post (by simpa using x.toNat_lt), UInt64.ofNat_toNat]

/-- **Header round trip**: what follows the header does not matter. -/
theorem ChunkHdr.ofBytes_toBytes_append (h : ChunkHdr) (rest : List UInt8) :
    ChunkHdr.ofBytes (h.toBytes ++ rest) = h := by
  simp (disch := decide) only [ChunkHdr.ofBytes, ChunkHdr.toBytes, List.append_assoc,
    fieldAt_skip, Nat.reduceSub, uint8_fieldAt, uint16_fieldAt, uint32_fieldAt]

/-- The four magic bytes at the start of every chunk. -/
def magicBytes : List UInt8 := LittleEndian.encode 4 chunkMagic.toNat

@[simp]
theorem length_magicBytes : magicBytes.length = 4 := rfl

/-! ### Chunks -/

/-- One chunk: its header and its payload bytes. -/
structure Chunk where
  hdr : ChunkHdr
  payload : List UInt8
  deriving DecidableEq, Repr

/-- The bytes handed to the send function: header, then payload. -/
def Chunk.bytes (c : Chunk) : List UInt8 := c.hdr.toBytes ++ c.payload

/-- What the sender guarantees of every chunk it builds: the magic, the payload's own
length and the payload's own checksum. -/
structure Chunk.Sealed (c : Chunk) : Prop where
  magic : c.hdr.magic = chunkMagic
  payloadLen : c.hdr.payloadLen.toNat = c.payload.length
  checksum : c.hdr.checksum = crc16 c.payload

theorem Chunk.Sealed.length_payload_le {c : Chunk} (h : c.Sealed) :
    c.payload.length ≤ chunkMaxPayload := by
  have hlt := c.hdr.payloadLen.toNat_lt
  rw [h.payloadLen] at hlt
  exact Nat.le_of_lt_succ hlt

@[simp]
theorem Chunk.length_bytes (c : Chunk) : c.bytes.length = chunkHdrSize + c.payload.length := by
  simp [Chunk.bytes]

end Ar8030
