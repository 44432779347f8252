import Ar8030Transport.Library.ShiftRegister
import Ar8030Transport.Wire.ChunkStream

/-!
# Burst errors

The CRC-16 of `common/crc16.c` is a shift register of 16 bits with polynomial `0x1021`, whose
constant term is one. The payload enters it bit by bit, the most significant bit of each byte
first, so two payloads that differ only within 16 consecutive bits have different checksums.

`ar8030_chunk_stream_read` returns a payload only with the checksum in its header, from
whatever state and bytes.
-/

namespace Ar8030

open ShiftRegister

/-- The bits of a byte, most significant first. -/
def byteBits (b : UInt8) : List Bool := (List.range 8).map b.toBitVec.getMsbD

/-- The bits of a byte string, most significant bit of each byte first. -/
def bitsOf (l : List UInt8) : List Bool := l.flatMap byteBits

/-- Two byte strings of one length differ, but only within 16 consecutive bits. -/
structure BurstApart (p q : List UInt8) : Prop where
  length_eq : p.length = q.length
  ne : p ≠ q
  within : ∃ i, ∀ j, (bitsOf p).getD j false ≠ (bitsOf q).getD j false → i ≤ j ∧ j < i + 16

/-- The polynomial of the CRC-16. -/
def crc16Poly : BitVec 16 := 0x1021

/-! ### The checksum as a shift register -/

theorem toBitVec_crc16Bit (c : UInt16) : (crc16Bit c).toBitVec = shift crc16Poly c.toBitVec := by
  have hmask : (c &&& 0x8000).toBitVec =
      if c.toBitVec.getLsbD 15 then BitVec.twoPow 16 15 else 0#16 := by
    rw [UInt16.toBitVec_and, ← BitVec.and_twoPow]
    rfl
  have htop : (c &&& 0x8000 != 0) = c.toBitVec.msb := by
    rw [Bool.eq_iff_iff, bne_iff_ne, Ne, ← UInt16.toBitVec_inj, hmask, BitVec.msb_eq_getLsbD_last]
    cases c.toBitVec.getLsbD 15 <;> decide
  rw [crc16Bit, shift, htop]
  cases c.toBitVec.msb <;> rfl

theorem toBitVec_iterate_crc16Bit (n : ℕ) (c : UInt16) :
    (crc16Bit^[n] c).toBitVec = (shift crc16Poly)^[n] c.toBitVec := by
  induction n generalizing c with
  | zero => rfl
  | succ n ih =>
    rw [Function.iterate_succ_apply, Function.iterate_succ_apply, ih, toBitVec_crc16Bit]

theorem length_byteBits (b : UInt8) : (byteBits b).length = 8 := by simp [byteBits]

theorem word_byteBits (b : UInt8) : word (byteBits b) = (b.toUInt16 <<< 8).toBitVec := by
  have hall : ∀ x : BitVec 8, word (byteBits ⟨x⟩) =
      ((UInt8.ofBitVec x).toUInt16 <<< 8).toBitVec := by decide +kernel
  exact hall b.toBitVec

@[simp]
theorem bitsOf_cons (b : UInt8) (l : List UInt8) : bitsOf (b :: l) = byteBits b ++ bitsOf l := rfl

theorem toBitVec_crc16Byte (c : UInt16) (b : UInt8) :
    (crc16Byte c b).toBitVec = (byteBits b).foldl (feed crc16Poly) c.toBitVec := by
  rw [foldl_feed_eq crc16Poly (by rw [length_byteBits]; decide), length_byteBits, crc16Byte,
    toBitVec_iterate_crc16Bit, word_byteBits, UInt16.toBitVec_xor]

/-- The checksum is what the register holds after all bits. -/
theorem toBitVec_crc16 (data : List UInt8) :
    (crc16 data).toBitVec = (bitsOf data).foldl (feed crc16Poly) 0xFFFF#16 := by
  have hfold : ∀ c : UInt16, (data.foldl crc16Byte c).toBitVec =
      (bitsOf data).foldl (feed crc16Poly) c.toBitVec := by
    intro c
    induction data generalizing c with
    | nil => rfl
    | cons b data ih =>
      rw [List.foldl_cons, ih, bitsOf_cons, List.foldl_append, toBitVec_crc16Byte]
  exact hfold 0xFFFF

theorem byteBits_injective : Function.Injective byteBits := by
  intro a b h
  refine UInt8.toBitVec_inj.mp (BitVec.eq_of_getMsbD_eq fun i hi => ?_)
  exact List.map_inj_left.mp h i (List.mem_range.mpr hi)

theorem length_bitsOf (l : List UInt8) : (bitsOf l).length = 8 * l.length := by
  induction l with
  | nil => rfl
  | cons b l ih =>
    rw [bitsOf_cons, List.length_append, length_byteBits, ih, List.length_cons]
    omega

theorem bitsOf_injective {p q : List UInt8} (hlen : p.length = q.length)
    (h : bitsOf p = bitsOf q) : p = q := by
  induction p generalizing q with
  | nil => exact (List.length_eq_zero_iff.mp hlen.symm).symm
  | cons b p ih =>
    obtain ⟨c, q, rfl⟩ := List.exists_cons_of_length_eq_add_one (hlen.symm.trans List.length_cons)
    obtain ⟨hbyte, hrest⟩ := List.append_inj h (by rw [length_byteBits, length_byteBits])
    rw [byteBits_injective hbyte, ih (Nat.succ.inj hlen) hrest]

/-- Payloads that are a burst apart have different checksums. -/
theorem BurstApart.crc16_ne {p q : List UInt8} (h : BurstApart p q) : crc16 p ≠ crc16 q := by
  obtain ⟨i, hwin⟩ := h.within
  have hlen : (bitsOf p).length = (bitsOf q).length := by
    rw [length_bitsOf, length_bitsOf, h.length_eq]
  -- the constant term of the polynomial is one
  have hne := foldl_feed_ne crc16Poly (by decide) hlen (fun heq =>
    h.ne (bitsOf_injective h.length_eq heq)) hwin 0xFFFF#16
  rw [← toBitVec_crc16, ← toBitVec_crc16] at hne
  exact fun heq => hne (congrArg _ heq)

/-! ### The reader -/

theorem ChunkStream.checksum_of_advance {payloadBufCap : ℕ} {s s' : ChunkStream} {hdr : ChunkHdr}
    {payload : List UInt8} (h : s.advance payloadBufCap = .chunk s' hdr payload) :
    crc16 payload = hdr.checksum := by
  rw [ChunkStream.advance, ChunkStream.tryFront] at h
  split_ifs at h with hfront hbig hsum
  obtain ⟨-, rfl, rfl⟩ := Advance.chunk.inj h
  exact hsum

/-- What the reader returns has the checksum of its header. -/
theorem ChunkStream.checksum_of_read {payloadBufCap : ℕ} {s : ChunkStream} {w : ReadSource}
    {hdr : ChunkHdr} {payload : List UInt8}
    (h : (s.read payloadBufCap w).1 = .chunk hdr payload) : crc16 payload = hdr.checksum := by
  fun_induction ChunkStream.read payloadBufCap s w with
  | case1 s w hstop => cases h
  | case2 s w hstop s' hadv => cases h
  | case3 s w hstop s' hdr' payload' hadv =>
    obtain ⟨rfl, rfl⟩ := ReadResult.chunk.inj h
    exact ChunkStream.checksum_of_advance hadv
  | case4 s w hstop s' hadv _ ih => exact ih h
  | case5 s w hstop s' hadv s'' w' hfill => cases h
  | case6 s w hstop s' hadv s'' w' hfill _ ih => exact ih h

theorem ChunkStream.checksum_of_mem_readCalls {payloadBufCap n : ℕ} {s : ChunkStream}
    {w : ReadSource} {hdr : ChunkHdr} {payload : List UInt8}
    (h : .chunk hdr payload ∈ (s.readCalls payloadBufCap n w).1) :
    crc16 payload = hdr.checksum := by
  induction n generalizing s w with
  | zero => cases h
  | succ n ih =>
    obtain hfirst | hrest := List.mem_cons.mp h
    · exact ChunkStream.checksum_of_read hfirst.symm
    · exact ih hrest

/-- **Every burst of up to 16 bits is caught**: payloads that differ in such a burst have
different checksums, and so no run of the reader, from any state and over any bytes, returns the
changed payload under the header that was sent with the other. -/
theorem burst_caught {p q : List UInt8} (h : BurstApart p q) :
    crc16 p ≠ crc16 q ∧
      ∀ (hdr : ChunkHdr) (payloadBufCap n : ℕ) (s : ChunkStream) (w : ReadSource),
        hdr.checksum = crc16 p →
          .chunk hdr q ∉ (s.readCalls payloadBufCap n w).1 := by
  refine ⟨h.crc16_ne, fun hdr payloadBufCap n s w hsum hmem => ?_⟩
  exact h.crc16_ne (hsum.symm.trans (ChunkStream.checksum_of_mem_readCalls hmem).symm)

-- 17 bits can be missed: these differ by the polynomial itself
example : crc16 [0x01, 0x10, 0x21] = crc16 [0, 0, 0] := by decide +kernel

theorem burst_caught_one_bit :
    crc16 [1, 2] ≠ crc16 [1, 3] ∧
      ∀ (hdr : ChunkHdr) (payloadBufCap n : ℕ) (s : ChunkStream) (w : ReadSource),
        hdr.checksum = crc16 [1, 2] →
          .chunk hdr [1, 3] ∉ (s.readCalls payloadBufCap n w).1 :=
  burst_caught ⟨rfl, by decide, 0, fun j hj => ⟨Nat.zero_le j, by
    by_contra hbig
    have hp : (bitsOf [1, 2]).length = 16 := rfl
    have hq : (bitsOf [1, 3]).length = 16 := rfl
    rw [List.getD_eq_default _ _ (by omega), List.getD_eq_default _ _ (by omega)] at hj
    exact hj rfl⟩⟩

end Ar8030
