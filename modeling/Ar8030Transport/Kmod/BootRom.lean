import Ar8030Transport.Kmod.FifoWrite
import Ar8030Transport.Wire.Chunk

/-!
# Packets for the boot ROM

While the chip runs its boot ROM an image is pushed into it in packets, each a header and a
piece of the image (`artosyn_fw_send_chunk` of `kmod/artosyn_sdio.c`). The ROM announces no
windows, so `artosyn_write_chunk` takes one for each packet as large as the packet.

A write of at most one block, or of whole blocks, goes through in one transfer. The packets are
cut so that each is such a write (`fwChunkLen_spec`), and an image arrives complete and in order
(`artosynFwSendChunk_complete`). The sizes are the vendor's; `SdioBoot.Documented` is what the
code relies on.
-/

namespace Ar8030

open Trace

/-! ### Writes to the boot ROM -/

/-- `EIO`. -/
def eio : ℤ := 5

/-- `EAGAIN`. -/
def eagain : ℤ := 11

/-- `ENOMEM`. -/
def enomem : ℤ := 12

/-- `ERESTARTSYS`. -/
def erestartsys : ℤ := 512

/-- What the kernel answers during one write: a signal in front of `tx_mutex`, the card removed
before or after the wait, and the return value of `sdio_memcpy_toio`. -/
structure WriteAnswers where
  interrupted : Bool
  removed : Bool
  removedLater : Bool
  toio : ℤ
  deriving DecidableEq

/-- A write that nothing gets in the way of. -/
def WriteAnswers.success : WriteAnswers := ⟨false, false, false, 0⟩

/-- The device in `rom_mode`: its window, the writes tried so far, and the transfers into the
FIFO. -/
structure RomDev where
  writeOffset : ℕ
  writeValidSize : ℕ
  writes : ℕ
  fifo : List (List UInt8)
  deriving DecidableEq

/-- `artosyn_write_chunk` in `rom_mode`. -/
def RomDev.writeChunk (func : SdioFunc) (a : WriteAnswers) (dev : RomDev) (buf : List UInt8) :
    ℤ × RomDev :=
  if a.removed then (-eio, dev)
  else
    let dev := { dev with writeOffset := 0, writeValidSize := buf.length % 2 ^ 32 }
    if a.removedLater then (-eio, dev)
    else
      let count := func.chunkSize buf.length (dev.writeValidSize - dev.writeOffset)
      if count = 0 then (-eagain, dev)
      else if a.toio ≠ 0 then (a.toio, dev)
      else
        (count, { dev with
          writeOffset := dev.writeValidSize
          fifo := dev.fifo ++ [buf.take count] })

/-- `artosyn_do_write`; `answers` are those of the kernel to each write in turn. -/
def RomDev.doWrite (func : SdioFunc) (answers : ℕ → WriteAnswers) (dev : RomDev)
    (buf : List UInt8) : ℤ × RomDev :=
  let a := answers dev.writes
  let dev := { dev with writes := dev.writes + 1 }
  if a.interrupted then (-erestartsys, dev) else dev.writeChunk func a buf

/-! ### Packets -/

/-- The vendor's values: `SDIO_BOOT_PKG_HEADER_SIZE`, `SDIO_BOOT_ONESHOT_MAX_SIZE`,
`SDIO_DEVICE_BLOCK_SIZE` and `ARTOSDIO_MAGIC_HEADER_1` and `_2`. -/
structure SdioBoot where
  pkgHeaderSize : ℕ
  oneshotMaxSize : ℕ
  deviceBlockSize : ℕ
  magicHeader1 : UInt8
  magicHeader2 : UInt8

/-- What the code relies on: a header of 12 bytes, blocks of 512 for the driver and the function
alike, and an upper limit of whole blocks that a single transfer and the length field can
hold. -/
structure SdioBoot.Documented (boot : SdioBoot) (func : SdioFunc) : Prop where
  pkgHeaderSize : boot.pkgHeaderSize = 12
  deviceBlockSize : boot.deviceBlockSize = 512
  curBlksize : func.curBlksize = 512
  dvd_oneshotMaxSize : 512 ∣ boot.oneshotMaxSize
  le_oneshotMaxSize : 1024 ≤ boot.oneshotMaxSize
  oneshotMaxSize_le : boot.oneshotMaxSize ≤ 65535
  oneshotMaxSize_le_transMax : boot.oneshotMaxSize ≤ func.transMax

/-- The payload of the next packet when `left` bytes of the image are left. -/
def fwChunkLen (boot : SdioBoot) (left : ℕ) : ℕ :=
  let chunk := min left (boot.oneshotMaxSize - boot.pkgHeaderSize)
  if boot.deviceBlockSize < chunk + boot.pkgHeaderSize ∧
      (chunk + boot.pkgHeaderSize) % boot.deviceBlockSize ≠ 0 then
    chunk - (chunk + boot.pkgHeaderSize) % boot.deviceBlockSize
  else chunk

/-- A packet: a header of at least 12 bytes, with a length of 16 and an address of 64 bits, and
a payload. -/
def fwPacket (boot : SdioBoot) (addr chunk : ℕ) (payload : List UInt8) : List UInt8 :=
  [boot.magicHeader1, boot.magicHeader2] ++ LittleEndian.encode 2 chunk ++
    LittleEndian.encode 8 addr ++ List.replicate (boot.pkgHeaderSize - 12) 0 ++ payload

/-- The packet that ends the download. -/
def fwDonePacket (boot : SdioBoot) : List UInt8 :=
  [boot.magicHeader1, boot.magicHeader2] ++ List.replicate (boot.pkgHeaderSize - 2) 0

section Send

variable (boot : SdioBoot) (func : SdioFunc) (answers : ℕ → WriteAnswers) (data : List UInt8)
  (destAddr len : ℕ)

/-- The loop of `artosyn_fw_send_chunk`. The address is a sum of 32 bits. -/
def fwSendLoop : ℕ → ℕ → RomDev → Option (ℤ × RomDev)
  | 0, sentTotal, dev => if sentTotal < len then none else some (0, dev)
  | fuel + 1, sentTotal, dev =>
    if sentTotal < len then
      let chunk := fwChunkLen boot (len - sentTotal)
      let r := dev.doWrite func answers (fwPacket boot ((destAddr + sentTotal) % 2 ^ 32) chunk
        ((data.drop sentTotal).take chunk))
      if r.1 ≠ (chunk + boot.pkgHeaderSize : ℕ) then some (-eio, r.2)
      else fwSendLoop fuel (sentTotal + chunk) r.2
    else some (0, dev)

/-- `artosyn_fw_send_chunk` for `len` bytes from `data` on; `alloc` is whether `kzalloc` finds
memory. -/
def artosynFwSendChunk (alloc : Bool) (fuel : ℕ) (dev : RomDev) : Option (ℤ × RomDev) :=
  if len = 0 then
    let r := dev.doWrite func answers (fwDonePacket boot)
    some (if r.1 = boot.pkgHeaderSize then 0 else -eio, r.2)
  else if alloc then fwSendLoop boot func answers data destAddr len fuel 0 dev
  else some (-enomem, dev)

end Send

/-! ### One packet -/

/-- The length in a packet's header. -/
def pktLen (pkt : List UInt8) : ℕ := fieldAt 2 2 pkt

/-- The address in a packet's header. -/
def pktAddr (pkt : List UInt8) : ℕ := fieldAt 4 8 pkt

/-- What follows the header. -/
def pktPayload (pkt : List UInt8) : List UInt8 := pkt.drop 12

section Packet

variable {boot : SdioBoot} {func : SdioFunc}

/-- **The length of a packet**: some progress, no more than is left, and a write that goes
through in one transfer. -/
theorem fwChunkLen_spec (h : boot.Documented func) {left : ℕ} (hleft : 0 < left) :
    0 < fwChunkLen boot left ∧ fwChunkLen boot left ≤ left ∧
      fwChunkLen boot left + 12 ≤ boot.oneshotMaxSize ∧
      (fwChunkLen boot left + 12 ≤ 512 ∨ 512 ∣ fwChunkLen boot left + 12) := by
  have hmin := h.le_oneshotMaxSize
  rw [fwChunkLen, h.pkgHeaderSize, h.deviceBlockSize]
  generalize hchunk : min left (boot.oneshotMaxSize - 12) = chunk
  split_ifs with hblk
  · omega
  · omega

theorem fwPacket_eq (h : boot.Documented func) (addr chunk : ℕ) (payload : List UInt8) :
    fwPacket boot addr chunk payload = boot.magicHeader1 :: boot.magicHeader2 ::
      (LittleEndian.encode 2 chunk ++ (LittleEndian.encode 8 addr ++ payload)) := by
  rw [fwPacket, h.pkgHeaderSize]
  simp only [Nat.sub_self, List.replicate_zero, List.append_nil, List.cons_append,
    List.nil_append, List.append_assoc]

theorem length_fwPacket (h : boot.Documented func) (addr chunk : ℕ) (payload : List UInt8) :
    (fwPacket boot addr chunk payload).length = payload.length + 12 := by
  rw [fwPacket_eq h]
  simp only [List.length_cons, List.length_append, LittleEndian.length_encode]
  omega

/-- The fields of a packet are read back. -/
theorem fwPacket_fields (h : boot.Documented func) {addr chunk : ℕ} (haddr : addr < 2 ^ 32)
    (hchunk : chunk < 2 ^ 16) (payload : List UInt8) :
    pktLen (fwPacket boot addr chunk payload) = chunk ∧
      pktAddr (fwPacket boot addr chunk payload) = addr ∧
      pktPayload (fwPacket boot addr chunk payload) = payload := by
  have hlen2 := LittleEndian.length_encode 2 chunk
  have hlen8 := LittleEndian.length_encode 8 addr
  have hlen : pktLen (fwPacket boot addr chunk payload) = fieldAt 0 2
      (LittleEndian.encode 2 chunk ++ (LittleEndian.encode 8 addr ++ payload)) := by
    rw [fwPacket_eq h]
    rfl
  have haddr' : pktAddr (fwPacket boot addr chunk payload) = fieldAt 2 8
      (LittleEndian.encode 2 chunk ++ (LittleEndian.encode 8 addr ++ payload)) := by
    rw [fwPacket_eq h]
    rfl
  have hpayload : pktPayload (fwPacket boot addr chunk payload) =
      (LittleEndian.encode 2 chunk ++ (LittleEndian.encode 8 addr ++ payload)).drop 10 := by
    rw [fwPacket_eq h]
    rfl
  refine ⟨?_, ?_, ?_⟩
  · rw [hlen, fieldAt_encode _ hchunk]
  · rw [haddr', fieldAt_skip _ le_rfl, fieldAt_encode _ (by omega)]
  · rw [hpayload, ← List.append_assoc, List.drop_left' (by rw [List.length_append, hlen2, hlen8])]

/-- A write of at most one block, or of whole blocks, is one transfer. -/
theorem doWrite_success (h : boot.Documented func) {answers : ℕ → WriteAnswers}
    (hanswers : ∀ n, answers n = .success) (dev : RomDev) {pkt : List UInt8}
    (hpos : 0 < pkt.length) (hmax : pkt.length ≤ boot.oneshotMaxSize)
    (hblocks : pkt.length ≤ 512 ∨ 512 ∣ pkt.length) :
    dev.doWrite func answers pkt =
      ((pkt.length : ℤ), ⟨pkt.length, pkt.length, dev.writes + 1, dev.fifo ++ [pkt]⟩) := by
  have hle := h.oneshotMaxSize_le
  have hroom : pkt.length % 2 ^ 32 = pkt.length := by omega
  have hcount : func.chunkSize pkt.length pkt.length = pkt.length := by
    rw [SdioFunc.chunkSize_eq_iff, h.curBlksize]
    exact ⟨le_rfl, hmax.trans h.oneshotMaxSize_le_transMax, hblocks⟩
  rw [RomDev.doWrite, hanswers, WriteAnswers.success]
  dsimp only
  rw [if_neg Bool.false_ne_true, RomDev.writeChunk]
  dsimp only
  rw [if_neg Bool.false_ne_true, if_neg Bool.false_ne_true, hroom, Nat.sub_zero, hcount,
    if_neg hpos.ne', if_neg (not_not.mpr rfl), List.take_length]

/-! ### The whole image -/

/-- What every packet of an image for `destAddr` is, after those in front of it. -/
structure GoodPacket (boot : SdioBoot) (func : SdioFunc) (destAddr : ℕ)
    (past : List (List UInt8)) (pkt : List UInt8) : Prop where
  payload_ne_nil : pktPayload pkt ≠ []
  pktLen_eq : pktLen pkt = (pktPayload pkt).length
  pktAddr_eq : pktAddr pkt = destAddr + (past.flatMap pktPayload).length
  length_le : pkt.length ≤ boot.oneshotMaxSize
  blocks : pkt.length ≤ 512 ∨ 512 ∣ pkt.length
  whole : func.chunkSize pkt.length pkt.length = pkt.length

/-- The next packet of an image is a good one. -/
theorem goodPacket_fwPacket (h : boot.Documented func) {destAddr chunk : ℕ}
    {past : List (List UInt8)} {payload : List UInt8} (hlen : payload.length = chunk)
    (hpos : 0 < chunk) (hmax : chunk + 12 ≤ boot.oneshotMaxSize)
    (hblocks : chunk + 12 ≤ 512 ∨ 512 ∣ chunk + 12)
    (haddr : destAddr + (past.flatMap pktPayload).length < 2 ^ 32) :
    GoodPacket boot func destAddr past
      (fwPacket boot (destAddr + (past.flatMap pktPayload).length) chunk payload) := by
  have hle := h.oneshotMaxSize_le
  obtain ⟨hpktLen, hpktAddr, hpktPayload⟩ :=
    fwPacket_fields h haddr (by omega : chunk < 2 ^ 16) payload
  have hlength := length_fwPacket h (destAddr + (past.flatMap pktPayload).length) chunk payload
  rw [hlen] at hlength
  constructor
  · rw [hpktPayload]
    exact List.ne_nil_of_length_pos (by omega)
  · rw [hpktLen, hpktPayload, hlen]
  · exact hpktAddr
  · rwa [hlength]
  · rwa [hlength]
  · rw [SdioFunc.chunkSize_eq_iff, h.curBlksize, hlength]
    exact ⟨le_rfl, hmax.trans h.oneshotMaxSize_le_transMax, hblocks⟩

/-- After the transfers `base`, the first `sentTotal` bytes of the image have been sent. -/
def Sent (boot : SdioBoot) (func : SdioFunc) (data : List UInt8) (destAddr : ℕ)
    (base : List (List UInt8)) (sentTotal : ℕ) (dev : RomDev) : Prop :=
  ∃ packets, dev.fifo = base ++ packets ∧ Always (GoodPacket boot func destAddr) packets ∧
    packets.flatMap pktPayload = data.take sentTotal

/-- One round of the loop. -/
theorem Sent.step (h : boot.Documented func) {answers : ℕ → WriteAnswers}
    (hanswers : ∀ n, answers n = .success) {data : List UInt8} {destAddr len sentTotal : ℕ}
    (hlen : len ≤ data.length) (haddr : destAddr + len < 2 ^ 32) (hlt : sentTotal < len)
    {base : List (List UInt8)} {dev : RomDev}
    (hsent : Sent boot func data destAddr base sentTotal dev) :
    ∃ dev', dev.doWrite func answers (fwPacket boot ((destAddr + sentTotal) % 2 ^ 32)
        (fwChunkLen boot (len - sentTotal))
        ((data.drop sentTotal).take (fwChunkLen boot (len - sentTotal)))) =
          (((fwChunkLen boot (len - sentTotal) + boot.pkgHeaderSize : ℕ) : ℤ), dev') ∧
      Sent boot func data destAddr base (sentTotal + fwChunkLen boot (len - sentTotal)) dev' := by
  obtain ⟨packets, hfifo, halways, hpayloads⟩ := hsent
  obtain ⟨hpos, hleft, hmax, hblocks⟩ := fwChunkLen_spec h (Nat.sub_pos_of_lt hlt)
  have hle := h.oneshotMaxSize_le
  generalize fwChunkLen boot (len - sentTotal) = chunk at hpos hleft hmax hblocks ⊢
  set payload := (data.drop sentTotal).take chunk with hpayload
  have hpayloadLen : payload.length = chunk := by
    rw [hpayload, List.length_take, List.length_drop]
    omega
  have hpast : (packets.flatMap pktPayload).length = sentTotal := by
    rw [hpayloads, List.length_take]
    omega
  -- the address is a sum of 32 bits, and the length a field of 16
  have hmod : (destAddr + sentTotal) % 2 ^ 32 = destAddr + sentTotal := by omega
  obtain ⟨-, -, hpktPayload⟩ :=
    fwPacket_fields h (by omega : destAddr + sentTotal < 2 ^ 32) (by omega : chunk < 2 ^ 16)
      payload
  have hgood : GoodPacket boot func destAddr packets
      (fwPacket boot (destAddr + sentTotal) chunk payload) := by
    rw [← hpast]
    exact goodPacket_fwPacket h hpayloadLen hpos hmax hblocks (by omega)
  have hlength := length_fwPacket h (destAddr + sentTotal) chunk payload
  rw [hpayloadLen] at hlength
  rw [hmod]
  generalize fwPacket boot (destAddr + sentTotal) chunk payload = pkt at *
  have hwrite := doWrite_success h hanswers dev (by omega) hgood.length_le hgood.blocks
  rw [hwrite, h.pkgHeaderSize, hlength]
  refine ⟨_, rfl, packets ++ [pkt], ?_, halways.concat hgood, ?_⟩
  · rw [hfifo, List.append_assoc]
  · rw [List.flatMap_append, hpayloads, List.flatMap_singleton, hpktPayload, List.take_add]

/-- From any point of the loop on, enough rounds send the rest. -/
theorem Sent.run (h : boot.Documented func) {answers : ℕ → WriteAnswers}
    (hanswers : ∀ n, answers n = .success) {data : List UInt8} {destAddr len : ℕ}
    (hlen : len ≤ data.length) (haddr : destAddr + len < 2 ^ 32) {base : List (List UInt8)} :
    ∀ (left sentTotal : ℕ) (dev : RomDev), sentTotal ≤ len → len - sentTotal ≤ left →
      Sent boot func data destAddr base sentTotal dev →
        ∃ dev', Sent boot func data destAddr base len dev' ∧
          ∀ fuel, left ≤ fuel →
            fwSendLoop boot func answers data destAddr len fuel sentTotal dev = some (0, dev') := by
  intro left
  induction left with
  | zero =>
    intro sentTotal dev hle hleft hsent
    -- all is sent, and the loop ends with any fuel
    obtain rfl : sentTotal = len := by omega
    refine ⟨dev, hsent, fun fuel _ => ?_⟩
    cases fuel <;> exact if_neg (lt_irrefl _)
  | succ left ih =>
    intro sentTotal dev hle hleft hsent
    rcases hle.eq_or_lt with rfl | hlt
    · refine ⟨dev, hsent, fun fuel _ => ?_⟩
      cases fuel <;> exact if_neg (lt_irrefl _)
    · obtain ⟨dev₁, hwrite, hsent₁⟩ := hsent.step h hanswers hlen haddr hlt
      obtain ⟨hpos, hchunk, -⟩ := fwChunkLen_spec h (Nat.sub_pos_of_lt hlt)
      obtain ⟨dev', hdone, hloop⟩ := ih _ dev₁ (by omega) (by omega) hsent₁
      refine ⟨dev', hdone, fun fuel hfuel => ?_⟩
      -- every packet carries a byte at least, so one round of fuel pays for it
      obtain ⟨fuel, rfl⟩ : ∃ n, fuel = n + 1 := ⟨fuel - 1, by omega⟩
      rw [fwSendLoop, if_pos hlt]
      dsimp only
      rw [hwrite, if_neg (not_not.mpr rfl)]
      exact hloop fuel (by omega)

/-- **An image arrives**: in packets that each are one transfer, and that carry it from the first
byte to the last. -/
theorem artosynFwSendChunk_complete (h : boot.Documented func) {answers : ℕ → WriteAnswers}
    (hanswers : ∀ n, answers n = .success) {data : List UInt8} {destAddr len : ℕ}
    (hpos : 1 ≤ len) (hlen : len ≤ data.length) (haddr : destAddr + len < 2 ^ 32)
    (dev : RomDev) :
    ∃ dev' packets, (∀ fuel, len ≤ fuel →
        artosynFwSendChunk boot func answers data destAddr len true fuel dev = some (0, dev')) ∧
      dev'.fifo = dev.fifo ++ packets ∧ packets.flatMap pktPayload = data.take len ∧
      Always (GoodPacket boot func destAddr) packets := by
  have hstart : Sent boot func data destAddr dev.fifo 0 dev :=
    ⟨[], (List.append_nil _).symm, always_nil, rfl⟩
  obtain ⟨dev', ⟨packets, hfifo, halways, hpayloads⟩, hloop⟩ :=
    Sent.run h hanswers hlen haddr len 0 dev (Nat.zero_le _) le_rfl hstart
  refine ⟨dev', packets, fun fuel hfuel => ?_, hfifo, hpayloads, halways⟩
  rw [artosynFwSendChunk, if_neg (by omega), if_pos rfl, hloop fuel hfuel]

end Packet

/-- 1500 bytes, in a packet of two blocks and one of less than a block. -/
theorem artosynFwSendChunk_complete_two :
    ∃ dev', artosynFwSendChunk ⟨12, 1024, 512, 0x53, 0x44⟩ ⟨65536, 512⟩ (fun _ => .success)
      (List.replicate 1500 7) 64 1500 true 1500 ⟨0, 0, 0, []⟩ = some (0, dev') := by
  have hlength : (List.replicate 1500 (7 : UInt8)).length = 1500 := List.length_replicate
  obtain ⟨dev', -, hsend, -⟩ := artosynFwSendChunk_complete
    (⟨rfl, rfl, rfl, by decide, by decide, by decide, by decide⟩ :
      SdioBoot.Documented ⟨12, 1024, 512, 0x53, 0x44⟩ ⟨65536, 512⟩)
    (fun _ => rfl) (by decide : 1 ≤ 1500) hlength.ge (by decide : 64 + 1500 < 2 ^ 32)
    ⟨0, 0, 0, []⟩
  exact ⟨dev', hsend 1500 le_rfl⟩

end Ar8030
