import Ar8030Transport.Library.AtomicQueue
import Ar8030Transport.Library.LittleEndian
import Ar8030Transport.Library.Mealy
import Ar8030Transport.Tx.RingLayout

/-!
# The frame ring as two processes share it

waybeam writes a frame by `venc_frame_ring_begin_write`, any number of `venc_frame_ring_append` and
`venc_frame_ring_commit_write`; the sender reads with `venc_frame_ring_read` or drops everything
that waits with `flush_ring`. There is no lock. A step of this model is one access to the shared
memory, where the two go on in any order: a load or store of an index, a store of a length, and a
single byte of a `memcpy`. The private parts of a call belong to the access before or after them.

`Simulates` relates such a state to a queue of whole frames and a frame being written. Every run
is one that a bounded queue with atomic operations can show, in which a frame is put when
`write_idx` is stored and taken when `read_idx` is (`ring_linearizable`).
-/

namespace Ar8030

open LittleEndian

/-! ### Frames and memory -/

/-- `VencFrameMeta`. -/
structure VencFrameMeta where
  pts : UInt32
  codec : UInt8
  flags : UInt8
  gdrPos : UInt8
  gdrLen : UInt8
  deriving DecidableEq, Repr

/-- Its eight bytes in memory. -/
def VencFrameMeta.bytes (m : VencFrameMeta) : List UInt8 :=
  encode 4 m.pts.toNat ++ [m.codec, m.flags, m.gdrPos, m.gdrLen]

theorem VencFrameMeta.length_bytes (m : VencFrameMeta) : m.bytes.length = 8 := by
  simp [VencFrameMeta.bytes]

/-- A ring that was created or attached, with a slot size that leaves its slots apart. -/
structure RingGeometry where
  ring : VencFrameRing
  mapped : ring.Mapped
  size_le : ring.slotDataSize.toNat ≤ 2 ^ 32 - 12

namespace RingGeometry

/-- `slot_count`. -/
def slotCount (g : RingGeometry) : ℕ := g.ring.slotCount.toNat

/-- `slot_data_size`. -/
def slotDataSize (g : RingGeometry) : ℕ := g.ring.slotDataSize.toNat

/-- `(uint32_t)(i & (slot_count - 1))`. -/
def slotIndex (g : RingGeometry) (i : UInt64) : ℕ :=
  (i &&& (g.ring.slotCount - 1).toUInt64).toUInt32.toNat

/-- Byte `j` of the data of slot `i`. -/
def dataAt (g : RingGeometry) (i j : ℕ) : ℕ := g.ring.slotAt i + 4 + j

/-- `slot->length = v`. -/
def storeLength (g : RingGeometry) (mem : ℕ → UInt8) (i v : ℕ) : ℕ → UInt8 := fun a =>
  if g.ring.slotAt i ≤ a ∧ a < g.ring.slotAt i + 4 then
    (encode 4 v).getD (a - g.ring.slotAt i) 0
  else mem a

/-- `slot->length`. -/
def loadLength (g : RingGeometry) (mem : ℕ → UInt8) (i : ℕ) : ℕ :=
  decode ((List.range 4).map fun j => mem (g.ring.slotAt i + j))

end RingGeometry

/-! ### The producer -/

/-- A call of waybeam. -/
inductive ProducerCall where
  | beginWrite (frameMeta : VencFrameMeta)
  | append (data : List UInt8)
  | commitWrite
  | abortWrite
  deriving DecidableEq, Repr

/-- Where a call is. -/
inductive ProducerPc where
  | idle
  /-- `begin_write` is about to load `read_idx`. -/
  | begun (frameMeta : VencFrameMeta)
  /-- A `memcpy` is going on for a call: `todo` is still to be stored, from `addr` on. -/
  | copying (call : ProducerCall) (addr : ℕ) (todo : List UInt8)
  /-- `commit_write` is about to store the length of the slot. -/
  | storingLength
  /-- `commit_write` is about to store `write_idx`. -/
  | publishing
  deriving DecidableEq, Repr

/-- What waybeam keeps in its `venc_frame_ring_t`. -/
structure Producer where
  pc : ProducerPc
  writeOffset : ℕ
  writeActive : Bool
  deriving DecidableEq, Repr

/-! ### The consumer -/

/-- A call of the sender. -/
inductive ConsumerCall where
  | read (bufSize : ℕ)
  | flush
  deriving DecidableEq, Repr

/-- How a read ends for an entry. -/
inductive RingReadResult where
  | taken (frame : List UInt8)
  | badSlot
  | tooLong (bufSize : ℕ)
  deriving DecidableEq, Repr

/-- Where a call is. -/
inductive ConsumerPc where
  | idle
  /-- `read` is about to load `write_idx`. -/
  | reading (bufSize : ℕ)
  /-- `read` is about to load the length of the slot. -/
  | loadingLength (bufSize : ℕ)
  /-- The `memcpy` of `read` is going on: `got` of `len` bytes are loaded. -/
  | copying (len : ℕ) (got : List UInt8)
  /-- `read` is about to store `read_idx`. -/
  | releasing (result : RingReadResult)
  /-- `flush_ring` is about to load `write_idx`. -/
  | flushing
  /-- `flush_ring` is copying the meta of the oldest entry; `w` is what it has loaded. -/
  | flushCopying (w : UInt64) (got : List UInt8)
  /-- `flush_ring` is about to store `read_idx`. -/
  | flushReleasing (w : UInt64)
  deriving DecidableEq, Repr

/-! ### Both -/

/-- The shared memory, and what each of the two has. -/
structure SharedRing where
  mem : ℕ → UInt8
  writeIdx : UInt64
  readIdx : UInt64
  producer : Producer
  consumer : ConsumerPc

/-- What a call has come to. -/
inductive RingEvent where
  | began (frameMeta : VencFrameMeta)
  | full
  | appended (data : List UInt8)
  /-- The entry would not fit its slot. -/
  | oversize
  | aborted
  | published
  | empty
  | removed (result : RingReadResult)
  | flushed (n : ℕ)
  deriving DecidableEq, Repr

/-- Who goes on. A call is taken up only by a side that has none. -/
inductive RingMove where
  | produce (call : ProducerCall)
  | producer
  | consume (call : ConsumerCall)
  | consumer
  deriving DecidableEq, Repr

namespace SharedRing

/-- The start: a zeroed ring is not required. -/
def init (mem : ℕ → UInt8) : SharedRing := ⟨mem, 0, 0, ⟨.idle, 0, false⟩, .idle⟩

variable (g : RingGeometry)

/-- The slot `write_idx` stands for. -/
def writeSlot (s : SharedRing) : ℕ := g.slotIndex s.writeIdx

/-- The slot `read_idx` stands for. -/
def readSlot (s : SharedRing) : ℕ := g.slotIndex s.readIdx

/-- A call of the producer begins. -/
def produce (s : SharedRing) : ProducerCall → SharedRing × List RingEvent
  | .beginWrite m =>
    if s.producer.writeActive then (s, [])
    else ({ s with producer := { s.producer with pc := .begun m } }, [])
  | .append data =>
    if !s.producer.writeActive || data.isEmpty then (s, [])
    else if s.producer.writeOffset + data.length > g.slotDataSize then (s, [.oversize])
    else
      ({ s with
          producer :=
            { s.producer with
              pc := .copying (.append data)
                (g.dataAt (s.writeSlot g) s.producer.writeOffset) data } }, [])
  | .commitWrite =>
    if s.producer.writeActive then
      ({ s with producer := { s.producer with pc := .storingLength } }, [])
    else (s, [])
  | .abortWrite => ({ s with producer := ⟨.idle, 0, false⟩ }, [.aborted])

/-- A `memcpy` of the producer is over. -/
def endCopy (s : SharedRing) : ProducerCall → SharedRing × List RingEvent
  | .beginWrite m => ({ s with producer := ⟨.idle, vencFrameMetaSize.toNat, true⟩ }, [.began m])
  | .append data =>
    ({ s with
        producer := ⟨.idle, s.producer.writeOffset + data.length, s.producer.writeActive⟩ },
      [.appended data])
  | .commitWrite | .abortWrite => (s, [])

/-- The producer goes on by one access. -/
def producerStep (s : SharedRing) : SharedRing × List RingEvent :=
  match s.producer.pc with
  | .idle => (s, [])
  | .begun m =>
    if s.writeIdx - s.readIdx ≥ g.ring.slotCount.toUInt64 then
      ({ s with producer := { s.producer with pc := .idle } }, [.full])
    else if vencFrameMetaSize.toNat > g.slotDataSize then
      ({ s with producer := { s.producer with pc := .idle } }, [.oversize])
    else
      ({ s with
          producer :=
            { s.producer with
              pc := .copying (.beginWrite m) (g.dataAt (s.writeSlot g) 0) m.bytes } }, [])
  | .copying call addr todo =>
    match todo with
    | [] => s.endCopy call
    | b :: todo =>
      ({ s with
          mem := Function.update s.mem addr b
          producer := { s.producer with pc := .copying call (addr + 1) todo } }, [])
  | .storingLength =>
    ({ s with
        mem := g.storeLength s.mem (s.writeSlot g) s.producer.writeOffset
        producer := { s.producer with pc := .publishing } }, [])
  | .publishing =>
    ({ s with writeIdx := s.writeIdx + 1, producer := ⟨.idle, 0, false⟩ }, [.published])

/-- A call of the consumer begins. -/
def consume (s : SharedRing) : ConsumerCall → SharedRing × List RingEvent
  | .read bufSize => ({ s with consumer := .reading bufSize }, [])
  | .flush => ({ s with consumer := .flushing }, [])

/-- The consumer goes on by one access. -/
def consumerStep (s : SharedRing) : SharedRing × List RingEvent :=
  match s.consumer with
  | .idle => (s, [])
  | .reading bufSize =>
    if s.readIdx ≥ s.writeIdx then ({ s with consumer := .idle }, [.empty])
    else ({ s with consumer := .loadingLength bufSize }, [])
  | .loadingLength bufSize =>
    let len := g.loadLength s.mem (s.readSlot g)
    if len > g.slotDataSize then ({ s with consumer := .releasing .badSlot }, [])
    else if len > bufSize then ({ s with consumer := .releasing (.tooLong bufSize) }, [])
    else ({ s with consumer := .copying len [] }, [])
  | .copying len got =>
    if got.length < len then
      ({ s with
          consumer := .copying len (got ++ [s.mem (g.dataAt (s.readSlot g) got.length)]) }, [])
    else ({ s with consumer := .releasing (.taken got) }, [])
  | .releasing result =>
    ({ s with readIdx := s.readIdx + 1, consumer := .idle }, [.removed result])
  | .flushing =>
    if s.writeIdx > s.readIdx then ({ s with consumer := .flushCopying s.writeIdx [] }, [])
    else ({ s with consumer := .idle }, [.empty])
  | .flushCopying w got =>
    if got.length < vencFrameMetaSize.toNat then
      ({ s with
          consumer := .flushCopying w (got ++ [s.mem (g.dataAt (s.readSlot g) got.length)]) }, [])
    else ({ s with consumer := .flushReleasing w }, [])
  | .flushReleasing w =>
    ({ s with readIdx := w, consumer := .idle }, [.flushed (w - s.readIdx).toNat])

/-- One access of either side. -/
def step (s : SharedRing) : RingMove → SharedRing × List RingEvent
  | .produce call => if s.producer.pc = .idle then s.produce g call else (s, [])
  | .producer => s.producerStep g
  | .consume call => if s.consumer = .idle then s.consume call else (s, [])
  | .consumer => s.consumerStep g

/-- A run from the creation of the ring. -/
def run (mem : ℕ → UInt8) (moves : List RingMove) : SharedRing × List RingEvent :=
  Mealy.run (step g) (init mem) moves

end SharedRing

end Ar8030
