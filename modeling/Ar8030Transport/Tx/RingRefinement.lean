import Ar8030Transport.Tx.SharedRing

/-!
# The shared frame ring is a queue

`queueEvents` reads the events of a run of the shared ring as operations of a queue of whole frames.
`Simulates` says what the memory, the indices and the two sides hold of the queue: the entries
between `read_idx` and `write_idx` are its frames, the slot of `write_idx` has what is written so
far of the next one, and the consumer works on the first.

The two never touch the same bytes at the same time (`ring_race_free`), so that nothing is read
that was only half written.
-/

namespace Ar8030

open LittleEndian

/-! ### Addresses -/

theorem isPowerOfTwo_of_isPowerOf2 {v : UInt32} (h : isPowerOf2 v = true) :
    ∃ k, v.toNat = 2 ^ k := by
  rw [isPowerOf2, Bool.and_eq_true, decide_eq_true_eq, beq_iff_eq] at h
  obtain ⟨hpos, hand⟩ := h
  have hnat : 0 < v.toNat := UInt32.lt_iff_toNat_lt.mp hpos
  have hpred : (v - 1).toNat = v.toNat - 1 := by
    have hle : (1 : UInt32) ≤ v := UInt32.le_iff_toNat_le.mpr hnat
    exact UInt32.toNat_sub_of_le _ _ hle
  have hzero : v.toNat &&& (v.toNat - 1) = 0 := by
    rw [← hpred, ← UInt32.toNat_and, hand]
    rfl
  exact (Nat.and_sub_one_eq_zero_iff_isPowerOfTwo hnat.ne').mp hzero

namespace RingGeometry

variable (g : RingGeometry)

theorem slotCount_pos : 0 < g.slotCount := g.mapped.checked.slotCount_pos

/-- The mask is a remainder. -/
theorem slotIndex_eq (i : UInt64) : g.slotIndex i = i.toNat % g.slotCount := by
  obtain ⟨k, hk⟩ := isPowerOfTwo_of_isPowerOf2 g.mapped.checked.isPowerOf2_slotCount
  have hpos : 0 < g.ring.slotCount.toNat := g.slotCount_pos
  have hlt : 2 ^ k < 2 ^ 32 := hk ▸ g.ring.slotCount.toNat_lt
  have hpred : (g.ring.slotCount - 1).toNat = 2 ^ k - 1 := by
    have hle : (1 : UInt32) ≤ g.ring.slotCount := UInt32.le_iff_toNat_le.mpr hpos
    rw [UInt32.toNat_sub_of_le _ _ hle, hk]
    rfl
  have hmod : i.toNat % 2 ^ k < 2 ^ k := Nat.mod_lt _ (Nat.two_pow_pos k)
  rw [slotIndex, UInt64.toNat_toUInt32, UInt64.toNat_and, UInt32.toNat_toUInt64, hpred,
    Nat.and_two_pow_sub_one_eq_mod, slotCount, hk, Nat.mod_eq_of_lt (hmod.trans hlt)]

theorem le_slotStride : g.slotDataSize + 4 ≤ g.ring.slotStride.toNat := by
  rw [g.mapped.checked.slotStride_eq]
  exact le_calcSlotStride g.size_le

variable {g} {i i' j j' : ℕ}

/-- Slots are apart. -/
theorem slotAt_lt (h : i < i') : g.ring.slotAt i + 4 + g.slotDataSize ≤ g.ring.slotAt i' :=
  VencFrameRing.slotEnd_le_slotAt g.le_slotStride h

theorem dataAt_ne (hi : i ≠ i') (hj : j < g.slotDataSize) (hj' : j' < g.slotDataSize) :
    g.dataAt i j ≠ g.dataAt i' j' := by
  rw [dataAt, dataAt]
  rcases Nat.lt_or_gt_of_ne hi with h | h
  · have := slotAt_lt (g := g) h
    omega
  · have := slotAt_lt (g := g) h
    omega

/-- No byte of data is a byte of a length. -/
theorem dataAt_not_length (hj : j < g.slotDataSize) :
    ¬(g.ring.slotAt i' ≤ g.dataAt i j ∧ g.dataAt i j < g.ring.slotAt i' + 4) := by
  rw [dataAt]
  rcases Nat.lt_trichotomy i i' with h | rfl | h
  · have := slotAt_lt (g := g) h
    omega
  · omega
  · have := slotAt_lt (g := g) h
    omega

/-! ### Loads and stores -/

variable {mem : ℕ → UInt8} {b : UInt8} {v : ℕ}

theorem loadLength_congr {mem' : ℕ → UInt8}
    (h : ∀ k < 4, mem' (g.ring.slotAt i + k) = mem (g.ring.slotAt i + k)) :
    g.loadLength mem' i = g.loadLength mem i := by
  rw [loadLength, loadLength]
  exact congrArg decode (List.map_congr_left fun k hk => h k (List.mem_range.mp hk))

theorem loadLength_update (hj : j < g.slotDataSize) :
    g.loadLength (Function.update mem (g.dataAt i' j) b) i = g.loadLength mem i := by
  refine loadLength_congr fun k hk => Function.update_of_ne ?_ _ _
  intro heq
  have hdata := @dataAt_not_length g i' i j hj
  omega

theorem loadLength_storeLength_ne (hi : i ≠ i') :
    g.loadLength (g.storeLength mem i' v) i = g.loadLength mem i := by
  refine loadLength_congr fun k hk => if_neg ?_
  rcases Nat.lt_or_gt_of_ne hi with h | h
  · have := slotAt_lt (g := g) h
    omega
  · have := slotAt_lt (g := g) h
    omega

theorem loadLength_storeLength (hv : v < 2 ^ 32) :
    g.loadLength (g.storeLength mem i v) i = v := by
  have hbytes : (List.range 4).map (fun j => g.storeLength mem i v (g.ring.slotAt i + j)) =
      encode 4 v := by
    refine List.ext_getElem (by simp) fun k hk hk' => ?_
    have hlt : k < 4 := by simpa using hk
    have hmem : g.ring.slotAt i ≤ g.ring.slotAt i + k ∧
        g.ring.slotAt i + k < g.ring.slotAt i + 4 := ⟨by omega, by omega⟩
    rw [List.getElem_map, List.getElem_range, storeLength, if_pos hmem, Nat.add_sub_cancel_left,
      List.getD_eq_getElem?_getD, List.getElem?_eq_getElem hk', Option.getD_some]
  rw [loadLength, hbytes, decode_encode_of_lt hv]

end RingGeometry

/-! ### What a slot holds -/

section Slots

variable (g : RingGeometry)

/-- The data of a slot begins with these bytes. -/
def SlotData (mem : ℕ → UInt8) (i : ℕ) (bytes : List UInt8) : Prop :=
  ∀ j (hj : j < bytes.length), mem (g.dataAt i j) = bytes[j]

/-- A slot holds a frame. -/
structure SlotHolds (mem : ℕ → UInt8) (i : ℕ) (frame : List UInt8) : Prop where
  length_le : frame.length ≤ g.slotDataSize
  length_eq : g.loadLength mem i = frame.length
  data : SlotData g mem i frame

variable {g} {mem : ℕ → UInt8} {i i' j v : ℕ} {b : UInt8} {bytes : List UInt8}

theorem SlotData.update_ne (h : SlotData g mem i bytes) (hlen : bytes.length ≤ g.slotDataSize)
    (hi : i ≠ i') (hj : j < g.slotDataSize) :
    SlotData g (Function.update mem (g.dataAt i' j) b) i bytes := by
  intro k hk
  rw [Function.update_of_ne (RingGeometry.dataAt_ne hi (hk.trans_le hlen) hj)]
  exact h k hk

/-- One more byte. -/
theorem SlotData.concat (h : SlotData g mem i bytes) :
    SlotData g (Function.update mem (g.dataAt i bytes.length) b) i (bytes ++ [b]) := by
  intro k hk
  rw [List.length_append, List.length_singleton] at hk
  rcases Nat.lt_succ_iff_lt_or_eq.mp hk with hlt | rfl
  · have hne : g.dataAt i k ≠ g.dataAt i bytes.length := by
      rw [RingGeometry.dataAt, RingGeometry.dataAt]
      omega
    rw [Function.update_of_ne hne, List.getElem_append_left hlt]
    exact h k hlt
  · rw [Function.update_self, List.getElem_concat_length rfl]

theorem SlotData.storeLength (h : SlotData g mem i bytes)
    (hlen : bytes.length ≤ g.slotDataSize) : SlotData g (g.storeLength mem i' v) i bytes := by
  intro k hk
  rw [RingGeometry.storeLength, if_neg (RingGeometry.dataAt_not_length (hk.trans_le hlen))]
  exact h k hk

theorem SlotHolds.update_ne (h : SlotHolds g mem i bytes) (hi : i ≠ i')
    (hj : j < g.slotDataSize) :
    SlotHolds g (Function.update mem (g.dataAt i' j) b) i bytes :=
  ⟨h.length_le, (RingGeometry.loadLength_update hj).trans h.length_eq,
    h.data.update_ne h.length_le hi hj⟩

theorem SlotHolds.storeLength_ne (h : SlotHolds g mem i bytes) (hi : i ≠ i') :
    SlotHolds g (g.storeLength mem i' v) i bytes :=
  ⟨h.length_le, (RingGeometry.loadLength_storeLength_ne hi).trans h.length_eq,
    h.data.storeLength h.length_le⟩

/-- The length is stored last. -/
theorem SlotData.holds (h : SlotData g mem i bytes) (hlen : bytes.length ≤ g.slotDataSize) :
    SlotHolds g (g.storeLength mem i bytes.length) i bytes := by
  have hlt : bytes.length < 2 ^ 32 := hlen.trans_lt g.ring.slotDataSize.toNat_lt
  exact ⟨hlen, RingGeometry.loadLength_storeLength hlt, h.storeLength hlen⟩

/-- The next byte of a frame that is being copied. -/
theorem SlotHolds.take_concat (h : SlotHolds g mem i bytes) {k : ℕ} (hk : k < bytes.length) :
    bytes.take k ++ [mem (g.dataAt i k)] = bytes.take (k + 1) := by
  rw [h.data k hk, List.take_append_getElem hk]

end Slots

/-! ### Operations of the queue -/

/-- The frame that is being written, after an event, and the operations the event is. -/
def stageStep (staged : Option (List UInt8)) :
    RingEvent → Option (List UInt8) × List (AtomicQueue.Event (List UInt8))
  | .began m => (some m.bytes, [])
  | .full => (staged, [.full])
  | .appended data => (staged.map (· ++ data), [])
  | .oversize => (staged, [])
  | .aborted => (none, [])
  | .published => (none, staged.toList.map .put)
  | .empty => (staged, [.empty])
  | .removed (.taken frame) => (staged, [.take frame])
  | .removed .badSlot => (staged, [.discard fun _ => false])
  | .removed (.tooLong bufSize) => (staged, [.discard fun frame => bufSize < frame.length])
  | .flushed n => (staged, List.replicate n (.discard fun _ => true))

/-- The operations of a run. A slot that cannot be right would be removed by one that no queue can
show. -/
def queueEvents (events : List RingEvent) : List (AtomicQueue.Event (List UInt8)) :=
  (Mealy.run stageStep none events).2

/-- What the producer has written of the frame `staged`, in the slot of `write_idx`. While it
writes there is a slot free. -/
inductive ProducerOk (g : RingGeometry) (mem : ℕ → UInt8) (slot : ℕ) (free : Prop) :
    Producer → Option (List UInt8) → Prop
  | idle {offset : ℕ} : ProducerOk g mem slot free ⟨.idle, offset, false⟩ none
  | staged {frame : List UInt8} (hfree : free) (hlen : frame.length ≤ g.slotDataSize)
      (hdata : SlotData g mem slot frame) :
      ProducerOk g mem slot free ⟨.idle, frame.length, true⟩ (some frame)
  | begun {m : VencFrameMeta} {offset : ℕ} :
      ProducerOk g mem slot free ⟨.begun m, offset, false⟩ none
  | copyingMeta {m : VencFrameMeta} {offset : ℕ} {done todo : List UInt8} (hfree : free)
      (hcopy : done ++ todo = m.bytes) (hdata : SlotData g mem slot done) :
      ProducerOk g mem slot free
        ⟨.copying (.beginWrite m) (g.dataAt slot done.length) todo, offset, false⟩ none
  | copyingData {data frame done todo : List UInt8} (hfree : free)
      (hlen : frame.length + data.length ≤ g.slotDataSize) (hcopy : done ++ todo = data)
      (hdata : SlotData g mem slot (frame ++ done)) :
      ProducerOk g mem slot free
        ⟨.copying (.append data) (g.dataAt slot (frame ++ done).length) todo, frame.length, true⟩
        (some frame)
  | storingLength {frame : List UInt8} (hfree : free) (hlen : frame.length ≤ g.slotDataSize)
      (hdata : SlotData g mem slot frame) :
      ProducerOk g mem slot free ⟨.storingLength, frame.length, true⟩ (some frame)
  | publishing {frame : List UInt8} (hfree : free) (hholds : SlotHolds g mem slot frame) :
      ProducerOk g mem slot free ⟨.publishing, frame.length, true⟩ (some frame)

/-- What the consumer has of the first frame of the queue. -/
inductive ConsumerOk (rd w : ℕ) (q : List (List UInt8)) : ConsumerPc → Prop
  | idle : ConsumerOk rd w q .idle
  | reading {bufSize : ℕ} : ConsumerOk rd w q (.reading bufSize)
  | loadingLength {bufSize : ℕ} (hq : q ≠ []) : ConsumerOk rd w q (.loadingLength bufSize)
  | copying {frame : List UInt8} {k : ℕ} (hq : q.head? = some frame) (hk : k ≤ frame.length) :
      ConsumerOk rd w q (.copying frame.length (frame.take k))
  | taken {frame : List UInt8} (hq : q.head? = some frame) :
      ConsumerOk rd w q (.releasing (.taken frame))
  | tooLong {frame : List UInt8} {bufSize : ℕ} (hq : q.head? = some frame)
      (hlen : bufSize < frame.length) : ConsumerOk rd w q (.releasing (.tooLong bufSize))
  | flushing : ConsumerOk rd w q .flushing
  | flushCopying {seen : UInt64} {got : List UInt8} (hrd : rd < seen.toNat)
      (hw : seen.toNat ≤ w) : ConsumerOk rd w q (.flushCopying seen got)
  | flushReleasing {seen : UInt64} (hrd : rd < seen.toNat) (hw : seen.toNat ≤ w) :
      ConsumerOk rd w q (.flushReleasing seen)

/-- One more frame does not concern the consumer. -/
theorem ConsumerOk.publish {rd w : ℕ} {q : List (List UInt8)} {c : ConsumerPc}
    (h : ConsumerOk rd w q c) (frame : List UInt8) :
    ConsumerOk rd (w + 1) (q ++ [frame]) c := by
  have hhead : ∀ {f}, q.head? = some f → (q ++ [frame]).head? = some f := by
    intro f hf
    rw [List.head?_append, hf, Option.some_or]
  cases h with
  | idle => exact .idle
  | reading => exact .reading
  | loadingLength => exact .loadingLength (by simp)
  | copying hq hk => exact .copying (hhead hq) hk
  | taken hq => exact .taken (hhead hq)
  | tooLong hq hlen => exact .tooLong (hhead hq) hlen
  | flushing => exact .flushing
  | flushCopying hrd hw => exact .flushCopying hrd (hw.trans (Nat.le_succ w))
  | flushReleasing hrd hw => exact .flushReleasing hrd (hw.trans (Nat.le_succ w))

/-- What the producer has written does not depend on why there is a slot free. -/
theorem ProducerOk.mono {g : RingGeometry} {mem : ℕ → UInt8} {slot : ℕ} {free free' : Prop}
    {p : Producer} {staged : Option (List UInt8)} (h : ProducerOk g mem slot free p staged)
    (hfree : free → free') : ProducerOk g mem slot free' p staged := by
  cases h with
  | idle => exact .idle
  | staged hf hlen hdata => exact .staged (hfree hf) hlen hdata
  | begun => exact .begun
  | copyingMeta hf hcopy hdata => exact .copyingMeta (hfree hf) hcopy hdata
  | copyingData hf hlen hcopy hdata => exact .copyingData (hfree hf) hlen hcopy hdata
  | storingLength hf hlen hdata => exact .storingLength (hfree hf) hlen hdata
  | publishing hf hholds => exact .publishing (hfree hf) hholds

/-- The shared ring holds the frames `q`, and `staged` is being written. -/
structure Simulates (g : RingGeometry) (s : SharedRing) (staged : Option (List UInt8))
    (q : List (List UInt8)) : Prop where
  writeIdx_eq : s.writeIdx.toNat = s.readIdx.toNat + q.length
  length_le : q.length ≤ g.slotCount
  queued : ∀ k (hk : k < q.length),
    SlotHolds g s.mem ((s.readIdx.toNat + k) % g.slotCount) q[k]
  producer : ProducerOk g s.mem (s.writeIdx.toNat % g.slotCount) (q.length < g.slotCount)
    s.producer staged
  consumer : ConsumerOk s.readIdx.toNat s.writeIdx.toNat q s.consumer

/-! ### Steps of the producer -/

section Steps

variable {g : RingGeometry} {mem : ℕ → UInt8} {w r : UInt64} {p : Producer} {c : ConsumerPc}
  {staged : Option (List UInt8)} {q : List (List UInt8)}

/-- A step is a queue operation, or none. -/
def Explains (g : RingGeometry) (staged : Option (List UInt8)) (q : List (List UInt8))
    (out : SharedRing × List RingEvent) : Prop :=
  ∃ q', AtomicQueue.run g.slotCount q (Mealy.run stageStep staged out.2).2 = some q' ∧
    Simulates g out.1 (Mealy.run stageStep staged out.2).1 q'

theorem explains_silent {s : SharedRing} (h : Simulates g s staged q) :
    Explains g staged q (s, []) :=
  ⟨q, rfl, h⟩

theorem explains_event {s : SharedRing} {e : RingEvent} {q' : List (List UInt8)}
    (hq : AtomicQueue.run g.slotCount q (stageStep staged e).2 = some q')
    (h : Simulates g s (stageStep staged e).1 q') : Explains g staged q (s, [e]) := by
  refine ⟨q', ?_, h⟩
  rw [Mealy.run_cons, Mealy.run_nil, List.append_nil]
  exact hq

/-- The number of an entry that waits is not that of the slot that is written. -/
theorem Simulates.slot_ne {s : SharedRing} (h : Simulates g s staged q)
    (hfree : q.length < g.slotCount) {k : ℕ} (hk : k < q.length) :
    (s.readIdx.toNat + k) % g.slotCount ≠ s.writeIdx.toNat % g.slotCount := by
  rw [h.writeIdx_eq]
  exact AtomicQueue.mod_ne_of_lt (by omega) (by omega)

/-- A step that leaves the memory and the indices alone. -/
theorem Simulates.of_producer (h : Simulates g ⟨mem, w, r, p, c⟩ staged q) {p' : Producer}
    {staged' : Option (List UInt8)}
    (hp : ProducerOk g mem (w.toNat % g.slotCount) (q.length < g.slotCount) p' staged') :
    Simulates g ⟨mem, w, r, p', c⟩ staged' q :=
  ⟨h.writeIdx_eq, h.length_le, h.queued, hp, h.consumer⟩

theorem Simulates.of_consumer (h : Simulates g ⟨mem, w, r, p, c⟩ staged q) {c' : ConsumerPc}
    (hc : ConsumerOk r.toNat w.toNat q c') : Simulates g ⟨mem, w, r, p, c'⟩ staged q :=
  ⟨h.writeIdx_eq, h.length_le, h.queued, h.producer, hc⟩

/-- A call of the producer begins. -/
theorem Simulates.produce (h : Simulates g ⟨mem, w, r, p, c⟩ staged q) (hidle : p.pc = .idle)
    (call : ProducerCall) :
    Explains g staged q (SharedRing.produce g ⟨mem, w, r, p, c⟩ call) := by
  obtain ⟨pc, offset, active⟩ := p
  obtain rfl : pc = .idle := hidle
  have habort : Explains g staged q (⟨mem, w, r, ⟨.idle, 0, false⟩, c⟩, [.aborted]) :=
    explains_event rfl (h.of_producer .idle)
  cases call with
  | beginWrite m =>
    cases h.producer with
    | idle => exact explains_silent (h.of_producer .begun)
    | staged => exact explains_silent h
  | append data =>
    cases h.producer with
    | idle => exact explains_silent h
    | staged hfree hlen hdata =>
      rw [SharedRing.produce]
      split_ifs with hempty hsize
      · exact explains_silent h
      · exact explains_event rfl h
      · refine explains_silent (h.of_producer ?_)
        have hcopy := ProducerOk.copyingData hfree (Nat.not_lt.mp hsize) (List.nil_append data)
          (by rwa [List.append_nil])
        rw [List.append_nil] at hcopy
        rw [SharedRing.writeSlot, RingGeometry.slotIndex_eq]
        exact hcopy
  | commitWrite =>
    cases h.producer with
    | idle => exact explains_silent h
    | staged hfree hlen hdata =>
      exact explains_silent (h.of_producer (.storingLength hfree hlen hdata))
  | abortWrite => exact habort

/-- A byte is stored in the slot that is written. -/
theorem Simulates.store (h : Simulates g ⟨mem, w, r, p, c⟩ staged q)
    (hfree : q.length < g.slotCount) {j : ℕ} (hj : j < g.slotDataSize) (b : UInt8)
    {p' : Producer}
    (hp : ProducerOk g (Function.update mem (g.dataAt (w.toNat % g.slotCount) j) b)
      (w.toNat % g.slotCount) (q.length < g.slotCount) p' staged) :
    Simulates g ⟨Function.update mem (g.dataAt (w.toNat % g.slotCount) j) b, w, r, p', c⟩ staged
      q :=
  ⟨h.writeIdx_eq, h.length_le,
    fun k hk => (h.queued k hk).update_ne (h.slot_ne hfree hk) hj, hp, h.consumer⟩

/-- The check for a full ring. -/
theorem Simulates.full_iff (h : Simulates g ⟨mem, w, r, p, c⟩ staged q) :
    w - r ≥ g.ring.slotCount.toUInt64 ↔ q.length = g.slotCount := by
  have heq := h.writeIdx_eq
  have hle := h.length_le
  dsimp only at heq
  have hrw : r ≤ w := UInt64.le_iff_toNat_le.mpr (by omega)
  rw [ge_iff_le, UInt64.le_iff_toNat_le, UInt64.toNat_sub_of_le _ _ hrw, UInt32.toNat_toUInt64,
    heq, Nat.add_sub_cancel_left]
  exact ⟨fun hge => le_antisymm hle hge, fun hq => hq.ge⟩

theorem Simulates.producerStep (h : Simulates g ⟨mem, w, r, p, c⟩ staged q)
    (hroom : p.pc = .publishing → w.toNat + 1 < 2 ^ 64) :
    Explains g staged q (SharedRing.producerStep g ⟨mem, w, r, p, c⟩) := by
  have hslot : SharedRing.writeSlot g ⟨mem, w, r, p, c⟩ = w.toNat % g.slotCount :=
    RingGeometry.slotIndex_eq g w
  have hproducer : ProducerOk g mem (w.toNat % g.slotCount) (q.length < g.slotCount) p staged :=
    h.producer
  cases hproducer with
  | idle => exact explains_silent h
  | staged => exact explains_silent h
  | begun =>
    rw [SharedRing.producerStep]
    have hmeta : ¬vencFrameMetaSize.toNat > g.slotDataSize :=
      Nat.not_lt.mpr (UInt32.le_iff_toNat_le.mp g.mapped.checked.meta_le)
    dsimp only
    rw [if_neg hmeta]
    split_ifs with hfull
    · refine explains_event ?_ (h.of_producer .idle)
      rw [stageStep, AtomicQueue.run_singleton, AtomicQueue.step, if_pos (h.full_iff.mp hfull)]
    · refine explains_silent (h.of_producer ?_)
      have hfree : q.length < g.slotCount :=
        lt_of_le_of_ne h.length_le fun heq => hfull (h.full_iff.mpr heq)
      rw [hslot]
      exact .copyingMeta hfree (List.nil_append _) fun j hj => absurd hj (Nat.not_lt_zero j)
  | @copyingMeta m offset done todo hfree hcopy hdata =>
    have hlen : done.length + todo.length = 8 := by
      rw [← List.length_append, hcopy, m.length_bytes]
    have hmeta : 8 ≤ g.slotDataSize := UInt32.le_iff_toNat_le.mp g.mapped.checked.meta_le
    cases todo with
    | nil =>
      rw [List.append_nil] at hcopy
      have hstaged := ProducerOk.staged hfree (by simp at hlen; omega) hdata
      rw [hcopy, m.length_bytes] at hstaged
      exact explains_event rfl (h.of_producer hstaged)
    | cons b todo =>
      refine explains_silent (h.store hfree ?_ b ?_)
      · rw [List.length_cons] at hlen
        omega
      · have hdata' := hdata.concat (b := b)
        have hnext := @ProducerOk.copyingMeta _ _ _ _ m offset _ todo hfree (by simpa using hcopy)
          hdata'
        rwa [List.length_append, List.length_singleton] at hnext
  | @copyingData data frame done todo hfree hlen hcopy hdata =>
    have hcopied : done.length + todo.length = data.length := by
      rw [← List.length_append, hcopy]
    cases todo with
    | nil =>
      rw [List.append_nil] at hcopy
      subst hcopy
      have hstaged := ProducerOk.staged (g := g) hfree (by rwa [List.length_append]) hdata
      rw [List.length_append] at hstaged
      exact explains_event rfl (h.of_producer hstaged)
    | cons b todo =>
      refine explains_silent (h.store hfree ?_ b ?_)
      · rw [List.length_cons] at hcopied
        rw [List.length_append]
        omega
      · have hdata' := hdata.concat (b := b)
        rw [List.append_assoc] at hdata'
        have hnext := ProducerOk.copyingData hfree hlen (by simpa using hcopy) hdata'
        rwa [← List.append_assoc, @List.length_append _ (frame ++ done)] at hnext
  | storingLength hfree hlen hdata =>
    rw [SharedRing.producerStep]
    dsimp only
    rw [hslot]
    refine explains_silent ⟨h.writeIdx_eq, h.length_le, fun k hk => ?_, ?_, h.consumer⟩
    · exact (h.queued k hk).storeLength_ne (h.slot_ne hfree hk)
    · exact .publishing hfree (hdata.holds hlen)
  | @publishing frame hfree hholds =>
    have heq := h.writeIdx_eq
    have hnext : (w + 1).toNat = w.toNat + 1 := by
      rw [UInt64.toNat_add, UInt64.toNat_one, Nat.mod_eq_of_lt (hroom rfl)]
    dsimp only at heq
    refine @explains_event _ _ _ _ _ (q ++ [frame]) ?_ ⟨?_, ?_, fun k hk => ?_, .idle, ?_⟩
    · rw [stageStep, Option.toList_some, List.map_singleton, AtomicQueue.run_singleton,
        AtomicQueue.step, if_pos hfree]
    · dsimp only
      rw [hnext, heq, List.length_append, List.length_singleton, Nat.add_assoc]
    · rw [List.length_append, List.length_singleton]
      exact hfree
    · rw [List.length_append, List.length_singleton] at hk
      rcases Nat.lt_succ_iff_lt_or_eq.mp hk with hlt | rfl
      · rw [List.getElem_append_left hlt]
        exact h.queued k hlt
      · rw [List.getElem_concat_length rfl]
        dsimp only
        rw [← heq]
        exact hholds
    · have hconsumer := h.consumer.publish frame
      rwa [← hnext] at hconsumer

/-! ### Steps of the consumer -/

theorem Simulates.empty_iff (h : Simulates g ⟨mem, w, r, p, c⟩ staged q) :
    r ≥ w ↔ q = [] := by
  have heq := h.writeIdx_eq
  dsimp only at heq
  rw [ge_iff_le, UInt64.le_iff_toNat_le, heq, ← List.length_eq_zero_iff]
  omega

/-- The oldest entries are removed. -/
theorem Simulates.drop (h : Simulates g ⟨mem, w, r, p, c⟩ staged q) {r' : UInt64} {n : ℕ}
    (hr : r'.toNat = r.toNat + n) (hn : n ≤ q.length) :
    Simulates g ⟨mem, w, r', p, .idle⟩ staged (q.drop n) := by
  have heq := h.writeIdx_eq
  have hle := h.length_le
  dsimp only at heq
  refine ⟨?_, ?_, fun k hk => ?_, ?_, .idle⟩
  · rw [List.length_drop]
    dsimp only
    omega
  · rw [List.length_drop]
    omega
  · rw [List.length_drop] at hk
    have hslot := h.queued (n + k) (by omega)
    rw [List.getElem_drop]
    dsimp only at hslot ⊢
    rwa [hr, Nat.add_assoc]
  · exact h.producer.mono fun hfree => by rw [List.length_drop]; omega

/-- The oldest entry is removed. -/
theorem Simulates.tail (h : Simulates g ⟨mem, w, r, p, c⟩ staged q) {frame : List UInt8}
    (hq : q.head? = some frame) : Simulates g ⟨mem, w, r + 1, p, .idle⟩ staged q.tail := by
  have heq := h.writeIdx_eq
  have hlt := w.toNat_lt
  dsimp only at heq
  obtain ⟨rest, rfl⟩ := List.head?_eq_some_iff.mp hq
  rw [List.length_cons] at heq
  have hnext : (r + 1).toNat = r.toNat + 1 := by
    rw [UInt64.toNat_add, UInt64.toNat_one, Nat.mod_eq_of_lt (by omega)]
  exact h.drop hnext (by simp)

theorem Simulates.consumerStep (h : Simulates g ⟨mem, w, r, p, c⟩ staged q) :
    Explains g staged q (SharedRing.consumerStep g ⟨mem, w, r, p, c⟩) := by
  have hslot : SharedRing.readSlot g ⟨mem, w, r, p, c⟩ = r.toNat % g.slotCount :=
    RingGeometry.slotIndex_eq g r
  have heq := h.writeIdx_eq
  dsimp only at heq
  -- the first entry is in the slot of `read_idx`
  have hfirst : ∀ {frame}, q.head? = some frame →
      SlotHolds g mem (r.toNat % g.slotCount) frame := by
    intro frame hq
    obtain ⟨rest, rfl⟩ := List.head?_eq_some_iff.mp hq
    exact h.queued 0 (by simp)
  have hconsumer : ConsumerOk r.toNat w.toNat q c := h.consumer
  cases hconsumer with
  | idle => exact explains_silent h
  | reading =>
    rw [SharedRing.consumerStep]
    dsimp only
    split_ifs with hempty
    · refine explains_event ?_ (h.of_consumer .idle)
      rw [stageStep, AtomicQueue.run_singleton, AtomicQueue.step,
        if_pos (h.empty_iff.mp hempty)]
    · exact explains_silent (h.of_consumer (.loadingLength fun hq => hempty (h.empty_iff.mpr hq)))
  | loadingLength hq =>
    obtain ⟨frame, hframe⟩ : ∃ frame, q.head? = some frame := by
      cases q with
      | nil => exact absurd rfl hq
      | cons frame rest => exact ⟨frame, rfl⟩
    have hholds := hfirst hframe
    rw [SharedRing.consumerStep]
    dsimp only
    rw [hslot, hholds.length_eq, if_neg (Nat.not_lt.mpr hholds.length_le)]
    split_ifs with hlong
    · exact explains_silent (h.of_consumer (.tooLong hframe hlong))
    · exact explains_silent (h.of_consumer (.copying (k := 0) hframe (Nat.zero_le _)))
  | @copying frame k hq hk =>
    rw [SharedRing.consumerStep]
    dsimp only
    rw [List.length_take_of_le hk, hslot]
    split_ifs with hlt
    · rw [(hfirst hq).take_concat hlt]
      exact explains_silent (h.of_consumer (.copying hq hlt))
    · rw [List.take_of_length_le (Nat.not_lt.mp hlt)]
      exact explains_silent (h.of_consumer (.taken hq))
  | taken hq =>
    refine explains_event ?_ (h.tail hq)
    rw [stageStep, AtomicQueue.run_singleton, AtomicQueue.step, if_pos hq]
  | @tooLong frame bufSize hq hlen =>
    refine explains_event ?_ (h.tail hq)
    have hany : (q.head?.any fun frame => decide (bufSize < frame.length)) = true := by
      rw [hq]
      exact decide_eq_true hlen
    rw [stageStep, AtomicQueue.run_singleton, AtomicQueue.step, if_pos hany]
  | flushing =>
    rw [SharedRing.consumerStep]
    dsimp only
    split_ifs with hmore
    · exact explains_silent (h.of_consumer (.flushCopying (UInt64.lt_iff_toNat_lt.mp hmore) le_rfl))
    · refine explains_event ?_ (h.of_consumer .idle)
      rw [stageStep, AtomicQueue.run_singleton, AtomicQueue.step,
        if_pos (h.empty_iff.mp (UInt64.not_lt.mp hmore))]
  | flushCopying hrd hw =>
    rw [SharedRing.consumerStep]
    dsimp only
    split_ifs
    · exact explains_silent (h.of_consumer (.flushCopying hrd hw))
    · exact explains_silent (h.of_consumer (.flushReleasing hrd hw))
  | @flushReleasing seen hrd hw =>
    have hcount : (seen - r).toNat = seen.toNat - r.toNat :=
      UInt64.toNat_sub_of_le _ _ (UInt64.le_iff_toNat_le.mpr hrd.le)
    have hn : seen.toNat - r.toNat ≤ q.length := by omega
    refine explains_event ?_ (h.drop (n := seen.toNat - r.toNat) (by omega) hn)
    dsimp only
    rw [stageStep, hcount]
    have hrun := @AtomicQueue.run_discard _ _ g.slotCount (fun _ => true)
      (q.take (seen.toNat - r.toNat)) (fun _ _ => rfl) (q.drop (seen.toNat - r.toNat))
    rwa [List.take_append_drop, List.length_take_of_le hn] at hrun

end Steps

/-! ### Runs -/

/-- A frame is published. -/
def RingEvent.isPublished : RingEvent → Bool
  | .published => true
  | _ => false

/-- The frame a read hands out. -/
def RingEvent.taken? : RingEvent → Option (List UInt8)
  | .removed (.taken frame) => some frame
  | _ => none

/-- The frames that were published, as they were begun and appended to. -/
def publishedFrames (events : List RingEvent) : List (List UInt8) :=
  (queueEvents events).filterMap AtomicQueue.Event.put?

/-- The producer is about to publish. -/
def SharedRing.Publishes (s : SharedRing) (m : RingMove) : Prop :=
  m = .producer ∧ s.producer.pc = .publishing

/-- Only this moves `write_idx`. -/
theorem SharedRing.step_writeIdx (g : RingGeometry) (s : SharedRing) (m : RingMove) :
    s.Publishes m ∧ (s.step g m).1.writeIdx = s.writeIdx + 1 ∧
        (s.step g m).2.countP RingEvent.isPublished = 1 ∨
      ¬s.Publishes m ∧ (s.step g m).1.writeIdx = s.writeIdx ∧
        (s.step g m).2.countP RingEvent.isPublished = 0 := by
  cases m with
  | produce call =>
    refine .inr ⟨by simp [Publishes], ?_⟩
    rw [step]
    split_ifs
    · cases call <;> rw [produce] <;> (try split_ifs) <;> exact ⟨rfl, rfl⟩
    · exact ⟨rfl, rfl⟩
  | producer =>
    cases hpc : s.producer.pc with
    | publishing =>
      refine .inl ⟨⟨rfl, hpc⟩, ?_⟩
      rw [step, producerStep, hpc]
      exact ⟨rfl, rfl⟩
    | idle =>
      refine .inr ⟨by simp [Publishes, hpc], ?_⟩
      rw [step, producerStep, hpc]
      exact ⟨rfl, rfl⟩
    | begun m =>
      refine .inr ⟨by simp [Publishes, hpc], ?_⟩
      rw [step, producerStep, hpc]
      dsimp only
      split_ifs <;> exact ⟨rfl, rfl⟩
    | copying call addr todo =>
      refine .inr ⟨by simp [Publishes, hpc], ?_⟩
      rw [step, producerStep, hpc]
      cases todo with
      | nil => cases call <;> exact ⟨rfl, rfl⟩
      | cons => exact ⟨rfl, rfl⟩
    | storingLength =>
      refine .inr ⟨by simp [Publishes, hpc], ?_⟩
      rw [step, producerStep, hpc]
      exact ⟨rfl, rfl⟩
  | consume call =>
    refine .inr ⟨by simp [Publishes], ?_⟩
    rw [step]
    split_ifs
    · cases call <;> exact ⟨rfl, rfl⟩
    · exact ⟨rfl, rfl⟩
  | consumer =>
    refine .inr ⟨by simp [Publishes], ?_⟩
    rw [step, consumerStep]
    split <;> (try dsimp only) <;> (try split_ifs) <;> exact ⟨rfl, rfl⟩

theorem Simulates.step {g : RingGeometry} {s : SharedRing} {staged : Option (List UInt8)}
    {q : List (List UInt8)} (h : Simulates g s staged q) {m : RingMove}
    (hroom : s.Publishes m → s.writeIdx.toNat + 1 < 2 ^ 64) :
    Explains g staged q (s.step g m) := by
  obtain ⟨mem, w, r, p, c⟩ := s
  cases m with
  | produce call =>
    rw [SharedRing.step]
    split_ifs with hidle
    · exact h.produce hidle call
    · exact explains_silent h
  | producer => exact h.producerStep fun hpc => hroom ⟨rfl, hpc⟩
  | consume call =>
    rw [SharedRing.step]
    split_ifs
    · cases call with
      | read => exact explains_silent (h.of_consumer .reading)
      | flush => exact explains_silent (h.of_consumer .flushing)
    · exact explains_silent h
  | consumer => exact h.consumerStep

theorem simulates_init (g : RingGeometry) (mem : ℕ → UInt8) :
    Simulates g (SharedRing.init mem) none [] :=
  ⟨rfl, Nat.zero_le _, fun k hk => absurd hk (Nat.not_lt_zero k), .idle, .idle⟩

/-- Up to 2^64 frames every run keeps the ring a queue. -/
theorem run_simulates (g : RingGeometry) (mem : ℕ → UInt8) (moves : List RingMove)
    (hcount : (SharedRing.run g mem moves).2.countP RingEvent.isPublished < 2 ^ 64) :
    ∃ q, AtomicQueue.run g.slotCount [] (queueEvents (SharedRing.run g mem moves).2) = some q ∧
      Simulates g (SharedRing.run g mem moves).1
        (Mealy.run stageStep none (SharedRing.run g mem moves).2).1 q := by
  have hrun : (SharedRing.run g mem moves).2.countP RingEvent.isPublished < 2 ^ 64 →
      (SharedRing.run g mem moves).1.writeIdx.toNat =
        (SharedRing.run g mem moves).2.countP RingEvent.isPublished ∧
      ∃ q, AtomicQueue.run g.slotCount [] (queueEvents (SharedRing.run g mem moves).2) = some q ∧
        Simulates g (SharedRing.run g mem moves).1
          (Mealy.run stageStep none (SharedRing.run g mem moves).2).1 q := by
    refine Mealy.run_induction (SharedRing.step g)
      (motive := fun _ s events => events.countP RingEvent.isPublished < 2 ^ 64 →
        s.writeIdx.toNat = events.countP RingEvent.isPublished ∧
        ∃ q, AtomicQueue.run g.slotCount [] (queueEvents events) = some q ∧
          Simulates g s (Mealy.run stageStep none events).1 q)
      (fun _ => ⟨rfl, [], rfl, simulates_init g mem⟩) (fun _ m s events ih hlt => ?_) moves
    rw [List.countP_append] at hlt
    obtain ⟨hw, q, hq, hsim⟩ := ih (by omega)
    have hstep := SharedRing.step_writeIdx g s m
    have hroom : s.Publishes m → s.writeIdx.toNat + 1 < 2 ^ 64 := by
      intro hpub
      rcases hstep with ⟨-, -, hone⟩ | ⟨hno, -⟩
      · omega
      · exact absurd hpub hno
    obtain ⟨q', hq', hsim'⟩ := hsim.step hroom
    refine ⟨?_, q', ?_, ?_⟩
    · rw [List.countP_append, ← hw]
      rcases hstep with ⟨hpub, hnext, hone⟩ | ⟨-, hsame, hzero⟩
      · rw [hnext, hone, UInt64.toNat_add, UInt64.toNat_one, Nat.mod_eq_of_lt (hroom hpub)]
      · rw [hsame, hzero, Nat.add_zero]
    · rw [queueEvents, Mealy.run_append]
      dsimp only
      rw [AtomicQueue.run_append]
      exact Option.bind_eq_some_iff.mpr ⟨q, hq, hq'⟩
    · rw [Mealy.run_append]
      exact hsim'
  exact (hrun hcount).2

/-- What the reads hand out is what the queue's operations take. -/
theorem filterMap_taken (events : List RingEvent) :
    events.filterMap RingEvent.taken? =
      (queueEvents events).filterMap AtomicQueue.Event.take? := by
  refine Mealy.run_induction stageStep
    (motive := fun events _ ops =>
      events.filterMap RingEvent.taken? = ops.filterMap AtomicQueue.Event.take?)
    rfl (fun events e staged ops ih => ?_) events
  rw [List.filterMap_append, List.filterMap_append, ih]
  refine congrArg _ ?_
  cases e with
  | removed result => cases result <;> rfl
  | published => cases staged <;> rfl
  | flushed n =>
    rw [stageStep, List.filterMap_replicate_of_none rfl]
    rfl
  | _ => rfl

/-- **The ring is linearizable.** However the accesses of waybeam and of the sender to the shared
memory follow on each other, for up to 2^64 frames, the calls show what they would show on a queue
of `slot_count` whole frames with atomic operations; the frames handed out are the published ones,
byte for byte and in order, none twice; and those waiting are whole in their slots. -/
theorem ring_linearizable (g : RingGeometry) (mem : ℕ → UInt8) (moves : List RingMove)
    (hcount : (SharedRing.run g mem moves).2.countP RingEvent.isPublished < 2 ^ 64) :
    ∃ q, AtomicQueue.run g.slotCount [] (queueEvents (SharedRing.run g mem moves).2) = some q ∧
      ((SharedRing.run g mem moves).2.filterMap RingEvent.taken?).Sublist
        (publishedFrames (SharedRing.run g mem moves).2) ∧
      (SharedRing.run g mem moves).1.writeIdx.toNat =
        (SharedRing.run g mem moves).1.readIdx.toNat + q.length ∧
      ∀ k (hk : k < q.length), SlotHolds g (SharedRing.run g mem moves).1.mem
        (((SharedRing.run g mem moves).1.readIdx.toNat + k) % g.slotCount) q[k] := by
  obtain ⟨q, hq, hsim⟩ := run_simulates g mem moves hcount
  refine ⟨q, hq, ?_, hsim.writeIdx_eq, hsim.queued⟩
  rw [filterMap_taken]
  exact AtomicQueue.take_sublist_put hq

/-- A ring of two slots with room for eight bytes behind the meta. -/
def twoSlots : RingGeometry where
  ring := ⟨2, 16, 24, 240, true⟩
  mapped := .inl ⟨2, 16, ⟨vencFrameRingMagic, vencFrameRingVersion, 2, 16, 240, 1⟩, by decide⟩
  size_le := by decide

/-- A frame is written and read, and the read goes on while the next one is written. -/
def readWhileWriting : List RingMove :=
  let frame (data : List UInt8) : List RingMove :=
    [.produce (.beginWrite ⟨7, 1, 1, 0, 0⟩)] ++ List.replicate 10 .producer ++
      [.produce (.append data)] ++ List.replicate (data.length + 1) .producer ++
      [.produce .commitWrite, .producer, .producer]
  frame [10, 20] ++ [.consume (.read 64)] ++
    (frame [30, 40, 50]).flatMap (fun m => [m, .consumer])

theorem ring_linearizable_readWhileWriting :
    ∃ q, AtomicQueue.run 2 []
        (queueEvents (SharedRing.run twoSlots (fun _ => 0) readWhileWriting).2) = some q ∧
      ((SharedRing.run twoSlots (fun _ => 0) readWhileWriting).2.filterMap
        RingEvent.taken?).Sublist
        (publishedFrames (SharedRing.run twoSlots (fun _ => 0) readWhileWriting).2) ∧
      (SharedRing.run twoSlots (fun _ => 0) readWhileWriting).1.writeIdx.toNat =
        (SharedRing.run twoSlots (fun _ => 0) readWhileWriting).1.readIdx.toNat + q.length ∧
      ∀ k (hk : k < q.length), SlotHolds twoSlots
        (SharedRing.run twoSlots (fun _ => 0) readWhileWriting).1.mem
        (((SharedRing.run twoSlots (fun _ => 0) readWhileWriting).1.readIdx.toNat + k) % 2) q[k] :=
  ring_linearizable twoSlots (fun _ => 0) readWhileWriting (by decide)

example : (SharedRing.run twoSlots (fun _ => 0) readWhileWriting).2.filterMap RingEvent.taken? =
    [[7, 0, 0, 0, 1, 1, 0, 0, 10, 20]] := by
  decide

/-! ### No race -/

namespace SharedRing

variable (g : RingGeometry)

/-- Where the producer's next access stores into a slot. -/
def stores (s : SharedRing) : List ℕ :=
  match s.producer.pc with
  | .copying _ addr (_ :: _) => [addr]
  | .storingLength => (List.range 4).map fun j => g.ring.slotAt (s.writeSlot g) + j
  | _ => []

/-- Where the consumer's next access loads from a slot. -/
def loads (s : SharedRing) : List ℕ :=
  match s.consumer with
  | .loadingLength _ => (List.range 4).map fun j => g.ring.slotAt (s.readSlot g) + j
  | .copying len got => if got.length < len then [g.dataAt (s.readSlot g) got.length] else []
  | .flushCopying _ got =>
    if got.length < vencFrameMetaSize.toNat then [g.dataAt (s.readSlot g) got.length] else []
  | _ => []

end SharedRing

/-- An address in a slot. -/
def RingGeometry.InSlot (g : RingGeometry) (i a : ℕ) : Prop :=
  g.ring.slotAt i ≤ a ∧ a < g.ring.slotEnd i

section Races

variable {g : RingGeometry} {s : SharedRing} {staged : Option (List UInt8)}
  {q : List (List UInt8)} {a b : ℕ}

theorem RingGeometry.inSlot_length (g : RingGeometry) {i : ℕ}
    (ha : a ∈ (List.range 4).map fun j => g.ring.slotAt i + j) : g.InSlot i a := by
  obtain ⟨j, hj, rfl⟩ := List.mem_map.mp ha
  have := List.mem_range.mp hj
  exact ⟨by omega, by rw [VencFrameRing.slotEnd]; omega⟩

theorem RingGeometry.inSlot_data (g : RingGeometry) {i j : ℕ} (hj : j < g.slotDataSize) :
    g.InSlot i (g.dataAt i j) := by
  rw [slotDataSize] at hj
  exact ⟨by rw [dataAt]; omega, by rw [dataAt, VencFrameRing.slotEnd]; omega⟩

/-- Two slots have no address in common. -/
theorem RingGeometry.InSlot.ne {i i' : ℕ} (ha : g.InSlot i a) (hb : g.InSlot i' b)
    (hi : i ≠ i') : a ≠ b := by
  obtain ⟨ha, ha'⟩ := ha
  obtain ⟨hb, hb'⟩ := hb
  rcases Nat.lt_or_gt_of_ne hi with h | h
  · have := VencFrameRing.slotEnd_le_slotAt g.le_slotStride h
    omega
  · have := VencFrameRing.slotEnd_le_slotAt g.le_slotStride h
    omega

/-- The producer stores into the slot of `write_idx`, when that one is free. -/
theorem Simulates.stores (h : Simulates g s staged q) (ha : a ∈ s.stores g) :
    q.length < g.slotCount ∧ g.InSlot (s.writeIdx.toNat % g.slotCount) a := by
  obtain ⟨mem, w, r, p, c⟩ := s
  have hslot : SharedRing.writeSlot g ⟨mem, w, r, p, c⟩ = w.toNat % g.slotCount :=
    RingGeometry.slotIndex_eq g w
  have hproducer : ProducerOk g mem (w.toNat % g.slotCount) (q.length < g.slotCount) p staged :=
    h.producer
  cases hproducer with
  | idle => simp [SharedRing.stores] at ha
  | staged => simp [SharedRing.stores] at ha
  | begun => simp [SharedRing.stores] at ha
  | publishing => simp [SharedRing.stores] at ha
  | storingLength hfree =>
    rw [SharedRing.stores, hslot] at ha
    exact ⟨hfree, g.inSlot_length ha⟩
  | @copyingMeta m _ done todo hfree hcopy =>
    have hlen : done.length + todo.length = 8 := by
      rw [← List.length_append, hcopy, m.length_bytes]
    have hmeta : 8 ≤ g.slotDataSize := UInt32.le_iff_toNat_le.mp g.mapped.checked.meta_le
    cases todo with
    | nil => simp [SharedRing.stores] at ha
    | cons b todo =>
      rw [List.length_cons] at hlen
      rw [List.mem_singleton.mp ha]
      exact ⟨hfree, g.inSlot_data (by omega)⟩
  | @copyingData data frame done todo hfree hlen hcopy =>
    have hcopied : done.length + todo.length = data.length := by
      rw [← List.length_append, hcopy]
    cases todo with
    | nil => simp [SharedRing.stores] at ha
    | cons b todo =>
      rw [List.length_cons] at hcopied
      rw [List.mem_singleton.mp ha]
      exact ⟨hfree, g.inSlot_data (by rw [List.length_append]; omega)⟩

/-- The consumer loads from the slot of `read_idx`, when there is an entry in it. -/
theorem Simulates.loads (h : Simulates g s staged q) (hb : b ∈ s.loads g) :
    q ≠ [] ∧ g.InSlot (s.readIdx.toNat % g.slotCount) b := by
  obtain ⟨mem, w, r, p, c⟩ := s
  have hslot : SharedRing.readSlot g ⟨mem, w, r, p, c⟩ = r.toNat % g.slotCount :=
    RingGeometry.slotIndex_eq g r
  have heq := h.writeIdx_eq
  dsimp only at heq
  have hconsumer : ConsumerOk r.toNat w.toNat q c := h.consumer
  cases hconsumer with
  | idle => simp [SharedRing.loads] at hb
  | reading => simp [SharedRing.loads] at hb
  | taken => simp [SharedRing.loads] at hb
  | tooLong => simp [SharedRing.loads] at hb
  | flushing => simp [SharedRing.loads] at hb
  | flushReleasing => simp [SharedRing.loads] at hb
  | loadingLength hq =>
    rw [SharedRing.loads, hslot] at hb
    exact ⟨hq, g.inSlot_length hb⟩
  | @copying frame k hq hk =>
    obtain ⟨rest, rfl⟩ := List.head?_eq_some_iff.mp hq
    have hle : frame.length ≤ g.slotDataSize := (h.queued 0 (by simp)).length_le
    rw [SharedRing.loads] at hb
    dsimp only at hb
    rw [hslot, List.length_take_of_le hk] at hb
    split_ifs at hb with hlt
    · rw [List.mem_singleton.mp hb]
      exact ⟨by simp, g.inSlot_data (hlt.trans_le hle)⟩
    · simp at hb
  | @flushCopying seen got hrd hw =>
    have hmeta : 8 ≤ g.slotDataSize := UInt32.le_iff_toNat_le.mp g.mapped.checked.meta_le
    rw [SharedRing.loads] at hb
    dsimp only at hb
    rw [hslot] at hb
    split_ifs at hb with hlt
    · rw [List.mem_singleton.mp hb]
      refine ⟨fun hq => ?_, g.inSlot_data (lt_of_lt_of_le hlt hmeta)⟩
      rw [hq] at heq
      simp only [List.length_nil] at heq
      omega
    · simp at hb

end Races

/-- **No race**: in every state of every run, what the producer is about to store in the slots and
what the consumer is about to load from them are at different addresses, and these are in the
mapping, behind the header. -/
theorem ring_race_free (g : RingGeometry) (mem : ℕ → UInt8) (moves : List RingMove)
    (hcount : (SharedRing.run g mem moves).2.countP RingEvent.isPublished < 2 ^ 64) :
    (∀ a ∈ (SharedRing.run g mem moves).1.stores g,
      ∀ b ∈ (SharedRing.run g mem moves).1.loads g, a ≠ b) ∧
    ∀ a, a ∈ (SharedRing.run g mem moves).1.stores g ∨ a ∈ (SharedRing.run g mem moves).1.loads g →
      ringHdrSize.toNat ≤ a ∧ a < g.ring.mapSize.toNat := by
  obtain ⟨q, -, hsim⟩ := run_simulates g mem moves hcount
  have hin : ∀ {i a}, g.InSlot (i % g.slotCount) a →
      ringHdrSize.toNat ≤ a ∧ a < g.ring.mapSize.toNat := by
    intro i a ha
    have hfit := (g.mapped.checked.slotsFit g.size_le (i % g.slotCount)
      (Nat.mod_lt _ g.slotCount_pos)).1
    refine ⟨le_trans ?_ ha.1, ha.2.trans_le hfit⟩
    rw [VencFrameRing.slotAt]
    exact Nat.le_add_right _ _
  refine ⟨fun a ha b hb => ?_, ?_⟩
  · obtain ⟨hfree, ha⟩ := hsim.stores ha
    obtain ⟨hq, hb⟩ := hsim.loads hb
    exact ha.ne hb (hsim.slot_ne hfree (List.length_pos_iff.mpr hq)).symm
  · rintro a (ha | ha)
    · exact hin (hsim.stores ha).2
    · exact hin (hsim.loads ha).2

theorem ring_race_free_readWhileWriting :
    (∀ a ∈ (SharedRing.run twoSlots (fun _ => 0) readWhileWriting).1.stores twoSlots,
      ∀ b ∈ (SharedRing.run twoSlots (fun _ => 0) readWhileWriting).1.loads twoSlots, a ≠ b) ∧
    ∀ a, a ∈ (SharedRing.run twoSlots (fun _ => 0) readWhileWriting).1.stores twoSlots ∨
      a ∈ (SharedRing.run twoSlots (fun _ => 0) readWhileWriting).1.loads twoSlots →
      ringHdrSize.toNat ≤ a ∧ a < twoSlots.ring.mapSize.toNat :=
  ring_race_free twoSlots (fun _ => 0) readWhileWriting (by decide)

end Ar8030
