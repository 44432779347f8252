import Mathlib.Data.Nat.ModEq
import Mathlib.Tactic.Ring

/-!
# The memory of the frame ring

The ring is a shared mapping of a header and `slot_count` slots, each a 4-byte length and
`slot_data_size` bytes of data, `calc_slot_stride` apart. `venc_frame_ring_create` lays it out and
`venc_frame_ring_attach` maps what it finds under the name, if the header and the size of the
object agree.

The strides and the size of the mapping are computed in 32 bits, and at the last eleven slot sizes
a stride wraps. `venc_frame_ring_create` refuses eight of them and `venc_frame_ring_attach` none;
below them the slots lie in the mapping and do not overlap (`slotsFit_iff`).
-/

namespace Ar8030

/-! ### Sizes -/

def vencFrameRingMagic : UInt32 := 0x5646524D

def vencFrameRingVersion : UInt32 := 2

def vencFrameMetaSize : UInt32 := 8

/-- `sizeof(venc_frame_ring_hdr_t)`. -/
def ringHdrSize : UInt64 := 192

/-- `UINT32_MAX`. -/
def uint32Max : UInt32 := 0xffffffff

/-- `calc_slot_stride`. -/
def calcSlotStride (slotDataSize : UInt32) : UInt32 :=
  let raw := 4 + slotDataSize
  (raw + 7) &&& ~~~7

/-- `calc_total_size`. -/
def calcTotalSize (slotCount slotDataSize : UInt32) : UInt64 :=
  ringHdrSize + slotCount.toUInt64 * (calcSlotStride slotDataSize).toUInt64

/-- `is_power_of_2`. -/
def isPowerOf2 (v : UInt32) : Bool := decide (v > 0) && (v &&& (v - 1)) == 0

/-! ### Creating and attaching -/

/-- The part of `venc_frame_ring_hdr_t` that does not change once it is set up. -/
structure RingHdr where
  magic : UInt32
  version : UInt32
  slotCount : UInt32
  slotDataSize : UInt32
  totalSize : UInt32
  initComplete : UInt32
  deriving DecidableEq, Repr

/-- The part of `venc_frame_ring_t` that says where the slots are. -/
structure VencFrameRing where
  slotCount : UInt32
  slotDataSize : UInt32
  slotStride : UInt32
  mapSize : UInt32
  isOwner : Bool
  deriving DecidableEq, Repr

/-- `venc_frame_ring_create`, with a name that is not empty; `sysOk` is whether its system calls
succeed. -/
def vencFrameRingCreate (slotCount slotDataSize : UInt32) (sysOk : Bool) :
    Option (RingHdr × VencFrameRing) :=
  if !isPowerOf2 slotCount || slotDataSize < vencFrameMetaSize ||
      slotDataSize > uint32Max - 8 then none
  else
    let total := calcTotalSize slotCount slotDataSize
    if total > uint32Max.toUInt64 then none
    else if !sysOk then none
    else some
      ({ magic := vencFrameRingMagic, version := vencFrameRingVersion, slotCount, slotDataSize
         totalSize := total.toUInt32, initComplete := 1 },
       { slotCount, slotDataSize, slotStride := calcSlotStride slotDataSize
         mapSize := total.toUInt32, isOwner := true })

/-- `venc_frame_ring_attach`: the header as `read` found it, the size of the object, and the
header as it was when the object was mapped. -/
def vencFrameRingAttach (tmp : RingHdr) (stSize : UInt64) (hdr : RingHdr) (sysOk : Bool) :
    Option VencFrameRing :=
  if tmp.magic != vencFrameRingMagic || tmp.version != vencFrameRingVersion ||
      !isPowerOf2 tmp.slotCount || tmp.slotDataSize < vencFrameMetaSize ||
      tmp.initComplete != 1 then none
  else
    let expected := calcTotalSize tmp.slotCount tmp.slotDataSize
    if expected > uint32Max.toUInt64 || expected.toUInt32 != tmp.totalSize then none
    else if stSize != expected then none
    else if !sysOk then none
    else if hdr.magic != vencFrameRingMagic || hdr.version != vencFrameRingVersion ||
        hdr.slotCount != tmp.slotCount || hdr.slotDataSize != tmp.slotDataSize ||
        hdr.totalSize != expected.toUInt32 || hdr.initComplete != 1 then none
    else some
      { slotCount := hdr.slotCount, slotDataSize := hdr.slotDataSize
        slotStride := calcSlotStride hdr.slotDataSize
        mapSize := expected.toUInt32, isOwner := false }

/-- The ring comes from one of the two. -/
def VencFrameRing.Mapped (r : VencFrameRing) : Prop :=
  (∃ count size hdr, vencFrameRingCreate count size true = some (hdr, r)) ∨
    ∃ tmp stSize hdr, vencFrameRingAttach tmp stSize hdr true = some r

/-! ### What both make sure of -/

/-- The layout of a ring that was created or attached. -/
structure VencFrameRing.Checked (r : VencFrameRing) : Prop where
  isPowerOf2_slotCount : isPowerOf2 r.slotCount = true
  meta_le : vencFrameMetaSize ≤ r.slotDataSize
  slotStride_eq : r.slotStride = calcSlotStride r.slotDataSize
  mapSize_eq : r.mapSize.toUInt64 = calcTotalSize r.slotCount r.slotDataSize

theorem toUInt64_toUInt32 {x : UInt64} (h : x ≤ uint32Max.toUInt64) :
    x.toUInt32.toUInt64 = x := by
  have hle : x.toNat ≤ 4294967295 := UInt64.le_iff_toNat_le.mp h
  rw [← UInt64.toNat_inj, UInt32.toNat_toUInt64, UInt64.toNat_toUInt32]
  omega

theorem VencFrameRing.Mapped.checked {r : VencFrameRing} (h : r.Mapped) : r.Checked := by
  rcases h with ⟨count, size, hdr, h⟩ | ⟨tmp, stSize, hdr, h⟩
  · simp only [vencFrameRingCreate, Bool.or_eq_true, Bool.not_eq_true', decide_eq_true_eq,
      Bool.not_true, Bool.false_eq_true, if_false] at h
    split_ifs at h with hargs htotal
    obtain ⟨-, rfl⟩ := Prod.mk.inj (Option.some.inj h)
    simp only [not_or, Bool.not_eq_false] at hargs
    obtain ⟨⟨hpow, hmeta⟩, -⟩ := hargs
    exact ⟨hpow, UInt32.not_lt.mp hmeta, rfl, toUInt64_toUInt32 (UInt64.not_lt.mp htotal)⟩
  · simp only [vencFrameRingAttach, Bool.or_eq_true, Bool.not_eq_true', decide_eq_true_eq,
      bne_iff_ne, ne_eq, Bool.not_true, Bool.false_eq_true, if_false] at h
    split_ifs at h with htmp htotal hsize hhdr
    obtain rfl := Option.some.inj h
    simp only [not_or, Bool.not_eq_false, not_not] at htmp htotal hhdr
    obtain ⟨⟨⟨-, hpow⟩, hmeta⟩, -⟩ := htmp
    obtain ⟨⟨⟨⟨-, hcount⟩, hdata⟩, -⟩, -⟩ := hhdr
    rw [← hcount] at hpow htotal
    rw [← hdata] at hmeta htotal
    refine ⟨hpow, UInt32.not_lt.mp hmeta, rfl, ?_⟩
    rw [← hcount, ← hdata]
    exact toUInt64_toUInt32 (UInt64.not_lt.mp htotal.1)

/-! ### Where the slots are -/

namespace VencFrameRing

/-- `venc_frame_ring_slot_at`, as an offset into the mapping. -/
def slotAt (r : VencFrameRing) (idx : ℕ) : ℕ := ringHdrSize.toNat + idx * r.slotStride.toNat

/-- Behind the last byte of a slot. -/
def slotEnd (r : VencFrameRing) (idx : ℕ) : ℕ := r.slotAt idx + 4 + r.slotDataSize.toNat

/-- The slots are in the mapping, behind its header, and no two of them overlap. -/
def SlotsFit (r : VencFrameRing) : Prop :=
  ∀ i < r.slotCount.toNat, r.slotEnd i ≤ r.mapSize.toNat ∧
    ∀ j < r.slotCount.toNat, i < j → r.slotEnd i ≤ r.slotAt j

end VencFrameRing

/-! ### Strides -/

/-- Rounding down to a multiple of eight. -/
theorem and_not_seven {x : ℕ} (h : x < 2 ^ 32) : x &&& (2 ^ 29 - 1) <<< 3 = x / 8 * 8 := by
  have hdiv : x / 8 * 8 = x >>> 3 <<< 3 := by rw [Nat.shiftLeft_eq, Nat.shiftRight_eq_div_pow]
  rw [hdiv]
  refine Nat.eq_of_testBit_eq fun i => ?_
  rw [Nat.testBit_and, Nat.testBit_shiftLeft, Nat.testBit_shiftLeft, Nat.testBit_shiftRight,
    Nat.testBit_two_pow_sub_one]
  by_cases hi : 3 ≤ i
  · rw [Nat.add_sub_cancel' hi]
    by_cases hlt : i < 32
    · have hbit : i - 3 < 29 := by omega
      simp [hi, hbit]
    · have hzero : x.testBit i = false :=
        Nat.testBit_lt_two_pow (h.trans_le (Nat.pow_le_pow_right (by decide) (by omega)))
      simp [hzero]
  · simp [hi]

theorem toNat_calcSlotStride (size : UInt32) :
    (calcSlotStride size).toNat = (size.toNat + 11) % 2 ^ 32 / 8 * 8 := by
  have hmask : (~~~7 : UInt32).toNat = (2 ^ 29 - 1) <<< 3 := by decide
  rw [calcSlotStride, UInt32.toNat_and, hmask, and_not_seven (UInt32.toNat_lt _)]
  have hadd : (4 + size + 7 : UInt32).toNat = (size.toNat + 11) % 2 ^ 32 := by
    rw [UInt32.toNat_add, UInt32.toNat_add]
    simp only [UInt32.reduceToNat]
    omega
  rw [hadd]

/-- Up to the last eleven sizes a stride has room for a slot. -/
theorem le_calcSlotStride {size : UInt32} (h : size.toNat ≤ 2 ^ 32 - 12) :
    size.toNat + 4 ≤ (calcSlotStride size).toNat := by
  rw [toNat_calcSlotStride, Nat.mod_eq_of_lt (by omega)]
  omega

theorem toNat_calcTotalSize (count size : UInt32) :
    (calcTotalSize count size).toNat =
      192 + count.toNat * (calcSlotStride size).toNat := by
  have hcount := count.toNat_lt
  have hstride := (calcSlotStride size).toNat_lt
  have hprod : count.toNat * (calcSlotStride size).toNat ≤ (2 ^ 32 - 1) * (2 ^ 32 - 1) :=
    Nat.mul_le_mul (by omega) (by omega)
  rw [calcTotalSize, UInt64.toNat_add, UInt64.toNat_mul, UInt32.toNat_toUInt64,
    UInt32.toNat_toUInt64]
  simp only [ringHdrSize, UInt64.reduceToNat]
  rw [Nat.mod_eq_of_lt (b := 2 ^ 64) (by omega), Nat.mod_eq_of_lt (by omega)]

namespace VencFrameRing

theorem Checked.toNat_mapSize {r : VencFrameRing} (h : r.Checked) :
    r.mapSize.toNat = 192 + r.slotCount.toNat * r.slotStride.toNat := by
  rw [h.slotStride_eq, ← toNat_calcTotalSize, ← h.mapSize_eq, UInt32.toNat_toUInt64]

theorem Checked.slotCount_pos {r : VencFrameRing} (h : r.Checked) : 0 < r.slotCount.toNat := by
  have hpow := h.isPowerOf2_slotCount
  rw [isPowerOf2, Bool.and_eq_true, decide_eq_true_eq] at hpow
  exact UInt32.lt_iff_toNat_lt.mp hpow.1

/-- A slot ends where the next one begins, or before. -/
theorem slotEnd_le_slotAt {r : VencFrameRing}
    (hstride : r.slotDataSize.toNat + 4 ≤ r.slotStride.toNat) {i j : ℕ} (hij : i < j) :
    r.slotEnd i ≤ r.slotAt j := by
  have hmul : (i + 1) * r.slotStride.toNat ≤ j * r.slotStride.toNat :=
    Nat.mul_le_mul_right _ hij
  rw [Nat.add_one_mul] at hmul
  rw [slotEnd, slotAt, slotAt]
  omega

theorem Checked.slotsFit {r : VencFrameRing} (h : r.Checked)
    (hsize : r.slotDataSize.toNat ≤ 2 ^ 32 - 12) : r.SlotsFit := by
  have hstride : r.slotDataSize.toNat + 4 ≤ r.slotStride.toNat := by
    rw [h.slotStride_eq]
    exact le_calcSlotStride hsize
  intro i hi
  refine ⟨?_, fun j _ hij => slotEnd_le_slotAt hstride hij⟩
  calc r.slotEnd i ≤ r.slotAt r.slotCount.toNat := slotEnd_le_slotAt hstride hi
    _ = r.mapSize.toNat := by rw [h.toNat_mapSize]; rfl

/-- **The slots of a ring lie in its mapping and apart** exactly if its slot size is not one of
the last eleven, some of which both functions take. -/
theorem slotsFit_iff {r : VencFrameRing} (h : r.Mapped) :
    r.SlotsFit ↔ r.slotDataSize.toNat ≤ 2 ^ 32 - 12 := by
  have hchecked := h.checked
  constructor
  · intro hfit
    have hmapLt := r.mapSize.toNat_lt
    have hfirst := (hfit 0 hchecked.slotCount_pos).1
    rw [slotEnd, slotAt, ringHdrSize] at hfirst
    simp only [UInt64.reduceToNat] at hfirst
    omega
  · exact hchecked.slotsFit

/-- The ring of the larger of the two encoders. -/
theorem slotsFit_iff_cv610 :
    (VencFrameRing.mk 8 524288 524296 4194560 true).SlotsFit ↔
      (524288 : UInt32).toNat ≤ 2 ^ 32 - 12 :=
  slotsFit_iff (.inl ⟨8, 524288,
    ⟨vencFrameRingMagic, vencFrameRingVersion, 8, 524288, 4194560, 1⟩, by decide⟩)

end VencFrameRing

end Ar8030
