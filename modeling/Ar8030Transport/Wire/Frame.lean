import Ar8030Transport.Wire.Chunker

/-!
# One frame on the wire

`FrameChunks info streamed cs` says what the chunks of one frame look like, for both
framings: numbered from 0, one sequence number and pts, and either the chunk count on every
chunk (a frame sent whole) or no count and no `FRAME_END` until the last chunk, which has
both (a streamed frame). `NumberedChunks` is the part of it that holds of the beginning of a
frame as well.

The second half shows that the chunker's runs build such frames, one run for a whole frame
and one run a part for a streamed one.
-/

namespace Ar8030

open Pieces

/-! ### What a frame looks like on the wire -/

/-- The chunks `cs` are the first ones of one frame, in order. -/
structure NumberedChunks (info : FrameInfo) (cs : List Chunk) : Prop where
  length_le : cs.length ≤ 0xFFFF
  /-- Codec, sequence number, pts and frame flags are the frame's on every chunk. -/
  codec : ∀ c ∈ cs, c.hdr.codec = info.codec
  frameSeq : ∀ c ∈ cs, c.hdr.frameSeq = info.frameSeq
  framePts : ∀ c ∈ cs, c.hdr.framePts = info.framePts
  flags : ∀ c ∈ cs, c.hdr.flags &&& ~~~(chunkFlagFrameEnd ||| chunkFlagSliceEnd) = info.flags
  /-- The chunks are numbered from 0. -/
  chunkIdx : ∀ i, (hi : i < cs.length) → cs[i].hdr.chunkIdx.toNat = i
  isSealed : ∀ c ∈ cs, c.Sealed

/-- The chunks `cs` are one whole frame's, in order. -/
structure FrameChunks (info : FrameInfo) (streamed : Bool) (cs : List Chunk) : Prop
    extends NumberedChunks info cs where
  length_pos : 0 < cs.length
  /-- Only the last chunk of a streamed frame has `FRAME_END`. -/
  frameEnd : ∀ i, (hi : i < cs.length) →
    hasFlag cs[i].hdr.flags chunkFlagFrameEnd = (streamed && i + 1 == cs.length)
  /-- The count is there on every chunk of a frame sent whole, and on the last chunk of a
  streamed one. -/
  chunkCount : ∀ i, (hi : i < cs.length) →
    cs[i].hdr.chunkCount.toNat = if streamed && i + 1 != cs.length then 0 else cs.length

/-- The bytes of a frame. -/
def frameData (cs : List Chunk) : List UInt8 := cs.flatMap Chunk.payload

theorem frameData_append (cs ds : List Chunk) :
    frameData (cs ++ ds) = frameData cs ++ frameData ds := List.flatMap_append

section Numbered

variable {info : FrameInfo} {cs : List Chunk}

theorem frameData_take_succ {k : ℕ} (hk : k < cs.length) :
    frameData (cs.take (k + 1)) = frameData (cs.take k) ++ cs[k].payload := by
  rw [frameData, frameData, List.take_succ_eq_append_getElem hk, List.flatMap_append,
    List.flatMap_singleton]

theorem frameData_take_isPrefix (k : ℕ) : frameData (cs.take k) <+: frameData cs := by
  conv_rhs => rw [← List.take_append_drop k cs, frameData_append]
  exact List.prefix_append _ _

/-- What was collected is short enough for 32-bit lengths. -/
theorem NumberedChunks.length_frameData_take_le (h : NumberedChunks info cs) {k : ℕ}
    (hk : k ≤ cs.length) : (frameData (cs.take k)).length ≤ k * chunkMaxPayload := by
  induction k with
  | zero => simp [frameData]
  | succ k ih =>
    have hlast := (h.isSealed _ (List.getElem_mem (show k < cs.length by omega))).length_payload_le
    have := ih (by omega)
    rw [frameData_take_succ (by omega), List.length_append, Nat.succ_mul]
    omega

theorem NumberedChunks.chunkIdx_eq_zero_iff (h : NumberedChunks info cs) {i : ℕ}
    (hi : i < cs.length) : cs[i].hdr.chunkIdx = 0 ↔ i = 0 := by
  rw [← UInt16.toNat_inj, h.chunkIdx i hi]
  rfl

/-- The chunks delivered of a frame's rest have the frame's codec and sequence number, and
their index is at least that of the first one that could come. -/
theorem NumberedChunks.of_mem_drop (h : NumberedChunks info cs) {k : ℕ} {c : Chunk}
    (hc : c ∈ cs.drop k) :
    c.hdr.codec = info.codec ∧ c.hdr.frameSeq = info.frameSeq ∧ k ≤ c.hdr.chunkIdx.toNat := by
  have hmem := List.mem_of_mem_drop hc
  obtain ⟨i, hi, rfl⟩ := List.mem_iff_getElem.mp hc
  rw [List.length_drop] at hi
  have hidx := h.chunkIdx (k + i) (by omega)
  exact ⟨h.codec _ hmem, h.frameSeq _ hmem, by simp [hidx]⟩

end Numbered

/-! ### Frame flags -/

/-- The flags of a frame leave the two chunk bits alone. -/
def FrameInfo.FlagsFree (info : FrameInfo) : Prop :=
  info.flags &&& (chunkFlagFrameEnd ||| chunkFlagSliceEnd) = 0

instance (info : FrameInfo) : Decidable info.FlagsFree :=
  inferInstanceAs (Decidable (_ = _))

theorem flags_of_free (f : UInt8) (h : f &&& (chunkFlagFrameEnd ||| chunkFlagSliceEnd) = 0) :
    f &&& ~~~(chunkFlagFrameEnd ||| chunkFlagSliceEnd) = f ∧
      (f ||| chunkFlagFrameEnd) &&& ~~~(chunkFlagFrameEnd ||| chunkFlagSliceEnd) = f ∧
      (f ||| chunkFlagSliceEnd) &&& ~~~(chunkFlagFrameEnd ||| chunkFlagSliceEnd) = f ∧
      hasFlag f chunkFlagFrameEnd = false ∧
      hasFlag (f ||| chunkFlagFrameEnd) chunkFlagFrameEnd = true ∧
      hasFlag (f ||| chunkFlagSliceEnd) chunkFlagFrameEnd = false := by
  obtain ⟨b⟩ := f
  revert b
  decide +kernel

section Run

variable {info : FrameInfo} {data : List UInt8}
  {chunkPayload firstIdx totalCount chunkCount : ℕ} {frameEnd part : Bool}

/-- Without the two chunk bits a chunk's flags are the frame's. -/
theorem mask_flags_runChunk (hfree : info.FlagsFree) (i : ℕ) :
    (runChunk info data chunkPayload firstIdx totalCount chunkCount frameEnd part i).hdr.flags &&&
      ~~~(chunkFlagFrameEnd ||| chunkFlagSliceEnd) = info.flags := by
  obtain ⟨hplain, hend, hslice, -⟩ := flags_of_free _ hfree
  simp only [runChunk]
  split_ifs
  · exact hend
  · exact hslice
  · exact hplain

/-- `FRAME_END` is set on the last chunk of a run that ends the frame, and nowhere else. -/
theorem frameEnd_runChunk (hfree : info.FlagsFree) (i : ℕ) :
    hasFlag (runChunk info data chunkPayload firstIdx totalCount chunkCount frameEnd part
      i).hdr.flags chunkFlagFrameEnd = (frameEnd && i + 1 == chunkCount) := by
  obtain ⟨-, -, -, hplain, hend, hslice⟩ := flags_of_free _ hfree
  simp only [runChunk]
  split_ifs with hfinal hsl
  · rw [hend, hfinal]
  · rw [hslice, Bool.eq_false_of_not_eq_true hfinal]
  · rw [hplain, Bool.eq_false_of_not_eq_true hfinal]

theorem chunkCount_runChunk (i : ℕ) :
    (runChunk info data chunkPayload firstIdx totalCount chunkCount frameEnd part
      i).hdr.chunkCount =
      UInt16.ofNat (if frameEnd && i + 1 == chunkCount then firstIdx + chunkCount
        else totalCount) := rfl

end Run

/-! ### Runs build frames -/

theorem numberedChunks_nil (info : FrameInfo) : NumberedChunks info [] := by
  constructor <;> simp

section Append

variable {info : FrameInfo} {cs : List Chunk} (data : List UInt8)
  {chunkPayload totalCount n : ℕ} {frameEnd part : Bool}

/-- A run that continues the numbering. -/
theorem NumberedChunks.append_run (h : NumberedChunks info cs) (hfree : info.FlagsFree)
    (hmax : chunkPayload ≤ chunkMaxPayload) (hlen : cs.length + n ≤ 0xFFFF) :
    NumberedChunks info
      (cs ++ runChunks info data chunkPayload cs.length totalCount n frameEnd part) := by
  have hrun : ∀ {P : Chunk → Prop}, (∀ c ∈ cs, P c) →
      (∀ i, P (runChunk info data chunkPayload cs.length totalCount n frameEnd part i)) →
      ∀ c ∈ cs ++ runChunks info data chunkPayload cs.length totalCount n frameEnd part, P c := by
    intro P hold hnew c hc
    rcases List.mem_append.mp hc with hc | hc
    · exact hold c hc
    · obtain ⟨i, -, rfl⟩ := List.mem_map.mp hc
      exact hnew i
  refine ⟨by simpa using hlen, hrun h.codec fun _ => rfl, hrun h.frameSeq fun _ => rfl,
    hrun h.framePts fun _ => rfl, hrun h.flags (mask_flags_runChunk hfree), ?_,
    hrun h.isSealed (runChunk_sealed hmax)⟩
  intro i hi
  rw [List.length_append, length_runChunks] at hi
  rw [List.getElem_append]
  split_ifs with hold
  · exact h.chunkIdx i hold
  · rw [getElem_runChunks]
    simp only [runChunk, UInt16.toNat_ofNat']
    rw [Nat.add_sub_cancel' (by omega)]
    exact Nat.mod_eq_of_lt (by omega)

/-- The chunks of a streamed frame before its last part: no count and no end yet. -/
structure StreamedStart (info : FrameInfo) (cs : List Chunk) : Prop
    extends NumberedChunks info cs where
  frameEnd : ∀ c ∈ cs, hasFlag c.hdr.flags chunkFlagFrameEnd = false
  chunkCount : ∀ c ∈ cs, c.hdr.chunkCount = 0

theorem streamedStart_nil (info : FrameInfo) : StreamedStart info [] where
  toNumberedChunks := numberedChunks_nil info
  frameEnd := by simp
  chunkCount := by simp

/-- A part that is not the last one. -/
theorem StreamedStart.append_part (h : StreamedStart info cs) (hfree : info.FlagsFree)
    (hmax : chunkPayload ≤ chunkMaxPayload) (hlen : cs.length + n ≤ 0xFFFF) :
    StreamedStart info (cs ++ runChunks info data chunkPayload cs.length 0 n false true) where
  toNumberedChunks := h.toNumberedChunks.append_run data hfree hmax hlen
  frameEnd := by
    intro c hc
    rcases List.mem_append.mp hc with hc | hc
    · exact h.frameEnd c hc
    · obtain ⟨i, -, rfl⟩ := List.mem_map.mp hc
      exact frameEnd_runChunk hfree i
  chunkCount := by
    intro c hc
    rcases List.mem_append.mp hc with hc | hc
    · exact h.chunkCount c hc
    · obtain ⟨i, -, rfl⟩ := List.mem_map.mp hc
      simp [chunkCount_runChunk]

/-- The last part completes a streamed frame. -/
theorem StreamedStart.append_last (h : StreamedStart info cs) (hfree : info.FlagsFree)
    (hmax : chunkPayload ≤ chunkMaxPayload) (hpos : 0 < n) (hlen : cs.length + n ≤ 0xFFFF) :
    FrameChunks info true (cs ++ runChunks info data chunkPayload cs.length 0 n true true) where
  toNumberedChunks := h.toNumberedChunks.append_run data hfree hmax hlen
  length_pos := by
    rw [List.length_append, length_runChunks]
    omega
  frameEnd := by
    intro i hi
    rw [List.length_append, length_runChunks] at hi
    rw [List.getElem_append, List.length_append, length_runChunks]
    split_ifs with hold
    · have hne : ¬ i + 1 = cs.length + n := by omega
      simp [h.frameEnd _ (List.getElem_mem hold), hne]
    · have hiff : (i - cs.length + 1 = n) ↔ i + 1 = cs.length + n := by omega
      rw [getElem_runChunks, frameEnd_runChunk hfree]
      simp [hiff]
  chunkCount := by
    intro i hi
    rw [List.length_append, length_runChunks] at hi
    rw [List.getElem_append, List.length_append, length_runChunks]
    split_ifs with hold hne hne
    · simp [h.chunkCount _ (List.getElem_mem hold)]
    · simp at hne
      omega
    · have hmore : ¬ i - cs.length + 1 = n := by
        simp at hne
        omega
      rw [getElem_runChunks, chunkCount_runChunk]
      simp [hmore]
    · have hlast : i - cs.length + 1 = n := by
        simp at hne
        omega
      rw [getElem_runChunks, chunkCount_runChunk]
      simp only [hlast, beq_self_eq_true, Bool.and_self, if_true, UInt16.toNat_ofNat']
      exact Nat.mod_eq_of_lt (by omega)

/-- A frame sent whole is one run. -/
theorem frameChunks_whole (hfree : info.FlagsFree) (hmax : chunkPayload ≤ chunkMaxPayload)
    (hpos : 0 < n) (hlen : n ≤ 0xFFFF) :
    FrameChunks info false (runChunks info data chunkPayload 0 n n false false) where
  toNumberedChunks :=
    (numberedChunks_nil info).append_run data hfree hmax (by simpa using hlen)
  length_pos := by simpa using hpos
  frameEnd := by
    intro i hi
    rw [getElem_runChunks, frameEnd_runChunk hfree]
    rfl
  chunkCount := by
    intro i hi
    rw [getElem_runChunks, chunkCount_runChunk]
    simp only [Bool.false_and, Bool.false_eq_true, if_false, length_runChunks,
      UInt16.toNat_ofNat']
    exact Nat.mod_eq_of_lt (by omega)

end Append

end Ar8030
