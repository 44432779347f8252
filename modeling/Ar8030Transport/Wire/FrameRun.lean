import Ar8030Transport.Library.Mealy
import Ar8030Transport.Wire.Frame
import Ar8030Transport.Wire.Reassembly

/-!
# One frame's chunks through the reassembler

`run_frame` is the result: whichever of a frame's chunks are delivered, in order, the
reassembler completes the frame once if all of them came and fit, and not at all otherwise.
The state is followed chunk by chunk: `Collecting` while nothing is missing yet, `Foreign`
when the reassembler is not in this frame.
-/

namespace Ar8030

open Reassembly

/-- What the reassembler hands on for a complete frame. -/
def FrameInfo.completed (info : FrameInfo) (cs : List Chunk) : Completed where
  frameSeq := info.frameSeq
  framePts := info.framePts
  flags := info.flags
  data := frameData cs

/-! ### The states in between -/

/-- The reassembler is not collecting the frame with this sequence number. -/
def Foreign (frameSeq : UInt16) (r : Reassembly) : Prop := r.active = false ∨ r.frameSeq ≠ frameSeq

/-- The reassembler has taken the first `k` chunks of the frame and nothing else. -/
structure Collecting (info : FrameInfo) (streamed : Bool) (cs : List Chunk) (k : ℕ)
    (r : Reassembly) : Prop where
  active : r.active = true
  frameSeq : r.frameSeq = info.frameSeq
  framePts : r.framePts = info.framePts
  flags : r.flags = info.flags
  chunkCount : r.chunkCount.toNat = if streamed then 0 else cs.length
  nextChunkIdx : r.nextChunkIdx.toNat = k
  buf : r.buf = frameData (cs.take k)

theorem isNewFrame_of_foreign {frameSeq : UInt16} {r : Reassembly} {hdr : ChunkHdr}
    (h : Foreign frameSeq r) (hseq : hdr.frameSeq = frameSeq) : r.isNewFrame hdr = true := by
  rcases h with h | h
  · simp [isNewFrame, h]
  · simp [isNewFrame, hseq, Ne.symm h]

section Frame

variable {info : FrameInfo} {streamed : Bool} {cs : List Chunk}

/-- Starting on chunk 0 of the frame. -/
theorem FrameChunks.collecting_start (h : FrameChunks info streamed cs) (hpos : 0 < cs.length)
    (r : Reassembly) : Collecting info streamed cs 0 (r.start cs[0].hdr) := by
  have hmem : cs[0] ∈ cs := List.getElem_mem hpos
  have hend := h.frameEnd 0 hpos
  have hcount := h.chunkCount 0 hpos
  refine ⟨rfl, h.frameSeq _ hmem, h.framePts _ hmem, h.flags _ hmem, ?_, rfl, rfl⟩
  simp only [start, hend]
  cases streamed
  · simpa using hcount
  · by_cases h1 : 1 = cs.length
    · simp [h1]
    · simpa [h1] using hcount

theorem Collecting.nextChunkIdx_store {k : ℕ} {r : Reassembly} {payload : List UInt8}
    (hr : Collecting info streamed cs k r) (hk : k < 0xFFFF) :
    (r.store payload).nextChunkIdx.toNat = k + 1 := by
  simp only [store, UInt16.toNat_add, hr.nextChunkIdx]
  exact Nat.mod_eq_of_lt (by simp; omega)

/-- Taking the next chunk keeps collecting. -/
theorem Collecting.store_next {k : ℕ} {r : Reassembly} (hf : FrameChunks info streamed cs)
    (hr : Collecting info streamed cs k r) (hk : k < cs.length) :
    Collecting info streamed cs (k + 1) (r.store cs[k].payload) := by
  have hlen16 := hf.length_le
  refine ⟨hr.active, hr.frameSeq, hr.framePts, hr.flags, hr.chunkCount,
    hr.nextChunkIdx_store (by omega), ?_⟩
  rw [frameData_take_succ hk, ← hr.buf]
  rfl

/-- For a chunk of the frame being collected the reassembler sees the end of the frame
exactly on the last chunk of a streamed one. -/
theorem Collecting.frameEnd_eq {k : ℕ} {r : Reassembly} (hf : FrameChunks info streamed cs)
    (hr : Collecting info streamed cs k r) (hk : k < cs.length) :
    r.frameEnd cs[k].hdr = (streamed && k + 1 == cs.length) := by
  have hend := hf.frameEnd k hk
  have hcount := hf.chunkCount k hk
  have hidx := hf.chunkIdx k hk
  have hrc := hr.chunkCount
  cases streamed with
  | false => simp [Reassembly.frameEnd, hend]
  | true =>
    have hzero : r.chunkCount = 0 := UInt16.toNat_inj.mp (by simpa using hrc)
    by_cases hlast : k + 1 = cs.length
    · simp only [hlast, bne_self_eq_false, Bool.and_false, Bool.false_eq_true, if_false] at hcount
      simp [Reassembly.frameEnd, hzero, hend, hcount, hidx, hlast]
    · have hne : (k + 1 == cs.length) = false := by simpa using hlast
      simp [Reassembly.frameEnd, hend, hne]

/-- A chunk of the frame being collected carries the count it has to. -/
theorem Collecting.wantCount_eq {k : ℕ} {r : Reassembly} (hf : FrameChunks info streamed cs)
    (hr : Collecting info streamed cs k r) (hk : k < cs.length) :
    r.wantCount cs[k].hdr = cs[k].hdr.chunkCount := by
  have hcount := hf.chunkCount k hk
  have hrc := hr.chunkCount
  rw [wantCount, hr.frameEnd_eq hf hk]
  split_ifs with hend
  · rfl
  · apply UInt16.toNat_inj.mp
    rw [hrc, hcount]
    cases streamed with
    | false => rfl
    | true => simp_all

/-- What the next chunk of a frame being collected does: it is taken if it fits, and
completes the frame if it is the last. -/
theorem Collecting.extend_eq {k : ℕ} {r : Reassembly} (hf : FrameChunks info streamed cs)
    (hr : Collecting info streamed cs k r) (hk : k < cs.length) :
    r.extend cs[k].hdr cs[k].payload =
      if r.cap < (frameData (cs.take (k + 1))).length then (false, r.refuse cs[k].hdr)
      else if k + 1 = cs.length then
        (true, { r.store cs[k].payload with
          done := true
          completedFrames := r.completedFrames + 1 })
      else (false, r.store cs[k].payload) := by
  have hlen16 := hf.length_le
  have hidx : cs[k].hdr.chunkIdx = r.nextChunkIdx :=
    UInt16.toNat_inj.mp ((hf.chunkIdx k hk).trans hr.nextChunkIdx.symm)
  have hok : ¬ (cs[k].hdr.chunkIdx ≠ r.nextChunkIdx ∨
      cs[k].hdr.chunkCount ≠ r.wantCount cs[k].hdr) := by
    simp [hidx, hr.wantCount_eq hf hk]
  have hlen : (r.buf.length + cs[k].payload.length) % 2 ^ 32 =
      (frameData (cs.take (k + 1))).length := by
    have hle := hf.length_frameData_take_le (k := k + 1) hk
    have hmul : (k + 1) * chunkMaxPayload ≤ 0xFFFF * chunkMaxPayload :=
      Nat.mul_le_mul_right _ (by omega)
    simp only [chunkMaxPayload] at hle hmul
    rw [← List.length_append, hr.buf, ← frameData_take_succ hk]
    exact Nat.mod_eq_of_lt (by omega)
  have hcomplete : (r.frameEnd cs[k].hdr = true ∨
      (r.store cs[k].payload).nextChunkIdx = r.chunkCount) ↔ k + 1 = cs.length := by
    rw [hr.frameEnd_eq hf hk, ← UInt16.toNat_inj, hr.nextChunkIdx_store (by omega),
      hr.chunkCount]
    cases streamed <;> simp
  rw [extend, if_neg hok, hlen]
  simp only [hcomplete]

/-! ### What is delivered of a frame -/

/-- What a run over delivered chunks of a frame leads to; `whole` says that all that was
still to come was delivered and fits. -/
structure Passed (info : FrameInfo) (cs : List Chunk) (whole : Prop) [Decidable whole]
    (r : Reassembly) (res : Reassembly × List Completed) : Prop where
  cap : res.1.cap = r.cap
  frameSeq : res.1.active = true → res.1.frameSeq = info.frameSeq
  out : res.2 = if whole then [info.completed cs] else []
  clean : whole → res.1.active = false ∧
    (r.active = false ∨ r.frameSeq = info.frameSeq → res.1.droppedFrames = r.droppedFrames)

/-- Chunks that come after the first find nothing to extend once the frame is lost. -/
theorem run_lost {frameSeq : UInt16} {D : List Chunk} {r : Reassembly}
    (hcodec : ∀ c ∈ D, c.hdr.codec = chunkCodecH265)
    (hseq : ∀ c ∈ D, c.hdr.frameSeq = frameSeq) (hidx : ∀ c ∈ D, c.hdr.chunkIdx ≠ 0)
    (hr : Foreign frameSeq r) :
    (Mealy.run videoStep r D).2 = [] ∧ (Mealy.run videoStep r D).1.cap = r.cap ∧
      ((r.active = false ∨ D ≠ []) → (Mealy.run videoStep r D).1.active = false) := by
  induction D generalizing r with
  | nil => simp
  | cons c D ih =>
    have hstep : videoStep r c = (r.giveUp.refuse c.hdr, []) := by
      have hnew := isNewFrame_of_foreign hr (hseq c (by simp))
      simp [videoStep, handOn, hcodec c (by simp), feed, hnew, hidx c (by simp)]
    obtain ⟨hout, hcap, hact⟩ := ih (r := r.giveUp.refuse c.hdr)
      (fun c' h' => hcodec c' (by simp [h'])) (fun c' h' => hseq c' (by simp [h']))
      (fun c' h' => hidx c' (by simp [h'])) (Or.inl rfl)
    rw [Mealy.run_cons, hstep]
    exact ⟨by simpa using hout, by simpa using hcap, fun _ => hact (Or.inl rfl)⟩


/-- After a loss inside the frame the rest of it does nothing. -/
theorem FrameChunks.passed_of_lost (h : FrameChunks info streamed cs)
    (hcodec : info.codec = chunkCodecH265) {whole : Prop} [Decidable whole] (hwhole : ¬ whole)
    {k : ℕ} {r : Reassembly} {c : Chunk} {D : List Chunk} (hD : D.Sublist (cs.drop (k + 1)))
    {r' : Reassembly} (hr' : r'.active = false) (hcap : r'.cap = r.cap)
    (hstep : videoStep r c = (r', [])) :
    Passed info cs whole r (Mealy.run videoStep r (c :: D)) := by
  have hmem : ∀ d ∈ D, d ∈ cs.drop (k + 1) := fun d hd => hD.subset hd
  obtain ⟨hout, hcap', hact⟩ := @run_lost info.frameSeq D r'
    (fun d hd => (h.of_mem_drop (hmem d hd)).1.trans hcodec)
    (fun d hd => (h.of_mem_drop (hmem d hd)).2.1)
    (fun d hd h0 => by
      have := (h.of_mem_drop (hmem d hd)).2.2
      rw [h0] at this
      exact absurd this (by simp))
    (Or.inl hr')
  have hinactive := hact (Or.inl hr')
  rw [Mealy.run_cons, hstep]
  refine ⟨hcap'.trans hcap, fun hactive => ?_, by simpa [hwhole] using hout,
    fun hw => absurd hw hwhole⟩
  exact absurd (hinactive.symm.trans hactive) (by simp)

/-- A chunk of the frame being collected that is not the next one loses the frame. -/
theorem Collecting.videoStep_gap {k : ℕ} {r : Reassembly} (hr : Collecting info streamed cs k r)
    (hf : FrameChunks info streamed cs) (hcodec : info.codec = chunkCodecH265) {c : Chunk}
    (hc : c ∈ cs.drop (k + 1)) : videoStep r c = (r.refuse c.hdr, []) := by
  obtain ⟨hcc, hcs, hci⟩ := hf.of_mem_drop hc
  have hold : r.isNewFrame c.hdr = false := by
    simp [isNewFrame, hr.active, hr.frameSeq, hcs]
  have hidx : c.hdr.chunkIdx ≠ r.nextChunkIdx := by
    intro heq
    have := hr.nextChunkIdx
    rw [← heq] at this
    omega
  simp [videoStep, handOn, hcc.trans hcodec, feed, hold, extend, hidx]

/-- The next chunk of the frame being collected goes to `extend`. -/
theorem Collecting.videoStep_next {k : ℕ} {r : Reassembly} (hr : Collecting info streamed cs k r)
    (hf : FrameChunks info streamed cs) (hcodec : info.codec = chunkCodecH265)
    (hk : k < cs.length) :
    videoStep r cs[k] = handOn (r.extend cs[k].hdr cs[k].payload) := by
  have hmem : cs[k] ∈ cs := List.getElem_mem hk
  have hold : r.isNewFrame cs[k].hdr = false := by
    simp [isNewFrame, hr.active, hr.frameSeq, hf.frameSeq _ hmem]
  simp [videoStep, hf.codec _ hmem, hcodec, feed, hold]

/-- Chunk 0 of the frame starts it. -/
theorem FrameChunks.videoStep_first {r : Reassembly} (hf : FrameChunks info streamed cs)
    (hcodec : info.codec = chunkCodecH265) (hr : Foreign info.frameSeq r) :
    have h0 := hf.length_pos
    videoStep r cs[0] = handOn ((r.giveUp.start cs[0].hdr).extend cs[0].hdr cs[0].payload) := by
  intro h0
  have hmem : cs[0] ∈ cs := List.getElem_mem h0
  have hnew := isNewFrame_of_foreign hr (hf.frameSeq _ hmem)
  have hidx := (hf.chunkIdx_eq_zero_iff h0).mpr rfl
  simp [videoStep, hf.codec _ hmem, hcodec, feed, hnew, hidx]

/-- The next chunk of the frame and what is delivered after it, when the rest of the frame
is known to pass from the state with the chunk taken. -/
theorem Collecting.passed_cons {k : ℕ} {r r₀ : Reassembly} {D : List Chunk}
    (hr₀ : Collecting info streamed cs k r₀) (hf : FrameChunks info streamed cs)
    (hcodec : info.codec = chunkCodecH265) (hk : k < cs.length)
    (hstep : videoStep r cs[k] = handOn (r₀.extend cs[k].hdr cs[k].payload))
    (hcap : r₀.cap = r.cap)
    (hdropped : r.active = false ∨ r.frameSeq = info.frameSeq → r₀.droppedFrames = r.droppedFrames)
    (hD : D.Sublist (cs.drop (k + 1)))
    (hrest : ∀ r', Collecting info streamed cs (k + 1) r' → k + 1 < cs.length →
      Passed info cs (D = cs.drop (k + 1) ∧ (frameData cs).length ≤ r'.cap) r'
        (Mealy.run videoStep r' D)) :
    Passed info cs (cs[k] :: D = cs.drop k ∧ (frameData cs).length ≤ r.cap) r
      (Mealy.run videoStep r (cs[k] :: D)) := by
  have hdrop : cs.drop k = cs[k] :: cs.drop (k + 1) := List.drop_eq_getElem_cons hk
  rw [hr₀.extend_eq hf hk, hcap] at hstep
  split_ifs at hstep with hfull hlast
  · -- too large for the buffer
    refine hf.passed_of_lost hcodec (fun hw => ?_) hD rfl (by simp [hcap]) hstep
    have hle : (frameData (cs.take (k + 1))).length ≤ (frameData cs).length :=
      (frameData_take_isPrefix (k + 1)).length_le
    omega
  · -- the last chunk
    have hnil : D = [] := by simpa [hlast] using hD
    have htake : cs.take (k + 1) = cs := by simp [hlast]
    rw [htake, not_lt] at hfull
    rw [hnil, Mealy.run_cons, hstep]
    have hbuf : r₀.buf ++ cs[k].payload = frameData cs := by
      rw [hr₀.buf, ← frameData_take_succ hk, htake]
    refine ⟨hcap, fun h => by simp [handOn, reset] at h, ?_, fun _ => ⟨rfl, hdropped⟩⟩
    simp [handOn, hdrop, hlast, hfull, Reassembly.completed, FrameInfo.completed, store, hbuf,
      hr₀.frameSeq, hr₀.framePts, hr₀.flags]
  · -- the frame goes on
    have hnext := hr₀.store_next hf hk
    have ih := hrest _ hnext (by omega)
    have hcap' : (r₀.store cs[k].payload).cap = r.cap := hcap
    have hiff : cs[k] :: D = cs.drop k ↔ D = cs.drop (k + 1) := by
      rw [hdrop, List.cons_inj_right]
    rw [Mealy.run_cons, hstep]
    refine ⟨ih.cap.trans hcap', ih.frameSeq, ?_, fun hw => ?_⟩
    · simpa only [handOn, hcap', hiff, List.nil_append] using ih.out
    · obtain ⟨hinactive, hdrops⟩ := ih.clean (by rwa [hcap', ← hiff])
      refine ⟨hinactive, fun h => ?_⟩
      exact (hdrops (Or.inr hnext.frameSeq)).trans (hdropped h)

/-- Delivering the rest of a frame whose first `k` chunks were taken. -/
theorem Collecting.passed {k : ℕ} {r : Reassembly} {D : List Chunk}
    (hr : Collecting info streamed cs k r) (hf : FrameChunks info streamed cs)
    (hcodec : info.codec = chunkCodecH265) (hk : k < cs.length) (hD : D.Sublist (cs.drop k)) :
    Passed info cs (D = cs.drop k ∧ (frameData cs).length ≤ r.cap) r
      (Mealy.run videoStep r D) := by
  induction D generalizing k r with
  | nil =>
    have hne : ¬ ([] = cs.drop k ∧ (frameData cs).length ≤ r.cap) := by
      intro hw
      have := congrArg List.length hw.1
      simp at this
      omega
    exact ⟨rfl, fun _ => hr.frameSeq, by rw [if_neg hne, Mealy.run_nil], fun hw => absurd hw hne⟩
  | cons d D ih =>
    rw [List.drop_eq_getElem_cons hk] at hD
    cases hD with
    | cons _ hD =>
      -- chunk `k` is missing
      have hlost : ¬ (d :: D = cs.drop k ∧ (frameData cs).length ≤ r.cap) := by
        intro hw
        have hlen := hD.length_le
        rw [hw.1] at hlen
        simp at hlen
        omega
      exact hf.passed_of_lost hcodec hlost ((List.sublist_cons_self d D).trans hD) rfl
        (by simp) (hr.videoStep_gap hf hcodec (hD.subset (by simp)))
    | cons_cons _ hD =>
      exact hr.passed_cons hf hcodec hk (hr.videoStep_next hf hcodec hk) rfl (fun _ => rfl) hD
        fun r' hr' hk' => ih hr' hk' hD

/-- **One frame**: whichever of a frame's chunks are delivered, it is completed once if all
of them are and they fit, and not otherwise. -/
theorem FrameChunks.run_frame (hf : FrameChunks info streamed cs)
    (hcodec : info.codec = chunkCodecH265) {r : Reassembly} {D : List Chunk}
    (hr : Foreign info.frameSeq r) (hD : D.Sublist cs) (hne : D ≠ []) :
    Passed info cs (D = cs ∧ (frameData cs).length ≤ r.cap) r (Mealy.run videoStep r D) := by
  have h0 := hf.length_pos
  have hcs : cs = cs[0] :: cs.drop 1 := by
    simpa using List.drop_eq_getElem_cons h0
  obtain ⟨d, D, rfl⟩ := List.exists_cons_of_ne_nil hne
  have hD' := hD
  rw [hcs] at hD'
  cases hD' with
  | cons _ hD' =>
    -- chunk 0 is missing
    have hlost : ¬ (d :: D = cs ∧ (frameData cs).length ≤ r.cap) := by
      intro hw
      have hlen := hD'.length_le
      rw [hw.1] at hlen
      simp at hlen
      omega
    have hd := hf.of_mem_drop (hD'.subset (List.mem_cons_self))
    have hidx : d.hdr.chunkIdx ≠ 0 := by
      intro h
      have := hd.2.2
      rw [h] at this
      exact absurd this (by simp)
    have hnew := isNewFrame_of_foreign hr hd.2.1
    have hstep : videoStep r d = (r.giveUp.refuse d.hdr, []) := by
      simp [videoStep, handOn, hd.1.trans hcodec, feed, hnew, hidx]
    exact hf.passed_of_lost hcodec hlost ((List.sublist_cons_self d D).trans hD') rfl
      (by simp) hstep
  | cons_cons _ hD' =>
    -- chunk 0 came, and what was being collected is given up for it
    have hstart := hf.collecting_start h0 r.giveUp
    refine hstart.passed_cons hf hcodec h0 (hf.videoStep_first hcodec hr) (by simp [start])
      ?_ hD' fun r' hr' hk' => hr'.passed hf hcodec hk' hD'
    intro h
    have hinactive : r.active = false := by
      rcases hr with hr | hr
      · exact hr
      · exact h.resolve_right hr
    simp [start, giveUp, hinactive]

end Frame

end Ar8030
