import Mathlib.Data.List.Chain
import Ar8030Transport.Wire.FrameRun
import Ar8030Transport.Wire.Sender

/-!
# Reassembly under loss

Frames are sent one after another and any of their chunks may be lost. As long as no gap
between two delivered chunks is so long that the 16-bit sequence number comes round to the
same value, the reassembler completes exactly the frames that arrived whole and fit its
buffer, once each and in order.

The proof goes frame by frame with `FrameChunks.run_frame`. What it has to know about the
state between two frames is only that a frame still being collected is an earlier one, and
near enough for its sequence number to differ from the next one's.
-/

namespace Ar8030

/-- What is handed on for a frame that arrives whole. -/
def VideoFrame.completed (f : VideoFrame) (frameSeq : UInt16) : Completed where
  frameSeq := frameSeq
  framePts := f.framePts
  flags := f.flags
  data := f.body.data

/-- The chunks of frame `k`. -/
def ofFrame (k : ℕ) (chunks : List (ℕ × Chunk)) : List (ℕ × Chunk) := chunks.filter (·.1 == k)

/-- All chunks of frame `k` were delivered, and the frame fits. -/
def Intact (cap : ℕ) (sent delivered : List (ℕ × Chunk)) (k : ℕ) (f : VideoFrame) : Prop :=
  ofFrame k delivered = ofFrame k sent ∧ f.body.data.length ≤ cap

instance (cap : ℕ) (sent delivered : List (ℕ × Chunk)) (k : ℕ) (f : VideoFrame) :
    Decidable (Intact cap sent delivered k f) :=
  inferInstanceAs (Decidable (_ ∧ _))

/-- The sequence number of frame `k`, when frame 0 has `seq0`. -/
def seqOf (seq0 : UInt16) (k : ℕ) : UInt16 := seq0 + UInt16.ofNat k

/-- The frames that arrive whole, in sending order. -/
def intactFrames (cap : ℕ) (seq0 : UInt16) (sent delivered : List (ℕ × Chunk)) (k : ℕ)
    (fs : List VideoFrame) : List Completed :=
  (fs.zipIdx k).filterMap fun x =>
    if Intact cap sent delivered x.2 x.1 then some (x.1.completed (seqOf seq0 x.2)) else none

/-! ### Sequence numbers -/

theorem seqOf_succ (seq0 : UInt16) (k : ℕ) : seqOf seq0 (k + 1) = seqOf seq0 k + 1 := by
  simp [seqOf, UInt16.ofNat_add, UInt16.add_assoc]

/-- Frames fewer than 65536 apart have different sequence numbers. -/
theorem seqOf_ne {seq0 : UInt16} {j k : ℕ} (hlt : j < k) (hnear : k < j + 65536) :
    seqOf seq0 j ≠ seqOf seq0 k := by
  intro h
  rw [seqOf, seqOf, UInt16.add_right_inj, ← UInt16.toNat_inj] at h
  simp only [UInt16.toNat_ofNat'] at h
  omega

/-! ### Taking the frames apart -/

section Split

variable {k : ℕ} {frameSeq : UInt16} {fs : List VideoFrame} {rest D' : List (ℕ × Chunk)}

/-- Later frames' chunks are not frame `k`'s. -/
theorem ofFrame_eq_nil (hlater : ∀ x ∈ rest, k + 1 ≤ x.1) : ofFrame k rest = [] := by
  rw [ofFrame, List.filter_eq_nil_iff]
  intro x hx
  have := hlater x hx
  simp only [beq_iff_eq]
  omega

theorem ofFrame_map_mk (cs : List Chunk) : ofFrame k (cs.map (Prod.mk k)) = cs.map (Prod.mk k) := by
  rw [ofFrame, List.filter_eq_self]
  simp

theorem ofFrame_map_mk_of_ne {j : ℕ} (h : k ≠ j) (cs : List Chunk) :
    ofFrame j (cs.map (Prod.mk k)) = [] := by
  rw [ofFrame, List.filter_eq_nil_iff]
  simp [h]

theorem ofFrame_append (k : ℕ) (l m : List (ℕ × Chunk)) :
    ofFrame k (l ++ m) = ofFrame k l ++ ofFrame k m := List.filter_append ..

/-- The first frame is intact when its own chunks are all there. -/
theorem intact_first_iff {cap : ℕ} {f : VideoFrame} {cs D : List Chunk}
    (hrest : ∀ x ∈ rest, k + 1 ≤ x.1) (hD' : ∀ x ∈ D', k + 1 ≤ x.1) :
    Intact cap (cs.map (Prod.mk k) ++ rest) (D.map (Prod.mk k) ++ D') k f ↔
      D = cs ∧ f.body.data.length ≤ cap := by
  have hinj : Function.Injective (Prod.mk k : Chunk → ℕ × Chunk) := Prod.mk_right_injective k
  rw [Intact, ofFrame_append, ofFrame_append, ofFrame_eq_nil hrest, ofFrame_eq_nil hD',
    ofFrame_map_mk, ofFrame_map_mk, List.append_nil, List.append_nil,
    (List.map_injective_iff.mpr hinj).eq_iff]

/-- Later frames do not see the first frame's chunks. -/
theorem intactFrames_rest {cap : ℕ} {seq0 : UInt16} (cs D : List Chunk) :
    intactFrames cap seq0 (cs.map (Prod.mk k) ++ rest) (D.map (Prod.mk k) ++ D') (k + 1) fs =
      intactFrames cap seq0 rest D' (k + 1) fs := by
  apply List.filterMap_congr
  rintro ⟨f, j⟩ hmem
  have hj : k ≠ j := by
    have := (List.mem_zipIdx hmem).1
    omega
  have hiff : Intact cap (cs.map (Prod.mk k) ++ rest) (D.map (Prod.mk k) ++ D') j f ↔
      Intact cap rest D' j f := by
    rw [Intact, Intact, ofFrame_append, ofFrame_append, ofFrame_map_mk_of_ne hj,
      ofFrame_map_mk_of_ne hj, List.nil_append, List.nil_append]
  simp only [hiff]

end Split

/-- A sublist of a frame's chunks followed by later ones splits accordingly. -/
theorem exists_split_delivered {k : ℕ} {cs : List Chunk} {rest D : List (ℕ × Chunk)}
    (h : D.Sublist (cs.map (Prod.mk k) ++ rest)) :
    ∃ (Dk : List Chunk) (D' : List (ℕ × Chunk)),
      D = Dk.map (Prod.mk k) ++ D' ∧ Dk.Sublist cs ∧ D'.Sublist rest := by
  obtain ⟨D₁, D', rfl, h₁, h'⟩ := List.sublist_append_iff.mp h
  obtain ⟨Dk, hDk, rfl⟩ := List.sublist_map_iff.mp h₁
  exact ⟨Dk, D', rfl, hDk, h'⟩

/-! ### The run -/

/-- Two chunks delivered one after the other are of frames fewer than 65536 apart. -/
def Near (x y : ℕ × Chunk) : Prop := y.1 < x.1 + 65536

instance : DecidableRel Near := fun x y => inferInstanceAs (Decidable (y.1 < x.1 + 65536))

/-- A frame still being collected is an earlier one, and the next delivered chunk is near
it. -/
def Pending (seq0 : UInt16) (k : ℕ) (D : List (ℕ × Chunk)) (r : Reassembly) : Prop :=
  r.active = true → ∃ j < k, r.frameSeq = seqOf seq0 j ∧ ∀ x ∈ D.head?, x.1 < j + 65536

theorem Pending.foreign {seq0 : UInt16} {k : ℕ} {x : ℕ × Chunk} {D : List (ℕ × Chunk)}
    {r : Reassembly} (hr : Pending seq0 k (x :: D) r) (hx : x.1 = k) :
    Foreign (seqOf seq0 k) r := by
  by_cases hactive : r.active = true
  · obtain ⟨j, hj, hseq, hhead⟩ := hr hactive
    right
    rw [hseq]
    exact seqOf_ne hj (hx ▸ hhead x rfl)
  · exact Or.inl (Bool.eq_false_of_not_eq_true hactive)

/-- The last chunk delivered of a frame. -/
theorem mem_getLast?_map_mk {k : ℕ} {D : List Chunk} (h : D ≠ []) :
    (k, D.getLast h) ∈ (D.map (Prod.mk k)).getLast? := by
  rw [Option.mem_def, List.getLast?_map, List.getLast?_eq_some_getLast h]
  rfl

/-- What arrives of the first frame, and of the others. -/
theorem intactFrames_cons {cap : ℕ} {seq0 : UInt16} {rest D' : List (ℕ × Chunk)} {k : ℕ}
    {cs D : List Chunk} {f : VideoFrame} {fs : List VideoFrame}
    (hrest : ∀ x ∈ rest, k + 1 ≤ x.1) (hD' : ∀ x ∈ D', k + 1 ≤ x.1) :
    intactFrames cap seq0 (cs.map (Prod.mk k) ++ rest) (D.map (Prod.mk k) ++ D') k (f :: fs) =
      (if D = cs ∧ f.body.data.length ≤ cap then [f.completed (seqOf seq0 k)] else []) ++
        intactFrames cap seq0 rest D' (k + 1) fs := by
  rw [← intactFrames_rest cs D, intactFrames, List.zipIdx_cons, List.filterMap_cons]
  simp only [intact_first_iff hrest hD']
  split_ifs <;> rfl

theorem run_delivered {seq0 : UInt16} {fs : List VideoFrame} {k : ℕ}
    {sent D : List (ℕ × Chunk)} {r : Reassembly}
    (hsent : sendFrames k (seqOf seq0 k) fs = some sent) (hD : D.Sublist sent)
    (hnear : D.IsChain Near) (hr : Pending seq0 k D r) :
    (Mealy.run videoStep r (D.map Prod.snd)).2 = intactFrames r.cap seq0 sent D k fs := by
  induction fs generalizing k sent D r with
  | nil =>
    obtain rfl := Option.some.inj hsent
    obtain rfl := List.sublist_nil.mp hD
    rfl
  | cons f fs ih =>
    obtain ⟨cs, rest, hframe, hdata, hrest, rfl⟩ := sendFrames_cons _ _ _ _ hsent
    rw [← seqOf_succ] at hrest
    obtain ⟨Dk, D', rfl, hDk, hD'⟩ := exists_split_delivered hD
    have hlater : ∀ x ∈ rest, k + 1 ≤ x.1 := fun x hx => le_of_mem_sendFrames hrest hx
    rw [intactFrames_cons hlater fun x hx => hlater x (hD'.subset hx), List.map_append,
      Mealy.run_append]
    simp only [List.map_map, Function.comp_def, List.map_id']
    have hchain := List.isChain_append.mp hnear
    by_cases hnil : Dk = []
    · -- nothing of this frame came
      subst hnil
      have hne : ¬ ([] = cs ∧ f.body.data.length ≤ r.cap) := by
        rintro ⟨rfl, -⟩
        exact absurd hframe.length_pos (by simp)
      rw [if_neg hne]
      simp only [Mealy.run_nil, List.nil_append]
      refine ih hrest hD' hchain.2.1 fun hactive => ?_
      obtain ⟨j, hj, hseq, hhead⟩ := hr hactive
      exact ⟨j, by omega, hseq, by simpa using hhead⟩
    · have hforeign : Foreign (f.info (seqOf seq0 k)).frameSeq r := by
        obtain ⟨d, Ds, rfl⟩ := List.exists_cons_of_ne_nil hnil
        exact Pending.foreign (x := (k, d)) hr rfl
      have hpass := hframe.run_frame rfl hforeign hDk hnil
      have hcompleted : (f.info (seqOf seq0 k)).completed cs = f.completed (seqOf seq0 k) := by
        simp [FrameInfo.completed, VideoFrame.info, VideoFrame.completed, hdata]
      rw [hpass.out, hdata, hcompleted, ih hrest hD' hchain.2.1, hpass.cap]
      intro hactive
      -- the last chunk delivered of this frame and the next one after it
      exact ⟨k, by omega, hpass.frameSeq hactive,
        fun x hx => hchain.2.2 _ (mem_getLast?_map_mk hnil) x hx⟩

/-- **Reassembly under loss.** Of frames sent with consecutive sequence numbers, delete any
chunks, such that any two chunks delivered one after the other belong to frames fewer than
65536 apart. The completions are exactly the frames all of whose chunks were delivered and
that fit the buffer, each once and in sending order, with the frame's own bytes, pts and
flags. -/
theorem reassembly_under_loss (frames : List VideoFrame) (seq0 : UInt16) (cap : ℕ) :
    ∃ sent, sendFrames 0 seq0 frames = some sent ∧
      ∀ delivered : List (ℕ × Chunk), delivered.Sublist sent → delivered.IsChain Near →
        (Mealy.run videoStep (Reassembly.init cap) (delivered.map Prod.snd)).2 =
          intactFrames cap seq0 sent delivered 0 frames := by
  obtain ⟨sent, hsent⟩ := exists_sendFrames 0 seq0 frames
  have hzero : seqOf seq0 0 = seq0 := by simp [seqOf]
  refine ⟨sent, hsent, fun D hD hnear => ?_⟩
  exact run_delivered (r := Reassembly.init cap) (hzero.symm ▸ hsent) hD hnear
    fun hactive => absurd hactive (by simp [Reassembly.init])

/-- Of the sample frames the first loses a chunk and the second arrives whole. -/
theorem reassembly_under_loss_sample :
    ∃ sent, sendFrames 0 0xFFFF sampleFrames = some sent ∧
      (Mealy.run videoStep (Reassembly.init 3) ((sent.drop 1).map Prod.snd)).2 =
        [{ frameSeq := 0, framePts := 17667, flags := 0, data := [0x44, 0x55] }] := by
  obtain ⟨sent, hsent, h⟩ := reassembly_under_loss sampleFrames 0xFFFF 3
  have hsent' : sent = (sendFrames 0 0xFFFF sampleFrames).getD [] := by rw [hsent, Option.getD_some]
  have hnear : (sent.drop 1).IsChain Near := by
    rw [hsent']
    decide +kernel
  refine ⟨sent, hsent, ?_⟩
  rw [h _ (List.drop_sublist 1 sent) hnear, hsent']
  decide +kernel

end Ar8030
