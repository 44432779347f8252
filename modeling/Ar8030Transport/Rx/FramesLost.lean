import Mathlib.Order.Interval.Finset.Nat
import Ar8030Transport.Rx.Handover
import Ar8030Transport.Wire.Loss
import Ar8030Transport.Wire.Transport

/-!
# Lost frames

`rx/main.c` counts the frames that never came whole by the sequence numbers of those that did, and
puts the count into the timing SEI. A jump of 1000 or more is taken for a restart of the
transmitter.

What is counted is a sum over neighbouring frames (`countsLost_rxRun`), for any chunks. For the
frames of one transmitter, of which any chunks may be lost, it is the number of frames that did
not come whole between the first and the last that did (`frames_lost_exact`).
-/

namespace Ar8030

/-! ### The count -/

/-- What is taken to be lost between two frames with these sequence numbers. -/
def lostBetween (a b : UInt16) : ℕ :=
  if 1 < (b - a).toNat ∧ (b - a).toNat < 1000 then (b - a).toNat - 1 else 0

/-- What is taken to be lost among frames with these sequence numbers. -/
def lostAmong : List UInt16 → ℕ
  | a :: b :: seqs => lostBetween a b + lostAmong (b :: seqs)
  | _ => 0

theorem lostAmong_concat (seqs : List UInt16) (a b : UInt16) :
    lostAmong (seqs ++ [a] ++ [b]) = lostAmong (seqs ++ [a]) + lostBetween a b := by
  induction seqs with
  | nil => exact Nat.add_comm _ _
  | cons c seqs ih =>
    cases seqs with
    | nil =>
      show lostBetween c a + (lostBetween a b + 0) = lostBetween c a + 0 + lostBetween a b
      omega
    | cons d seqs =>
      simp only [List.cons_append, lostAmong] at ih ⊢
      rw [ih, Nat.add_assoc]

/-- What the loop's variables have to do with the frames completed. -/
structure CountsLost (s : RxState) (seqs : List UInt16) : Prop where
  last : (if s.haveLastFrameSeq then some s.lastFrameSeq else none) = seqs.getLast?
  lost : s.framesLost = UInt32.ofNat (lostAmong seqs)

/-- **One more frame** that is complete. -/
theorem CountsLost.countLost {s : RxState} {seqs : List UInt16} (h : CountsLost s seqs) :
    CountsLost s.countLost (seqs ++ [s.reasm.frameSeq]) := by
  obtain ⟨hlast, hlost⟩ := h
  refine ⟨by rw [List.getLast?_concat]; rfl, ?_⟩
  rw [RxState.countLost]
  dsimp only
  rcases List.eq_nil_or_concat' seqs with rfl | ⟨seqs, a, rfl⟩
  · have hfirst : s.haveLastFrameSeq = false := by
      cases hhave : s.haveLastFrameSeq with
      | false => rfl
      | true => rw [hhave] at hlast; simp at hlast
    rw [hfirst]
    exact hlost
  · rw [List.getLast?_concat] at hlast
    split_ifs at hlast with hhave
    rw [lostAmong_concat, lostBetween, UInt32.ofNat_add, ← hlost, Option.some.inj hlast]
    have hgap : ∀ gap : UInt16, (1 < gap ↔ 1 < gap.toNat) ∧ (gap < 1000 ↔ gap.toNat < 1000) :=
      fun gap => ⟨UInt16.lt_iff_toNat_lt, UInt16.lt_iff_toNat_lt⟩
    simp only [hhave, Bool.true_and, Bool.and_eq_true, decide_eq_true_eq, hgap]
    split_ifs with hbetween
    · refine congrArg (s.framesLost + ·) ?_
      rw [← UInt32.toNat_inj, UInt32.toNat_sub_of_le, UInt32.toNat_ofNat']
      · rw [UInt16.toNat_toUInt32]
        exact (Nat.mod_eq_of_lt (by omega)).symm
      · rw [UInt32.le_iff_toNat_le, UInt16.toNat_toUInt32]
        exact hbetween.1.le
    · exact (UInt32.add_zero _).symm

/-- One chunk counts if it completes a frame. -/
theorem CountsLost.step {timingSei : Bool} {s : RxState} {tr : List RxEvent}
    (h : CountsLost s ((framesOf tr).map Completed.frameSeq)) (input : Chunk × RxEnv) :
    CountsLost (rxStep timingSei s input).1
      ((framesOf (tr ++ (rxStep timingSei s input).2)).map Completed.frameSeq) := by
  rw [framesOf_append, (rxStep_videoStep timingSei s input).2, rxStep, videoStep]
  by_cases hcodec : input.1.hdr.codec = chunkCodecH265
  swap
  · simpa [hcodec] using h
  simp only [hcodec, if_true]
  rcases s.reasm.feed input.1.hdr input.1.payload with ⟨done, r⟩
  have hrestart : ∀ taken, CountsLost (RxState.restart { s with reasm := r } taken input.1.hdr)
      ((framesOf tr).map Completed.frameSeq) := by
    intro taken
    rw [RxState.restart]
    split_ifs
    · exact ⟨h.last, h.lost⟩
    · exact ⟨h.last, h.lost⟩
  have hreasm := reasm_restart { s with reasm := r } (isTaken r input.1.hdr) input.1.hdr
  have hs := hrestart (isTaken r input.1.hdr)
  revert hs hreasm
  generalize RxState.restart { s with reasm := r } (isTaken r input.1.hdr) input.1.hdr = s'
  intro hreasm hs
  cases done with
  | true =>
    have hcount := hs.countLost
    rw [hreasm] at hcount
    rw [List.map_append]
    exact ⟨hcount.last, hcount.lost⟩
  | false =>
    rw [handOn, List.append_nil]
    dsimp only
    rw [if_neg Bool.false_ne_true, RxState.forwardSlice]
    split_ifs
    · exact ⟨hs.last, hs.lost⟩
    · exact hs

/-- **Every run** counts what lies between the frames it completes. -/
theorem countsLost_rxRun (timingSei : Bool) (cap : ℕ) (inputs : List (Chunk × RxEnv)) :
    CountsLost (rxRun timingSei cap inputs).1
      ((framesOf (rxRun timingSei cap inputs).2).map Completed.frameSeq) :=
  Mealy.run_induction (rxStep timingSei)
    (motive := fun _ s tr => CountsLost s ((framesOf tr).map Completed.frameSeq))
    ⟨rfl, rfl⟩ (fun _ input _ _ h => h.step input) inputs

/-! ### The frames of one transmitter -/

/-- The numbers of the frames that arrive whole. -/
def intactNumbers (cap : ℕ) (sent delivered : List (ℕ × Chunk)) (fs : List VideoFrame) : List ℕ :=
  fs.zipIdx.filterMap fun x => if Intact cap sent delivered x.2 x.1 then some x.2 else none

theorem intactFrames_frameSeq (cap : ℕ) (seq0 : UInt16) (sent delivered : List (ℕ × Chunk))
    (fs : List VideoFrame) :
    (intactFrames cap seq0 sent delivered 0 fs).map Completed.frameSeq =
      (intactNumbers cap sent delivered fs).map (seqOf seq0) := by
  rw [intactFrames, intactNumbers, List.map_filterMap, List.map_filterMap]
  refine List.filterMap_congr fun x _ => ?_
  split_ifs <;> rfl

/-- They come in order. -/
theorem sortedLT_intactNumbers (cap : ℕ) (sent delivered : List (ℕ × Chunk))
    (fs : List VideoFrame) : (intactNumbers cap sent delivered fs).Pairwise (· < ·) := by
  have hnumbers : (fs.zipIdx.map Prod.snd).Pairwise (· < ·) := by
    rw [List.zipIdx_map_snd]
    exact List.pairwise_lt_range'
  refine List.Pairwise.filterMap _ (fun x y hxy => ?_) (List.pairwise_map.mp hnumbers)
  intro a ha b hb
  split_ifs at ha hb
  rwa [← Option.some.inj ha, ← Option.some.inj hb]

/-- Between two frames of one transmitter, the other frames are lost. -/
theorem lostBetween_seqOf (seq0 : UInt16) {i j : ℕ} (hlt : i < j) (hnear : j < i + 1000) :
    lostBetween (seqOf seq0 i) (seqOf seq0 j) = j - i - 1 := by
  have hgap : (seqOf seq0 j - seqOf seq0 i).toNat = j - i := by
    obtain ⟨d, rfl⟩ := Nat.exists_eq_add_of_le hlt.le
    have hsub : seqOf seq0 (i + d) - seqOf seq0 i = UInt16.ofNat d := by
      rw [seqOf, seqOf, UInt16.ofNat_add, ← UInt16.add_assoc, UInt16.add_comm,
        UInt16.add_sub_cancel]
    rw [hsub, UInt16.toNat_ofNat', Nat.add_sub_cancel_left]
    exact Nat.mod_eq_of_lt (by omega)
  rw [lostBetween, hgap]
  split_ifs with hbetween
  · rfl
  · omega

/-- The gaps add up. -/
theorem lostAmong_add_length (seq0 : UInt16) (i : ℕ) (numbers : List ℕ)
    (hlt : (i :: numbers).IsChain (· < ·))
    (hnear : (i :: numbers).IsChain fun a b => b < a + 1000) :
    lostAmong ((i :: numbers).map (seqOf seq0)) + (i :: numbers).length + i =
      (i :: numbers).getLast (by simp) + 1 := by
  induction numbers generalizing i with
  | nil => simp [lostAmong]; omega
  | cons j numbers ih =>
    rw [List.isChain_cons_cons] at hlt hnear
    have hrest := ih j hlt.2 hnear.2
    have hbetween := lostBetween_seqOf seq0 hlt.1 hnear.1
    simp only [List.map_cons, lostAmong, List.length_cons, List.getLast_cons_cons] at hrest ⊢
    omega

/-- The numbers that are missing between the first and the last. -/
theorem card_missing {i : ℕ} {numbers : List ℕ} (hlt : (i :: numbers).Pairwise (· < ·)) :
    (Finset.Icc i ((i :: numbers).getLast (by simp)) \ (i :: numbers).toFinset).card +
      (i :: numbers).length + i = (i :: numbers).getLast (by simp) + 1 := by
  have hle : ∀ x ∈ i :: numbers, i ≤ x := by
    intro x hx
    rcases List.mem_cons.mp hx with rfl | hx
    · exact le_rfl
    · exact (List.rel_of_pairwise_cons hlt hx).le
  have hlast : ∀ x ∈ i :: numbers, x ≤ (i :: numbers).getLast (by simp) := by
    intro x hx
    rw [← List.dropLast_append_getLast (List.cons_ne_nil i numbers), List.pairwise_append] at hlt
    rw [← List.dropLast_append_getLast (List.cons_ne_nil i numbers), List.mem_append] at hx
    rcases hx with hx | hx
    · exact (hlt.2.2 x hx _ (List.mem_singleton_self _)).le
    · exact (List.mem_singleton.mp hx).le
  have hsub : (i :: numbers).toFinset ⊆ Finset.Icc i ((i :: numbers).getLast (by simp)) := by
    intro x hx
    rw [List.mem_toFinset] at hx
    exact Finset.mem_Icc.mpr ⟨hle x hx, hlast x hx⟩
  have hcard := Finset.card_le_card hsub
  rw [Finset.card_sdiff_of_subset hsub] at *
  rw [List.toFinset_card_of_nodup (hlt.imp fun h => h.ne), Nat.card_Icc] at *
  have hi := hle _ (List.getLast_mem (List.cons_ne_nil i numbers))
  omega

/-- **The count of lost frames is exact.** Of the frames of one transmitter delete any chunks, and
let other traffic pass in between. As long as at most 998 frames in a row fail to come whole,
what `frames_lost` says at any time is how many frames between the first and the last that came
whole did not. -/
theorem frames_lost_exact (timingSei : Bool) (frames : List VideoFrame) (seq0 : UInt16) (cap : ℕ) :
    ∃ sent, sendFrames 0 seq0 frames = some sent ∧
      ∀ (delivered : List (ℕ × Chunk)) (inputs : List (Chunk × RxEnv)),
        delivered.Sublist sent → delivered.IsChain Near →
        (inputs.map Prod.fst).filter (fun c => c.hdr.codec == chunkCodecH265) =
          delivered.map Prod.snd →
        (intactNumbers cap sent delivered frames).IsChain (fun a b => b < a + 1000) →
        (intactNumbers cap sent delivered frames = [] →
          (rxRun timingSei cap inputs).1.framesLost = 0) ∧
        ∀ first last, (intactNumbers cap sent delivered frames).head? = some first →
          (intactNumbers cap sent delivered frames).getLast? = some last →
          (rxRun timingSei cap inputs).1.framesLost = UInt32.ofNat
            (Finset.Icc first last \ (intactNumbers cap sent delivered frames).toFinset).card := by
  obtain ⟨sent, hsent⟩ := exists_sendFrames 0 seq0 frames
  refine ⟨sent, hsent, fun delivered inputs hsub hnear hvideo hclose => ?_⟩
  have hzero : seqOf seq0 0 = seq0 := by simp [seqOf]
  have hlost := (countsLost_rxRun timingSei cap inputs).lost
  have hframes := run_delivered (r := Reassembly.init cap) (hzero.symm ▸ hsent) hsub hnear
    fun hactive => absurd hactive (by simp [Reassembly.init])
  rw [framesOf_rxRun, run_videoStep_filter, hvideo, hframes, Reassembly.init,
    intactFrames_frameSeq] at hlost
  have hsorted := sortedLT_intactNumbers cap sent delivered frames
  generalize intactNumbers cap sent delivered frames = numbers at hclose hlost hsorted ⊢
  refine ⟨fun hnil => ?_, fun first last hfirst hlast => ?_⟩
  · rw [hlost, hnil]
    rfl
  · obtain ⟨numbers, rfl⟩ := List.head?_eq_some_iff.mp hfirst
    obtain rfl := Option.some.inj ((List.getLast?_eq_some_getLast (by simp)).symm.trans hlast)
    have hsum := lostAmong_add_length seq0 first numbers hsorted.isChain hclose
    have hmissing := card_missing hsorted
    rw [hlost]
    refine congrArg UInt32.ofNat ?_
    omega

/-- Of four frames the two in the middle are lost. -/
theorem frames_lost_exact_sample :
    ∃ sent, sendFrames 0 0xFFFF (sampleFrames ++ sampleFrames) = some sent ∧
      (rxRun true 3 ((sent.filter fun x => x.1 == 0 || x.1 == 3).map
        fun x => (x.2, ⟨0, none, 0⟩))).1.framesLost = 2 := by
  obtain ⟨sent, hsent, h⟩ := frames_lost_exact true (sampleFrames ++ sampleFrames) 0xFFFF 3
  have hsent' : sent = (sendFrames 0 0xFFFF (sampleFrames ++ sampleFrames)).getD [] := by
    rw [hsent, Option.getD_some]
  have hlost := h (sent.filter fun x => x.1 == 0 || x.1 == 3)
    ((sent.filter fun x => x.1 == 0 || x.1 == 3).map fun x => (x.2, ⟨0, none, 0⟩))
    List.filter_sublist
  refine ⟨sent, hsent, ?_⟩
  subst hsent'
  refine ((hlost ?_ ?_ ?_).2 0 3 ?_ ?_).trans ?_ <;> decide +kernel

end Ar8030
