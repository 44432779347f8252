import Mathlib.Data.List.Destutter
import Mathlib.Data.List.Perm.Subperm
import Ar8030Transport.Wire.Loss

/-!
# The count of dropped frames

`dropped_frames` is bumped at four places of `ar8030_reassembly_feed`, and `note_dropped`
passes over a sequence number it has counted last. `DropLog` runs the reassembler and keeps,
for every increment, the frame it was made for: the increment of a give-up belongs to the
frame of the chunk fed before, any other to the chunk's own frame.

A frame is noted once its loss shows: a gap or a missing chunk 0 shows at once, and a
streamed frame whose end is missing is noted when the next frame comes. A frame sent whole
whose last chunks are missing is never noted, and of the noted frames those are counted
whose sequence number is not that of the noted frame before. `settled_run` says so for every
run; from it follows when the count is the number of frames lost.
-/

namespace Ar8030

namespace Reassembly

/-- The number `note_dropped` counted last. -/
def lastBad (r : Reassembly) : Option UInt16 := if r.haveLastBadSeq then some r.lastBadSeq else none

/-- A streamed frame is being collected, which the next frame's first chunk gives up. -/
def waiting (r : Reassembly) : Bool := r.active && !r.done && r.chunkCount == 0

/-- The state in which `feed` comes to the chunk's own frame. -/
def atOwnFrame (r : Reassembly) (hdr : ChunkHdr) : Reassembly :=
  if r.isNewFrame hdr then r.giveUp else r

theorem giveUp_eq (r : Reassembly) :
    r.giveUp = if r.waiting then r.noteDropped r.frameSeq else r := rfl

@[simp]
theorem lastBad_noteDropped (r : Reassembly) (s : UInt16) : (r.noteDropped s).lastBad = some s := by
  rw [noteDropped]
  split_ifs with h
  · simp only [Bool.and_eq_true, beq_iff_eq] at h
    simp [lastBad, h]
  · rfl

theorem droppedFrames_noteDropped (r : Reassembly) (s : UInt16) :
    (r.noteDropped s).droppedFrames = r.droppedFrames + if r.lastBad = some s then 0 else 1 := by
  have hiff : (r.haveLastBadSeq && r.lastBadSeq == s) = true ↔ r.lastBad = some s := by
    cases h : r.haveLastBadSeq <;> simp [lastBad, h]
  rw [noteDropped]
  simp only [hiff]
  split_ifs <;> rfl

theorem le_droppedFrames_noteDropped (r : Reassembly) (s : UInt16) :
    r.droppedFrames ≤ (r.noteDropped s).droppedFrames := by
  rw [droppedFrames_noteDropped]
  exact Nat.le_add_right _ _

theorem le_droppedFrames_giveUp (r : Reassembly) : r.droppedFrames ≤ r.giveUp.droppedFrames := by
  rw [giveUp]
  split_ifs
  · exact r.le_droppedFrames_noteDropped _
  · exact le_rfl

theorem le_droppedFrames_atOwnFrame (r : Reassembly) (hdr : ChunkHdr) :
    r.droppedFrames ≤ (r.atOwnFrame hdr).droppedFrames := by
  rw [atOwnFrame]
  split_ifs
  · exact r.le_droppedFrames_giveUp
  · exact le_rfl

theorem le_droppedFrames_extend (r : Reassembly) (hdr : ChunkHdr) (payload : List UInt8) :
    r.droppedFrames ≤ (r.extend hdr payload).2.droppedFrames := by
  rw [extend]
  split_ifs
  · exact r.le_droppedFrames_noteDropped _
  · exact r.le_droppedFrames_noteDropped _
  · exact le_rfl
  · exact le_rfl

theorem droppedFrames_handOn (p : Bool × Reassembly) :
    (handOn p).1.droppedFrames = p.2.droppedFrames := by
  rcases p with ⟨_ | _, r⟩ <;> rfl

/-- What comes after the give-up only adds to the count. -/
theorem atOwnFrame_le_droppedFrames (r : Reassembly) {c : Chunk}
    (hcodec : c.hdr.codec = chunkCodecH265) :
    (r.atOwnFrame c.hdr).droppedFrames ≤ (videoStep r c).1.droppedFrames := by
  rw [videoStep, if_pos hcodec, droppedFrames_handOn, atOwnFrame, feed]
  split_ifs
  · exact r.giveUp.le_droppedFrames_noteDropped _
  · exact (r.giveUp.start c.hdr).le_droppedFrames_extend c.hdr c.payload
  · exact r.le_droppedFrames_extend c.hdr c.payload

end Reassembly

open Reassembly

/-! ### Which frames are counted -/

/-- The reassembler, the frame of the chunk fed last, and the frames counted so far. -/
structure DropLog where
  reasm : Reassembly
  prev : ℕ
  counted : List ℕ
  deriving DecidableEq

/-- A reassembler that was fed nothing. -/
def DropLog.init (cap : ℕ) : DropLog := ⟨Reassembly.init cap, 0, []⟩

/-- Feed a chunk of frame `x.1`. -/
def DropLog.feed (s : DropLog) (x : ℕ × Chunk) : DropLog where
  reasm := (videoStep s.reasm x.2).1
  prev := x.1
  counted := s.counted ++
    List.replicate ((s.reasm.atOwnFrame x.2.hdr).droppedFrames - s.reasm.droppedFrames) s.prev ++
    List.replicate ((videoStep s.reasm x.2).1.droppedFrames -
      (s.reasm.atOwnFrame x.2.hdr).droppedFrames) x.1

/-- Feed the delivered chunks one after another. -/
def DropLog.run (s : DropLog) (delivered : List (ℕ × Chunk)) : DropLog :=
  delivered.foldl DropLog.feed s

@[simp]
theorem DropLog.run_nil (s : DropLog) : s.run [] = s := rfl

@[simp]
theorem DropLog.run_cons (s : DropLog) (x : ℕ × Chunk) (D : List (ℕ × Chunk)) :
    s.run (x :: D) = (s.feed x).run D := rfl

theorem DropLog.run_append (s : DropLog) (D E : List (ℕ × Chunk)) :
    s.run (D ++ E) = (s.run D).run E := List.foldl_append

/-- The log follows the reassembler. -/
theorem DropLog.reasm_run (s : DropLog) (D : List (ℕ × Chunk)) :
    (s.run D).reasm = (Mealy.run videoStep s.reasm (D.map Prod.snd)).1 := by
  induction D generalizing s with
  | nil => rfl
  | cons x D ih =>
    rw [DropLog.run_cons, ih]
    rfl

/-- The log of a run: every increment has its frame, and what is being collected is the
frame of the chunk fed last. -/
structure Logged (seq0 : UInt16) (s : DropLog) : Prop where
  droppedFrames : s.reasm.droppedFrames = s.counted.length
  frameSeq : s.reasm.active = true → s.reasm.frameSeq = seqOf seq0 s.prev

theorem logged_init (seq0 : UInt16) (cap : ℕ) : Logged seq0 (DropLog.init cap) :=
  ⟨rfl, fun h => by simp [DropLog.init, Reassembly.init] at h⟩

/-- Chunk `x` is a video chunk of the frame with number `x.1`. -/
def Tagged (seq0 : UInt16) (x : ℕ × Chunk) : Prop :=
  x.2.hdr.codec = chunkCodecH265 ∧ x.2.hdr.frameSeq = seqOf seq0 x.1

theorem Logged.feed {seq0 : UInt16} {s : DropLog} (h : Logged seq0 s) {x : ℕ × Chunk}
    (hx : Tagged seq0 x) : Logged seq0 (s.feed x) where
  droppedFrames := by
    have hown := s.reasm.le_droppedFrames_atOwnFrame x.2.hdr
    have hnew := s.reasm.atOwnFrame_le_droppedFrames hx.1
    have hd := h.droppedFrames
    simp only [DropLog.feed, List.length_append, List.length_replicate]
    omega
  frameSeq := by
    intro hactive
    change (videoStep s.reasm x.2).1.active = true at hactive
    change (videoStep s.reasm x.2).1.frameSeq = seqOf seq0 x.1
    rw [videoStep, if_pos hx.1] at hactive ⊢
    rcases hfeed : s.reasm.feed x.2.hdr x.2.payload with ⟨_ | _, r⟩
    · rcases s.reasm.feed_cases x.2.hdr x.2.payload with hlost | ⟨-, hseq, -⟩
      · rw [hfeed] at hactive hlost
        exact absurd (hlost.2.symm.trans hactive) (by simp)
      · rw [hfeed] at hseq
        exact hseq.trans hx.2
    · rw [hfeed] at hactive
      simp [handOn, reset] at hactive

theorem Logged.run {seq0 : UInt16} {s : DropLog} (h : Logged seq0 s) {D : List (ℕ × Chunk)}
    (hD : ∀ x ∈ D, Tagged seq0 x) : Logged seq0 (s.run D) := by
  induction D generalizing s with
  | nil => exact h
  | cons x D ih => exact ih (h.feed (hD x (by simp))) fun y hy => hD y (by simp [hy])

/-! ### Noting a frame -/

/-- The number counted last and the frames counted. -/
@[ext]
structure Tally where
  last : Option UInt16
  counted : List ℕ
  deriving DecidableEq

/-- `note_dropped` for a frame by its number. -/
def Tally.note (seq0 : UInt16) (t : Tally) (f : ℕ) : Tally :=
  if t.last = some (seqOf seq0 f) then t else ⟨some (seqOf seq0 f), t.counted ++ [f]⟩

@[simp]
theorem Tally.last_note (seq0 : UInt16) (t : Tally) (f : ℕ) :
    (t.note seq0 f).last = some (seqOf seq0 f) := by
  rw [Tally.note]
  split_ifs with h
  · exact h
  · rfl

/-- A frame noted again is not counted again. -/
@[simp]
theorem Tally.note_note (seq0 : UInt16) (t : Tally) (f : ℕ) :
    (t.note seq0 f).note seq0 f = t.note seq0 f := by
  conv_lhs => rw [Tally.note, if_pos (t.last_note seq0 f)]

/-- The tally of a reassembler, with the frames `counted`. -/
def Reassembly.tally (r : Reassembly) (counted : List ℕ) : Tally := ⟨r.lastBad, counted⟩

theorem tally_noteDropped {seq0 : UInt16} (r : Reassembly) (l : List ℕ) (f : ℕ) :
    (r.noteDropped (seqOf seq0 f)).tally
      (l ++ List.replicate ((r.noteDropped (seqOf seq0 f)).droppedFrames - r.droppedFrames) f) =
      (r.tally l).note seq0 f := by
  rw [droppedFrames_noteDropped, Nat.add_sub_cancel_left, Tally.note, Reassembly.tally]
  by_cases h : r.lastBad = some (seqOf seq0 f)
  · simp [Reassembly.tally, h]
  · simp [Reassembly.tally, h]

namespace DropLog

/-- What is noted so far. -/
def tally (s : DropLog) : Tally := s.reasm.tally s.counted

/-- What will be noted when the next frame comes. -/
def settled (seq0 : UInt16) (s : DropLog) : Tally :=
  if s.reasm.waiting then s.tally.note seq0 s.prev else s.tally

theorem settled_of_inactive {seq0 : UInt16} {s : DropLog} (h : s.reasm.active = false) :
    s.settled seq0 = s.tally := by
  simp [settled, waiting, h]

/-- Giving up what is waiting. -/
theorem tally_giveUp {seq0 : UInt16} {s : DropLog} (h : Logged seq0 s) :
    s.reasm.giveUp.tally
      (s.counted ++ List.replicate (s.reasm.giveUp.droppedFrames - s.reasm.droppedFrames) s.prev) =
      s.settled seq0 := by
  rw [settled, giveUp_eq]
  by_cases hw : s.reasm.waiting = true
  · have hactive : s.reasm.active = true := by
      simp only [waiting, Bool.and_eq_true] at hw
      exact hw.1.1
    rw [if_pos hw, if_pos hw, h.frameSeq hactive]
    exact tally_noteDropped s.reasm s.counted s.prev
  · rw [if_neg hw, if_neg hw, Nat.sub_self, List.replicate_zero, List.append_nil]
    rfl

/-- A chunk that notes nothing for its own frame. -/
theorem tally_feed_of_kept {s : DropLog} {x : ℕ × Chunk} {r : Reassembly}
    (hown : s.reasm.atOwnFrame x.2.hdr = r)
    (hlast : (videoStep s.reasm x.2).1.lastBad = r.lastBad)
    (hdropped : (videoStep s.reasm x.2).1.droppedFrames = r.droppedFrames) :
    (s.feed x).tally =
      r.tally (s.counted ++ List.replicate (r.droppedFrames - s.reasm.droppedFrames) s.prev) := by
  simp [tally, feed, hown, hlast, hdropped, Reassembly.tally]

/-- A chunk that is refused notes its own frame. -/
theorem tally_feed_of_refused {seq0 : UInt16} {s : DropLog} {x : ℕ × Chunk} {r : Reassembly}
    (hown : s.reasm.atOwnFrame x.2.hdr = r) (hstep : videoStep s.reasm x.2 = (r.refuse x.2.hdr, []))
    (hseq : x.2.hdr.frameSeq = seqOf seq0 x.1) :
    (s.feed x).tally =
      (r.tally (s.counted ++
        List.replicate (r.droppedFrames - s.reasm.droppedFrames) s.prev)).note seq0 x.1 := by
  rw [← tally_noteDropped, ← hseq]
  simp only [tally, feed, hown, hstep]
  rfl

end DropLog

/-! ### The chunks of one frame -/

/-- The loss of a frame with chunks `cs`, of which `D` came, shows to the reassembler: a
missing end shows for a streamed frame only. -/
def Noted {α : Type*} (streamed : Bool) (cs D : List α) : Prop :=
  D ≠ cs ∧ (streamed = true ∨ ¬ D <+: cs)

instance {α : Type*} [DecidableEq α] (streamed : Bool) (cs D : List α) :
    Decidable (Noted streamed cs D) :=
  inferInstanceAs (Decidable (_ ∧ _))

theorem noted_map_iff {α β : Type*} {f : α → β} (hinj : Function.Injective f) {streamed : Bool}
    {cs D : List α} : Noted streamed (cs.map f) (D.map f) ↔ Noted streamed cs D := by
  rw [Noted, Noted, List.prefix_map_iff_of_injective hinj, Ne,
    (List.map_injective_iff.mpr hinj).eq_iff]

/-- The tally after a frame. -/
def Tally.after (seq0 : UInt16) (streamed : Bool) (cs D : List Chunk) (k : ℕ) (t : Tally) : Tally :=
  if Noted streamed cs D then t.note seq0 k else t

/-- A chunk that came where it is due decides nothing. -/
theorem Tally.after_drop {seq0 : UInt16} {streamed : Bool} {cs D : List Chunk} {i : ℕ}
    (hi : i < cs.length) (k : ℕ) (t : Tally) :
    t.after seq0 streamed (cs.drop i) (cs[i] :: D) k =
      t.after seq0 streamed (cs.drop (i + 1)) D k := by
  have hiff : Noted streamed (cs[i] :: cs.drop (i + 1)) (cs[i] :: D) ↔
      Noted streamed (cs.drop (i + 1)) D := by
    rw [Noted, Noted, List.cons_prefix_cons, Ne, List.cons_inj_right]
    simp
  rw [List.drop_eq_getElem_cons hi, Tally.after, Tally.after]
  simp only [hiff]

section Frame

variable {seq0 : UInt16} {k : ℕ} {info : FrameInfo} {streamed : Bool} {cs : List Chunk}

/-- Once the frame is lost its other chunks change nothing. -/
theorem settled_run_lost {D : List Chunk} (hD : ∀ c ∈ D, Tagged seq0 (k, c))
    (hidx : ∀ c ∈ D, c.hdr.chunkIdx ≠ 0) {s : DropLog} (hr : s.reasm.active = false)
    (hlast : s.tally.last = some (seqOf seq0 k)) :
    (s.run (D.map (Prod.mk k))).settled seq0 = s.tally := by
  induction D generalizing s with
  | nil => exact DropLog.settled_of_inactive hr
  | cons c D ih =>
    obtain ⟨hcodec, hseq⟩ := hD c (by simp)
    have hgive : s.reasm.giveUp = s.reasm := by simp [giveUp, hr]
    have hown : s.reasm.atOwnFrame c.hdr = s.reasm := by
      rw [atOwnFrame, hgive, ite_self]
    have hstep : videoStep s.reasm c = (s.reasm.refuse c.hdr, []) := by
      have hnew : s.reasm.isNewFrame c.hdr = true := by simp [isNewFrame, hr]
      rw [videoStep, if_pos hcodec, Reassembly.feed, if_pos hnew, if_pos (hidx c (by simp)), hgive]
      rfl
    -- it is not counted again, since the frame is the one counted last
    have htally : (s.feed (k, c)).tally = s.tally := by
      rw [DropLog.tally_feed_of_refused (x := (k, c)) hown hstep hseq, Nat.sub_self,
        List.replicate_zero, List.append_nil]
      exact if_pos hlast
    have hinactive : (s.feed (k, c)).reasm.active = false := by
      change (videoStep s.reasm c).1.active = false
      rw [hstep]
      rfl
    rw [List.map_cons, DropLog.run_cons,
      ih (fun c' h' => hD c' (by simp [h'])) (fun c' h' => hidx c' (by simp [h'])) hinactive
        (htally ▸ hlast), htally]

/-- The next chunk of a frame that fits: `s` stands before it, and `r₀` is the reassembler
with the frame's first `i` chunks that `feed` extends. -/
theorem feed_next {i : ℕ} {s : DropLog} {r₀ : Reassembly} (hf : FrameChunks info streamed cs)
    (hr₀ : Collecting info streamed cs i r₀) (hdone : r₀.done = false) (hi : i < cs.length)
    (hfit : (frameData cs).length ≤ r₀.cap)
    (hstep : videoStep s.reasm cs[i] = handOn (r₀.extend cs[i].hdr cs[i].payload))
    (hown : (s.reasm.atOwnFrame cs[i].hdr).tally [] = r₀.tally [])
    (hdropped : (s.reasm.atOwnFrame cs[i].hdr).droppedFrames = r₀.droppedFrames) :
    (s.feed (k, cs[i])).tally =
        r₀.tally (s.counted ++ List.replicate (r₀.droppedFrames - s.reasm.droppedFrames) s.prev) ∧
      ((i + 1 = cs.length ∧ (s.feed (k, cs[i])).reasm.active = false) ∨
        (i + 1 < cs.length ∧ Collecting info streamed cs (i + 1) (s.feed (k, cs[i])).reasm ∧
          (s.feed (k, cs[i])).reasm.done = false ∧ (s.feed (k, cs[i])).reasm.cap = r₀.cap)) := by
  have hlastBad : (s.reasm.atOwnFrame cs[i].hdr).lastBad = r₀.lastBad := congrArg Tally.last hown
  have hroom : ¬ r₀.cap < (frameData (cs.take (i + 1))).length := by
    have := (@frameData_take_isPrefix cs (i + 1)).length_le
    omega
  rw [hr₀.extend_eq hf hi, if_neg hroom] at hstep
  have hreasm : (s.feed (k, cs[i])).reasm = (videoStep s.reasm cs[i]).1 := rfl
  rw [hreasm]
  split_ifs at hstep with hlast
  · have htally := DropLog.tally_feed_of_kept (s := s) (x := (k, cs[i])) rfl
      (by rw [hstep, hlastBad]; rfl) (by rw [hstep, hdropped]; rfl)
    rw [hstep]
    refine ⟨?_, Or.inl ⟨hlast, rfl⟩⟩
    rw [htally, hdropped]
    simp [Reassembly.tally, hlastBad]
  · have htally := DropLog.tally_feed_of_kept (s := s) (x := (k, cs[i])) rfl
      (by rw [hstep, hlastBad]; rfl) (by rw [hstep, hdropped]; rfl)
    rw [hstep]
    refine ⟨?_, Or.inr ⟨by omega, hr₀.store_next hf hi, hdone, rfl⟩⟩
    rw [htally, hdropped]
    simp [Reassembly.tally, hlastBad]

/-- A frame's chunks other than the first `i + 1` do not begin what is left after `i`. -/
theorem FrameChunks.not_isPrefix_of_mem_drop (hf : FrameChunks info streamed cs) {i : ℕ}
    (hi : i < cs.length) {d : Chunk} (hd : d ∈ cs.drop (i + 1)) (D : List Chunk) :
    ¬ d :: D <+: cs.drop i := by
  rw [List.drop_eq_getElem_cons hi, List.cons_prefix_cons]
  rintro ⟨rfl, -⟩
  have hidx := hf.chunkIdx i hi
  have := (hf.of_mem_drop hd).2.2
  omega

/-- A chunk of the frame is refused when chunk `i` is missing: the frame is noted, and no other
chunk of it changes that. -/
theorem settled_run_refused {d : Chunk} {D : List Chunk} {i : ℕ} {s : DropLog} {r : Reassembly}
    (hf : FrameChunks info streamed cs) (hcodec : info.codec = chunkCodecH265)
    (hseq : info.frameSeq = seqOf seq0 k) (hi : i < cs.length)
    (hD : (d :: D).Sublist (cs.drop (i + 1))) (hown : s.reasm.atOwnFrame d.hdr = r)
    (hstep : videoStep s.reasm d = (r.refuse d.hdr, [])) :
    (s.run ((d :: D).map (Prod.mk k))).settled seq0 =
      (r.tally (s.counted ++ List.replicate (r.droppedFrames - s.reasm.droppedFrames)
        s.prev)).after seq0 streamed (cs.drop i) (d :: D) k := by
  have hmem : ∀ c ∈ d :: D, c ∈ cs.drop (i + 1) := fun c hc => hD.subset hc
  have htag : ∀ c ∈ d :: D, Tagged seq0 (k, c) := fun c hc =>
    ⟨(hf.of_mem_drop (hmem c hc)).1.trans hcodec, (hf.of_mem_drop (hmem c hc)).2.1.trans hseq⟩
  have hidx : ∀ c ∈ d :: D, c.hdr.chunkIdx ≠ 0 := by
    intro c hc hzero
    have hlater := (hf.of_mem_drop (hmem c hc)).2.2
    rw [hzero] at hlater
    exact absurd hlater (by simp)
  have htally := DropLog.tally_feed_of_refused (x := (k, d)) hown hstep (htag d (by simp)).2
  have hnot := hf.not_isPrefix_of_mem_drop hi (hmem d (by simp)) D
  have hnoted : Noted streamed (cs.drop i) (d :: D) :=
    ⟨fun h => hnot (h ▸ List.prefix_refl _), Or.inr hnot⟩
  rw [List.map_cons, DropLog.run_cons, settled_run_lost (fun c hc => htag c (by simp [hc]))
    (fun c hc => hidx c (by simp [hc])), htally, Tally.after, if_pos hnoted]
  · change (videoStep s.reasm d).1.active = false
    rw [hstep]
    rfl
  · rw [htally]
    exact Tally.last_note ..

/-- Behind its last chunk a frame is settled. -/
theorem settled_run_last {D : List Chunk} {i : ℕ} {s : DropLog} (hlast : i = cs.length)
    (hinactive : s.reasm.active = false) (hD : D.Sublist (cs.drop i)) :
    (s.run (D.map (Prod.mk k))).settled seq0 = s.tally.after seq0 streamed (cs.drop i) D k := by
  rw [hlast, List.drop_length] at hD ⊢
  obtain rfl := List.sublist_nil.mp hD
  have hnot : ¬ Noted streamed ([] : List Chunk) [] := fun h => h.1 rfl
  rw [Tally.after, if_neg hnot, List.map_nil, DropLog.run_nil,
    DropLog.settled_of_inactive hinactive]

/-- Only a streamed frame waits for its end. -/
theorem waiting_of_collecting {i : ℕ} {r : Reassembly} (hf : FrameChunks info streamed cs)
    (hr : Collecting info streamed cs i r) (hdone : r.done = false) : r.waiting = streamed := by
  have hcount := hr.chunkCount
  have hpos := hf.length_pos
  cases streamed with
  | false =>
    have hne : r.chunkCount ≠ 0 := by
      intro h0
      simp [h0] at hcount
      omega
    simp [waiting, hne]
  | true =>
    have hzero : r.chunkCount = 0 := UInt16.toNat_inj.mp (by simpa using hcount)
    simp [waiting, hzero, hr.active, hdone]

/-- The rest of a frame whose first `i` chunks were taken. -/
theorem settled_run_collecting {D : List Chunk} {i : ℕ} {s : DropLog}
    (hf : FrameChunks info streamed cs) (hcodec : info.codec = chunkCodecH265)
    (hseq : info.frameSeq = seqOf seq0 k) (hr : Collecting info streamed cs i s.reasm)
    (hdone : s.reasm.done = false) (hprev : s.prev = k) (hi : i < cs.length)
    (hfit : (frameData cs).length ≤ s.reasm.cap) (hD : D.Sublist (cs.drop i)) :
    (s.run (D.map (Prod.mk k))).settled seq0 = s.tally.after seq0 streamed (cs.drop i) D k := by
  induction D generalizing i s with
  | nil =>
    have hwait := waiting_of_collecting hf hr hdone
    have hnoted : Noted streamed (cs.drop i) [] ↔ streamed = true := by
      simp [Noted, hi]
    simp only [List.map_nil, DropLog.run_nil, DropLog.settled, Tally.after, hnoted, hwait, hprev]
  | cons d D ih =>
    have hown : ∀ c ∈ cs.drop i, s.reasm.atOwnFrame c.hdr = s.reasm := by
      intro c hc
      have hsame : s.reasm.isNewFrame c.hdr = false := by
        simp [isNewFrame, hr.active, hr.frameSeq, (hf.of_mem_drop hc).2.1]
      simp [atOwnFrame, hsame]
    have hd := hown d (hD.subset (by simp))
    rw [List.drop_eq_getElem_cons hi] at hD
    cases hD with
    | cons _ hD =>
      -- chunk `i` is missing
      have hnoted := settled_run_refused hf hcodec hseq hi hD hd
        (hr.videoStep_gap hf hcodec (hD.subset (by simp)))
      rwa [Nat.sub_self, List.replicate_zero, List.append_nil] at hnoted
    | cons_cons _ hD =>
      obtain ⟨htally, hnext⟩ := feed_next (k := k) hf hr hdone hi hfit
        (hr.videoStep_next hf hcodec hi) (by rw [hd]) (by rw [hd])
      rw [Nat.sub_self, List.replicate_zero, List.append_nil] at htally
      rw [List.map_cons, DropLog.run_cons, Tally.after_drop hi]
      rcases hnext with ⟨hlast, hinactive⟩ | ⟨hlt, hcol, hdone', hcap⟩
      · rw [settled_run_last hlast hinactive hD, htally]
        rfl
      · rw [ih hcol hdone' rfl hlt (hcap ▸ hfit) hD, htally]
        rfl

/-- **One frame**: whichever of its chunks come, the frame before is given up if it waits
for its end, and this one is noted if its loss shows. -/
theorem settled_run_frame {D : List Chunk} {s : DropLog} (hf : FrameChunks info streamed cs)
    (hcodec : info.codec = chunkCodecH265) (hseq : info.frameSeq = seqOf seq0 k)
    (hs : Logged seq0 s) (hr : Foreign info.frameSeq s.reasm)
    (hfit : (frameData cs).length ≤ s.reasm.cap) (hD : D.Sublist cs) (hne : D ≠ []) :
    (s.run (D.map (Prod.mk k))).settled seq0 =
      (s.settled seq0).after seq0 streamed cs D k := by
  have h0 := hf.length_pos
  have hcs : cs = cs[0] :: cs.drop 1 := by
    simpa using List.drop_eq_getElem_cons h0
  obtain ⟨d, D, rfl⟩ := List.exists_cons_of_ne_nil hne
  have hmem : d ∈ cs := hD.subset (by simp)
  have hnew : s.reasm.isNewFrame d.hdr = true := isNewFrame_of_foreign hr (hf.frameSeq d hmem)
  have hown : s.reasm.atOwnFrame d.hdr = s.reasm.giveUp := if_pos hnew
  have hD' := hD
  rw [hcs] at hD'
  cases hD' with
  | cons _ hD' =>
    -- chunk 0 is missing
    have hidx : d.hdr.chunkIdx ≠ 0 := by
      intro hzero
      have hlater := (hf.of_mem_drop (hD'.subset (by simp : d ∈ d :: D))).2.2
      rw [hzero] at hlater
      exact absurd hlater (by simp)
    have hstep : videoStep s.reasm d = (s.reasm.giveUp.refuse d.hdr, []) := by
      rw [videoStep, if_pos ((hf.codec d hmem).trans hcodec), Reassembly.feed, if_pos hnew,
        if_pos hidx]
      rfl
    have hnoted := settled_run_refused hf hcodec hseq h0 hD' hown hstep
    rwa [DropLog.tally_giveUp hs, List.drop_zero] at hnoted
  | cons_cons _ hD' =>
    have hstart := hf.collecting_start h0 s.reasm.giveUp
    obtain ⟨htally, hnext⟩ := feed_next (k := k) (s := s) hf hstart rfl h0
      (by simpa [start] using hfit) (hf.videoStep_first hcodec hr) (by rw [hown]; rfl)
      (by rw [hown]; rfl)
    have htally' : (s.feed (k, cs[0])).tally = s.settled seq0 :=
      htally.trans (DropLog.tally_giveUp hs)
    have hafter := @Tally.after_drop seq0 streamed cs D 0 h0 k (s.settled seq0)
    rw [List.drop_zero] at hafter
    rw [List.map_cons, DropLog.run_cons, hafter]
    rcases hnext with ⟨hlast, hinactive⟩ | ⟨hlt, hcol, hdone, hcap⟩
    · rw [settled_run_last hlast hinactive hD', htally']
    · have hfit' : (frameData cs).length ≤ (s.feed (k, cs[0])).reasm.cap := by
        rw [hcap]
        simpa [start] using hfit
      rw [settled_run_collecting hf hcodec hseq hcol hdone rfl hlt hfit' hD', htally']

end Frame

/-! ### The frames of a run -/

/-- The frame is sent part by part. -/
def streamedAt (frames : List VideoFrame) (f : ℕ) : Bool := frames[f]?.any (·.body.isStreamed)

/-- The frames whose loss shows, of `n` frames from `k` on. -/
def notedFrames (frames : List VideoFrame) (sent delivered : List (ℕ × Chunk)) (k n : ℕ) : List ℕ :=
  (List.range' k n).filter fun f =>
    ofFrame f delivered ≠ [] ∧
      Noted (streamedAt frames f) (ofFrame f sent) (ofFrame f delivered)

/-- Later frames do not see the first frame's chunks. -/
theorem notedFrames_rest {frames : List VideoFrame} {rest D' : List (ℕ × Chunk)} {k n : ℕ}
    (cs D : List Chunk) :
    notedFrames frames (cs.map (Prod.mk k) ++ rest) (D.map (Prod.mk k) ++ D') (k + 1) n =
      notedFrames frames rest D' (k + 1) n := by
  apply List.filter_congr
  intro f hf
  have hne : k ≠ f := by
    have := (List.mem_range'_1.mp hf).1
    omega
  simp only [ofFrame_append, ofFrame_map_mk_of_ne hne, List.nil_append]

/-- The first frame is noted when the loss of its own chunks shows. -/
theorem noted_first_iff {streamed : Bool} {rest D' : List (ℕ × Chunk)} {k : ℕ} {cs D : List Chunk}
    (hrest : ∀ x ∈ rest, k + 1 ≤ x.1) (hD' : ∀ x ∈ D', k + 1 ≤ x.1) :
    (ofFrame k (D.map (Prod.mk k) ++ D') ≠ [] ∧
      Noted streamed (ofFrame k (cs.map (Prod.mk k) ++ rest))
        (ofFrame k (D.map (Prod.mk k) ++ D'))) ↔ D ≠ [] ∧ Noted streamed cs D := by
  rw [ofFrame_append, ofFrame_append, ofFrame_eq_nil hrest, ofFrame_eq_nil hD', ofFrame_map_mk,
    ofFrame_map_mk, List.append_nil, List.append_nil, noted_map_iff (Prod.mk_right_injective k)]
  simp

/-- What is noted of the first frame, and of the others. -/
theorem notedFrames_cons {frames : List VideoFrame} {streamed : Bool} {rest D' : List (ℕ × Chunk)}
    {k n : ℕ} {cs D : List Chunk} (hat : streamedAt frames k = streamed)
    (hrest : ∀ x ∈ rest, k + 1 ≤ x.1) (hD' : ∀ x ∈ D', k + 1 ≤ x.1) :
    notedFrames frames (cs.map (Prod.mk k) ++ rest) (D.map (Prod.mk k) ++ D') k (n + 1) =
      (if D ≠ [] ∧ Noted streamed cs D then [k] else []) ++
        notedFrames frames rest D' (k + 1) n := by
  rw [← notedFrames_rest cs D, notedFrames, List.range'_succ, List.filter_cons]
  simp only [noted_first_iff hrest hD', hat, decide_eq_true_eq]
  split_ifs <;> rfl

/-- The frame being collected is not frame `k`, nor one with the same sequence number. -/
theorem Logged.foreign {seq0 : UInt16} {s : DropLog} {k : ℕ} (hs : Logged seq0 s)
    (hpend : s.reasm.active = true → s.prev < k ∧ k < s.prev + 65536) :
    Foreign (seqOf seq0 k) s.reasm := by
  by_cases hactive : s.reasm.active = true
  · obtain ⟨hlt, hnear⟩ := hpend hactive
    right
    rw [hs.frameSeq hactive]
    exact seqOf_ne hlt hnear
  · exact Or.inl (Bool.eq_false_of_not_eq_true hactive)

theorem DropLog.prev_run {s : DropLog} {D : List (ℕ × Chunk)} {x : ℕ × Chunk}
    (hx : x ∈ D.getLast?) : (s.run D).prev = x.1 := by
  obtain ⟨E, rfl⟩ := List.getLast?_eq_some_iff.mp hx
  rw [DropLog.run_append]
  rfl

/-- **What a run notes.** Over frames from `k` on, whichever of their chunks are delivered,
exactly the frames are noted whose loss shows, in order. -/
theorem settled_run {seq0 : UInt16} {frames fs : List VideoFrame} {k : ℕ}
    {sent D : List (ℕ × Chunk)} {s : DropLog} (hfs : frames.drop k = fs)
    (hsent : sendFrames k (seqOf seq0 k) fs = some sent) (hD : D.Sublist sent)
    (hnear : D.IsChain Near) (hs : Logged seq0 s)
    (hpend : s.reasm.active = true → s.prev < k ∧ ∀ x ∈ D.head?, x.1 < s.prev + 65536)
    (hfit : ∀ f ∈ fs, f.body.data.length ≤ s.reasm.cap) :
    (s.run D).settled seq0 =
      (notedFrames frames sent D k fs.length).foldl (Tally.note seq0) (s.settled seq0) := by
  induction fs generalizing k sent D s with
  | nil =>
    obtain rfl := Option.some.inj hsent
    obtain rfl := List.sublist_nil.mp hD
    rfl
  | cons f fs ih =>
    obtain ⟨cs, rest, hframe, hdata, hrest, rfl⟩ := sendFrames_cons _ _ _ _ hsent
    rw [← seqOf_succ] at hrest
    -- what is delivered of frame `k` comes before anything of a later one
    obtain ⟨Dk, D', rfl, hDk, hD'⟩ := exists_split_delivered hD
    have hlater : ∀ x ∈ rest, k + 1 ≤ x.1 := fun x hx => le_of_mem_sendFrames hrest hx
    have hlater' : ∀ x ∈ D', k + 1 ≤ x.1 := fun x hx => hlater x (hD'.subset hx)
    have hat : streamedAt frames k = f.body.isStreamed := by
      have hget : frames[k]? = some f := by
        rw [← List.head?_drop, hfs]
        rfl
      simp [streamedAt, hget]
    have hfs' : frames.drop (k + 1) = fs := by
      rw [← List.tail_drop, hfs]
      rfl
    have hchain := List.isChain_append.mp hnear
    rw [List.length_cons, notedFrames_cons hat hlater hlater', List.foldl_append,
      DropLog.run_append]
    by_cases hnil : Dk = []
    · -- nothing of this frame came
      subst hnil
      rw [if_neg (by simp), List.map_nil, DropLog.run_nil, List.foldl_nil]
      refine ih hfs' hrest hD' hchain.2.1 hs (fun hactive => ?_) fun v hv => hfit v (by simp [hv])
      obtain ⟨hlt, hhead⟩ := hpend hactive
      exact ⟨by omega, by simpa using hhead⟩
    · have hlast := @mem_getLast?_map_mk k Dk hnil
      have hforeign : Foreign (f.info (seqOf seq0 k)).frameSeq s.reasm := by
        refine hs.foreign fun hactive => ?_
        obtain ⟨hlt, hhead⟩ := hpend hactive
        obtain ⟨d, Ds, rfl⟩ := List.exists_cons_of_ne_nil hnil
        exact ⟨hlt, hhead (k, d) (by simp)⟩
      have htag : ∀ x ∈ Dk.map (Prod.mk k), Tagged seq0 x := by
        intro x hx
        obtain ⟨c, hc, rfl⟩ := List.mem_map.mp hx
        exact ⟨hframe.codec c (hDk.subset hc), hframe.frameSeq c (hDk.subset hc)⟩
      have hcap : (s.run (Dk.map (Prod.mk k))).reasm.cap = s.reasm.cap := by
        rw [DropLog.reasm_run, List.map_map]
        simpa [Function.comp_def] using (hframe.run_frame rfl hforeign hDk hnil).cap
      have hframe' := settled_run_frame (k := k) hframe rfl rfl hs hforeign
        (hdata ▸ hfit f (by simp)) hDk hnil
      rw [ih hfs' hrest hD' hchain.2.1 (hs.run htag) (fun _ => ?_)
        (fun v hv => hcap ▸ hfit v (by simp [hv])), hframe', Tally.after]
      · simp only [ne_eq, hnil, not_false_eq_true, true_and]
        split_ifs <;> rfl
      · rw [DropLog.prev_run hlast]
        exact ⟨Nat.lt_succ_self k, fun x hx => hchain.2.2 _ hlast x hx⟩

/-! ### Counting the noted frames -/

/-- Two frames whose sequence numbers differ. -/
def SeqDiffers (seq0 : UInt16) (f g : ℕ) : Prop := seqOf seq0 f ≠ seqOf seq0 g

instance (seq0 : UInt16) : DecidableRel (SeqDiffers seq0) := fun f g =>
  inferInstanceAs (Decidable (seqOf seq0 f ≠ seqOf seq0 g))

theorem counted_foldl_note {seq0 : UInt16} (l : List ℕ) (f : ℕ) (acc : List ℕ) :
    (l.foldl (Tally.note seq0) ⟨some (seqOf seq0 f), acc ++ [f]⟩).counted =
      acc ++ l.destutter' (SeqDiffers seq0) f := by
  induction l generalizing f acc with
  | nil => rfl
  | cons g l ih =>
    rw [List.foldl_cons, Tally.note]
    by_cases h : seqOf seq0 f = seqOf seq0 g
    · rw [if_pos (congrArg some h), ih, List.destutter'_cons_neg _ (not_not.mpr h)]
    · rw [if_neg (fun h' => h (Option.some.inj h')), ih, List.destutter'_cons_pos _ h]
      simp

/-- Of the frames noted one after another those are counted whose sequence number is not
that of the frame counted before. -/
theorem counted_noted {seq0 : UInt16} (l : List ℕ) :
    (l.foldl (Tally.note seq0) ⟨none, []⟩).counted = l.destutter (SeqDiffers seq0) := by
  cases l with
  | nil => rfl
  | cons f l => exact counted_foldl_note l f []

/-- Noting further frames adds only such frames to the count. -/
theorem exists_counted_foldl_note {seq0 : UInt16} (l : List ℕ) (t : Tally) :
    ∃ m, (l.foldl (Tally.note seq0) t).counted = t.counted ++ m ∧ m.Sublist l := by
  induction l generalizing t with
  | nil => exact ⟨[], by simp, List.Sublist.refl _⟩
  | cons f l ih =>
    obtain ⟨m, hm, hsub⟩ := ih (t.note seq0 f)
    rw [List.foldl_cons, hm, Tally.note]
    split_ifs
    · exact ⟨m, rfl, hsub.cons _⟩
    · exact ⟨f :: m, by simp, hsub.cons_cons _⟩

/-- What waits to be given up is the frame of the chunk fed last. -/
theorem exists_counted_settled (seq0 : UInt16) (s : DropLog) :
    ∃ m, (s.settled seq0).counted = s.counted ++ m ∧ m.Sublist [s.prev] := by
  rw [DropLog.settled]
  split_ifs
  · exact exists_counted_foldl_note [s.prev] s.tally
  · exact ⟨[], by simp [DropLog.tally, Reassembly.tally], List.nil_sublist _⟩

/-! ### Completions -/

@[simp]
theorem completedFrames_noteDropped (r : Reassembly) (s : UInt16) :
    (r.noteDropped s).completedFrames = r.completedFrames := by
  rw [noteDropped]
  split_ifs <;> rfl

@[simp]
theorem completedFrames_giveUp (r : Reassembly) : r.giveUp.completedFrames = r.completedFrames := by
  rw [giveUp]
  split_ifs <;> simp

theorem completedFrames_extend (r : Reassembly) (hdr : ChunkHdr) (payload : List UInt8) :
    (handOn (r.extend hdr payload)).1.completedFrames =
      r.completedFrames + (handOn (r.extend hdr payload)).2.length := by
  rw [extend]
  split_ifs
  · exact completedFrames_noteDropped r hdr.frameSeq
  · exact completedFrames_noteDropped r hdr.frameSeq
  · rfl
  · rfl

theorem completedFrames_videoStep (r : Reassembly) (c : Chunk) :
    (videoStep r c).1.completedFrames = r.completedFrames + (videoStep r c).2.length := by
  rw [videoStep]
  split_ifs
  · rw [Reassembly.feed]
    split_ifs
    · simp [handOn, refuse, reset]
    · rw [completedFrames_extend]
      simp [start]
    · rw [completedFrames_extend]
  · rfl

/-- `completed_frames` counts what is handed on. -/
theorem completedFrames_run (r : Reassembly) (cs : List Chunk) :
    (Mealy.run videoStep r cs).1.completedFrames =
      r.completedFrames + (Mealy.run videoStep r cs).2.length := by
  induction cs generalizing r with
  | nil => rfl
  | cons c cs ih =>
    rw [Mealy.run_cons, ih, completedFrames_videoStep, List.length_append]
    omega

/-- The number of frames that arrive whole, when all fit. -/
theorem length_intactFrames {cap : ℕ} {seq0 : UInt16} {sent D : List (ℕ × Chunk)}
    {fs : List VideoFrame} (hfit : ∀ f ∈ fs, f.body.data.length ≤ cap) :
    (intactFrames cap seq0 sent D 0 fs).length =
      (List.range fs.length).countP (fun f => ofFrame f D = ofFrame f sent) := by
  rw [intactFrames, List.length_filterMap_eq_countP, List.range_eq_range',
    ← List.zipIdx_map_snd 0 fs,
    List.countP_map]
  apply List.countP_congr
  rintro ⟨f, j⟩ hmem
  have hf := hfit f (List.fst_mem_of_mem_zipIdx hmem)
  simp only [Function.comp_apply, decide_eq_true_eq]
  split_ifs with h
  · simpa using h.1
  · simpa [Intact, hf] using h

/-! ### Frames in sending order -/

section Order

variable {k : ℕ} {frameSeq : UInt16} {fs : List VideoFrame} {sent : List (ℕ × Chunk)}

/-- Frame numbers never go down. -/
theorem pairwise_sendFrames (h : sendFrames k frameSeq fs = some sent) :
    sent.Pairwise (fun x y => x.1 ≤ y.1) := by
  induction fs generalizing k frameSeq sent with
  | nil =>
    obtain rfl := Option.some.inj h
    exact List.Pairwise.nil
  | cons f fs ih =>
    obtain ⟨cs, rest, -, -, hrest, rfl⟩ := sendFrames_cons k frameSeq f fs h
    refine List.pairwise_append.mpr ⟨?_, ih hrest, fun x hx y hy => ?_⟩
    · exact List.pairwise_map.mpr (List.pairwise_of_forall fun _ _ => le_rfl)
    · obtain ⟨c, -, rfl⟩ := List.mem_map.mp hx
      exact Nat.le_of_succ_le (le_of_mem_sendFrames hrest hy)

/-- Every frame has a chunk. -/
theorem ofFrame_sendFrames_ne_nil (h : sendFrames k frameSeq fs = some sent) {f : ℕ} (hk : k ≤ f)
    (hf : f < k + fs.length) : ofFrame f sent ≠ [] := by
  induction fs generalizing k frameSeq sent with
  | nil => simp at hf; omega
  | cons v fs ih =>
    obtain ⟨cs, rest, hframe, -, hrest, rfl⟩ := sendFrames_cons k frameSeq v fs h
    rw [ofFrame_append]
    rcases Nat.eq_or_lt_of_le hk with rfl | hlt
    · rw [ofFrame_map_mk]
      have := hframe.length_pos
      intro hnil
      simp [List.append_eq_nil_iff] at hnil
      simp [hnil.1] at this
    · intro hnil
      exact ih hrest hlt (by simp at hf; omega) (List.append_eq_nil_iff.mp hnil).2

/-- A frame has one of the numbers given out. -/
theorem lt_of_mem_sendFrames (h : sendFrames k frameSeq fs = some sent) {x : ℕ × Chunk}
    (hx : x ∈ sent) : x.1 < k + fs.length := by
  induction fs generalizing k frameSeq sent with
  | nil =>
    obtain rfl := Option.some.inj h
    simp at hx
  | cons f fs ih =>
    obtain ⟨cs, rest, -, -, hrest, rfl⟩ := sendFrames_cons k frameSeq f fs h
    rw [List.length_cons]
    rcases List.mem_append.mp hx with hx | hx
    · obtain ⟨c, -, rfl⟩ := List.mem_map.mp hx
      change k < _
      omega
    · have := ih hrest hx
      omega

/-- The chunks carry their frame's sequence number. -/
theorem tagged_of_mem {seq0 : UInt16} (h : sendFrames 0 seq0 fs = some sent) {x : ℕ × Chunk}
    (hx : x ∈ sent) : Tagged seq0 x := by
  suffices hgen : ∀ {k : ℕ} {fs : List VideoFrame} {sent : List (ℕ × Chunk)},
      sendFrames k (seqOf seq0 k) fs = some sent → x ∈ sent → Tagged seq0 x from
    hgen (k := 0) (by simpa [seqOf] using h) hx
  intro k fs sent h hx
  induction fs generalizing k sent with
  | nil =>
    obtain rfl := Option.some.inj h
    simp at hx
  | cons f fs ih =>
    obtain ⟨cs, rest, hframe, -, hrest, rfl⟩ := sendFrames_cons _ _ f fs h
    rcases List.mem_append.mp hx with hx | hx
    · obtain ⟨c, hc, rfl⟩ := List.mem_map.mp hx
      exact ⟨hframe.codec c hc, hframe.frameSeq c hc⟩
    · exact ih (seqOf_succ seq0 k ▸ hrest) hx

/-- No frame after that of the last chunk delivered has a chunk delivered. -/
theorem le_of_ofFrame_ne_nil (h : sendFrames k frameSeq fs = some sent) {D : List (ℕ × Chunk)}
    (hD : D.Sublist sent) {x : ℕ × Chunk} (hx : x ∈ D.getLast?) {f : ℕ}
    (hf : ofFrame f D ≠ []) : f ≤ x.1 := by
  obtain ⟨E, rfl⟩ := List.getLast?_eq_some_iff.mp hx
  obtain ⟨y, hmem⟩ := List.exists_mem_of_ne_nil _ hf
  obtain ⟨hy, hyf⟩ := List.mem_filter.mp hmem
  obtain rfl : y.1 = f := by simpa using hyf
  have hpair := (pairwise_sendFrames h).sublist hD
  rcases List.mem_append.mp hy with hy | hy
  · exact (List.pairwise_append.mp hpair).2.2 y hy x (by simp)
  · rw [List.mem_singleton.mp hy]

end Order

/-! ### When every lost frame is counted -/

/-- Some chunk of frame `f` was delivered, but not all. -/
def PartlyDelivered (sent delivered : List (ℕ × Chunk)) (f : ℕ) : Prop :=
  ofFrame f delivered ≠ [] ∧ ofFrame f delivered ≠ ofFrame f sent

instance (sent delivered : List (ℕ × Chunk)) : DecidablePred (PartlyDelivered sent delivered) :=
  fun _ => inferInstanceAs (Decidable (_ ∧ _))

/-- Frame `f` was sent whole, and what was delivered of it lacks only chunks at its end. -/
def TailLost (frames : List VideoFrame) (sent delivered : List (ℕ × Chunk)) (f : ℕ) : Prop :=
  streamedAt frames f = false ∧ PartlyDelivered sent delivered f ∧
    ofFrame f delivered <+: ofFrame f sent

instance (frames : List VideoFrame) (sent delivered : List (ℕ × Chunk)) :
    DecidablePred (TailLost frames sent delivered) :=
  fun _ => inferInstanceAs (Decidable (_ ∧ _ ∧ _))

/-- The count after chunks of which the last is of frame `cur`: every frame before `cur` is
counted once if it lost a chunk and had one delivered, and not if it came whole, so that
drops and completions are the frames before `cur` of which anything came, besides what
`cur` itself has added. -/
structure DropsAccounted (sent delivered : List (ℕ × Chunk)) (cur : ℕ) (s : DropLog) : Prop where
  once : ∀ f < cur, PartlyDelivered sent delivered f → s.counted.count f = 1
  never : ∀ f < cur, ofFrame f delivered = ofFrame f sent → s.counted.count f = 0
  total : s.reasm.droppedFrames + s.reasm.completedFrames =
    (List.range cur).countP (fun f => ofFrame f delivered ≠ []) +
      (s.counted.count cur + if ofFrame cur delivered = ofFrame cur sent then 1 else 0)

/-- The loss of a frame shows unless it is the end of a frame sent whole. -/
theorem noted_iff {frames : List VideoFrame} {sent D : List (ℕ × Chunk)} {f : ℕ} :
    (ofFrame f D ≠ [] ∧ Noted (streamedAt frames f) (ofFrame f sent) (ofFrame f D)) ↔
      PartlyDelivered sent D f ∧ ¬ TailLost frames sent D f := by
  rw [TailLost, PartlyDelivered, Noted]
  cases streamedAt frames f
  · simp
    tauto
  · simp

section Account

variable {seq0 : UInt16} {cap : ℕ} {frames : List VideoFrame} {sent D : List (ℕ × Chunk)}
  {x : ℕ × Chunk}

/-- The frames noted before the current one. -/
def notedBefore (frames : List VideoFrame) (sent delivered : List (ℕ × Chunk)) (cur : ℕ) : List ℕ :=
  (List.range cur).filter fun f =>
    PartlyDelivered sent delivered f ∧ ¬ TailLost frames sent delivered f

theorem nodup_notedBefore (cur : ℕ) : (notedBefore frames sent D cur).Nodup :=
  List.nodup_range.filter _

/-- The noted frames are those before the current one and perhaps itself. -/
theorem exists_notedFrames_eq (hsent : sendFrames 0 seq0 frames = some sent) (hD : D.Sublist sent)
    (hx : x ∈ D.getLast?) :
    ∃ M, notedFrames frames sent D 0 frames.length = notedBefore frames sent D x.1 ++ M ∧
      ∀ f ∈ M, f = x.1 := by
  have hmem : x ∈ sent := hD.subset (List.mem_of_mem_getLast? hx)
  have hlt : x.1 < 0 + frames.length := lt_of_mem_sendFrames hsent hmem
  have hrange : List.range' 0 frames.length =
      List.range x.1 ++ List.range' x.1 (frames.length - x.1) := by
    have hadd : frames.length = x.1 + (frames.length - x.1) := by omega
    rw [List.range_eq_range', hadd, ← List.range'_append_1, Nat.zero_add, ← hadd]
  refine ⟨(List.range' x.1 (frames.length - x.1)).filter fun f => ofFrame f D ≠ [] ∧
    Noted (streamedAt frames f) (ofFrame f sent) (ofFrame f D), ?_, fun f hf => ?_⟩
  · rw [notedFrames, hrange, List.filter_append, notedBefore]
    simp only [noted_iff]
  · obtain ⟨hf, htouched⟩ := List.mem_filter.mp hf
    have hge := (List.mem_range'_1.mp hf).1
    have hle := le_of_ofFrame_ne_nil hsent hD hx (of_decide_eq_true htouched).1
    omega

/-- The frames counted, up to the current one. -/
theorem exists_counted_run (hsent : sendFrames 0 seq0 frames = some sent) (hD : D.Sublist sent)
    (hnear : D.IsChain Near) (hfit : ∀ f ∈ frames, f.body.data.length ≤ cap)
    (hx : x ∈ D.getLast?) :
    ∃ m m', ((DropLog.init cap).run D).counted ++ m =
        (notedBefore frames sent D x.1).destutter (SeqDiffers seq0) ++ m' ∧
      (∀ f ∈ m, f = x.1) ∧ ∀ f ∈ m', f = x.1 := by
  have hzero : seqOf seq0 0 = seq0 := by simp [seqOf]
  have hsettled := settled_run (s := DropLog.init cap) (k := 0) List.drop_zero
    (hzero.symm ▸ hsent) hD hnear
    (logged_init seq0 cap) (fun h => by simp [DropLog.init, Reassembly.init] at h) hfit
  obtain ⟨M, hM, hMcur⟩ := exists_notedFrames_eq hsent hD hx
  obtain ⟨m, hm, hmsub⟩ := exists_counted_settled seq0 ((DropLog.init cap).run D)
  have hinit : (DropLog.init cap).settled seq0 = ⟨none, []⟩ := rfl
  rw [hM, hinit, List.foldl_append] at hsettled
  obtain ⟨m', hm', hsub'⟩ := exists_counted_foldl_note M
    ((notedBefore frames sent D x.1).foldl (Tally.note seq0) ⟨none, []⟩)
  refine ⟨m, m', ?_, fun f hf => ?_, fun f hf => hMcur f (hsub'.subset hf)⟩
  · rw [← hm, hsettled, hm', counted_noted]
  · rw [← DropLog.prev_run (s := DropLog.init cap) hx]
    exact List.mem_singleton.mp (hmsub.subset hf)

theorem lt_of_mem_notedBefore {cur f : ℕ}
    (hf : f ∈ (notedBefore frames sent D cur).destutter (SeqDiffers seq0)) : f < cur :=
  List.mem_range.mp (List.mem_filter.mp ((List.destutter_sublist _ _).subset hf)).1

/-- How often a frame before the current one is counted. -/
theorem count_counted_run (hsent : sendFrames 0 seq0 frames = some sent) (hD : D.Sublist sent)
    (hnear : D.IsChain Near) (hfit : ∀ f ∈ frames, f.body.data.length ≤ cap)
    (hx : x ∈ D.getLast?) {f : ℕ} (hf : f < x.1) :
    ((DropLog.init cap).run D).counted.count f =
      ((notedBefore frames sent D x.1).destutter (SeqDiffers seq0)).count f := by
  obtain ⟨m, m', heq, hm, hm'⟩ := exists_counted_run hsent hD hnear hfit hx
  have hcount := congrArg (List.count f) heq
  have h0 : m.count f = 0 := List.count_eq_zero_of_not_mem fun h => by
    have := hm f h
    omega
  have h0' : m'.count f = 0 := List.count_eq_zero_of_not_mem fun h => by
    have := hm' f h
    omega
  rw [List.count_append, List.count_append] at hcount
  omega

/-- The count of all frames, that of the current one set apart. -/
theorem length_counted_run (hsent : sendFrames 0 seq0 frames = some sent) (hD : D.Sublist sent)
    (hnear : D.IsChain Near) (hfit : ∀ f ∈ frames, f.body.data.length ≤ cap)
    (hx : x ∈ D.getLast?) :
    ((DropLog.init cap).run D).counted.length =
      ((notedBefore frames sent D x.1).destutter (SeqDiffers seq0)).length +
        ((DropLog.init cap).run D).counted.count x.1 := by
  obtain ⟨m, m', heq, hm, hm'⟩ := exists_counted_run hsent hD hnear hfit hx
  have hall : ∀ {l : List ℕ}, (∀ f ∈ l, f = x.1) → l.count x.1 = l.length := fun h =>
    List.count_eq_length.mpr fun f hf => (h f hf).symm
  have hnone : ((notedBefore frames sent D x.1).destutter (SeqDiffers seq0)).count x.1 = 0 :=
    List.count_eq_zero_of_not_mem fun h => (Nat.lt_irrefl _ (lt_of_mem_notedBefore h))
  have hlen := congrArg List.length heq
  have hcount := congrArg (List.count x.1) heq
  rw [List.length_append, List.length_append] at hlen
  rw [List.count_append, List.count_append, hall hm, hall hm', hnone] at hcount
  omega

/-- Everything that came of the frames before the current one came whole or in part. -/
theorem countP_touched (hsent : sendFrames 0 seq0 frames = some sent) {cur : ℕ}
    (hcur : cur ≤ frames.length) :
    (List.range cur).countP (fun f => ofFrame f D ≠ []) =
      ((List.range cur).filter (PartlyDelivered sent D ·)).length +
        (List.range cur).countP (fun f => ofFrame f D = ofFrame f sent) := by
  induction cur with
  | zero => rfl
  | succ cur ih =>
    have hne : ofFrame cur sent ≠ [] := ofFrame_sendFrames_ne_nil hsent (Nat.zero_le _) (by omega)
    rw [List.range_succ, List.countP_append, List.filter_append, List.length_append,
      List.countP_append, ih (by omega)]
    by_cases hfull : ofFrame cur D = ofFrame cur sent
    · simp [PartlyDelivered, hfull, hne]
      omega
    · by_cases hnil : ofFrame cur D = []
      · simp [PartlyDelivered, hnil, Ne.symm hne]
      · simp [PartlyDelivered, hfull, hnil]
        omega

/-- The frames handed on are those before the current one that came whole, and perhaps the
current one. -/
theorem completedFrames_dropLog (hsent : sendFrames 0 seq0 frames = some sent)
    (hD : D.Sublist sent) (hnear : D.IsChain Near)
    (hfit : ∀ f ∈ frames, f.body.data.length ≤ cap) (hx : x ∈ D.getLast?) :
    ((DropLog.init cap).run D).reasm.completedFrames =
      (List.range x.1).countP (fun f => ofFrame f D = ofFrame f sent) +
        if ofFrame x.1 D = ofFrame x.1 sent then 1 else 0 := by
  have hzero : seqOf seq0 0 = seq0 := by simp [seqOf]
  have hlt : x.1 < 0 + frames.length :=
    lt_of_mem_sendFrames hsent (hD.subset (List.mem_of_mem_getLast? hx))
  have hout : (Mealy.run videoStep (Reassembly.init cap) (D.map Prod.snd)).2 =
      intactFrames cap seq0 sent D 0 frames :=
    run_delivered (hzero.symm ▸ hsent) hD hnear fun h => absurd h (by simp [Reassembly.init])
  have hadd : frames.length = (x.1 + 1) + (frames.length - (x.1 + 1)) := by omega
  -- nothing came of the frames after the current one
  have hrest : (List.range' (x.1 + 1) (frames.length - (x.1 + 1))).countP
      (fun f => ofFrame f D = ofFrame f sent) = 0 := by
    refine List.countP_eq_zero.mpr fun f hf heq => ?_
    obtain ⟨hge, hlt'⟩ := List.mem_range'_1.mp hf
    have hne := ofFrame_sendFrames_ne_nil hsent (Nat.zero_le f) (by omega)
    rw [← of_decide_eq_true heq] at hne
    have := le_of_ofFrame_ne_nil hsent hD hx hne
    omega
  rw [DropLog.reasm_run]
  change (Mealy.run videoStep (Reassembly.init cap) (D.map Prod.snd)).1.completedFrames = _
  rw [completedFrames_run, hout, length_intactFrames hfit, List.range_eq_range', hadd,
    ← List.range'_append_1, Nat.zero_add, List.countP_append, hrest, ← List.range_eq_range',
    List.range_succ, List.countP_append]
  simp [Reassembly.init, List.countP_cons]

/-- Without a lost tail of a frame sent whole, exactly the frames that came in part are
noted. -/
theorem notedBefore_eq {cur : ℕ} (htail : ∀ f < cur, ¬ TailLost frames sent D f) :
    notedBefore frames sent D cur = (List.range cur).filter (PartlyDelivered sent D ·) := by
  apply List.filter_congr
  intro f hf
  simp [htail f (List.mem_range.mp hf)]

end Account

/-- **The count of dropped frames.** Of frames that fit, sent with consecutive sequence
numbers, delete any chunks, such that any two chunks delivered one after the other belong to
frames fewer than 65536 apart. The frames before that of the chunk fed last are all
accounted for if and only if none of them was sent whole and lost only chunks at its end,
and no two of them that came in part, one after the other, have the same sequence number. -/
theorem drops_accounted_iff (frames : List VideoFrame) (seq0 : UInt16) (cap : ℕ)
    (hfit : ∀ f ∈ frames, f.body.data.length ≤ cap) :
    ∃ sent, sendFrames 0 seq0 frames = some sent ∧
      ∀ delivered : List (ℕ × Chunk), delivered.Sublist sent → delivered.IsChain Near →
        ∀ x ∈ delivered.getLast?,
          ((DropLog.init cap).run delivered).reasm.droppedFrames =
              ((DropLog.init cap).run delivered).counted.length ∧
            (DropsAccounted sent delivered x.1 ((DropLog.init cap).run delivered) ↔
              (∀ f < x.1, ¬ TailLost frames sent delivered f) ∧
                ((List.range x.1).filter (PartlyDelivered sent delivered ·)).IsChain
                  (SeqDiffers seq0)) := by
  obtain ⟨sent, hsent⟩ := exists_sendFrames 0 seq0 frames
  refine ⟨sent, hsent, fun D hD hnear x hx => ?_⟩
  have hcount := fun {f} (hf : f < x.1) => count_counted_run hsent hD hnear hfit hx hf
  have hlen : ((DropLog.init cap).run D).reasm.droppedFrames =
      ((DropLog.init cap).run D).counted.length :=
    ((logged_init seq0 cap).run fun y hy => tagged_of_mem hsent (hD.subset hy)).droppedFrames
  refine ⟨hlen, fun h => ?_, fun ⟨htail, hchain⟩ => ?_⟩
  · -- a frame that is not noted, or noted and not counted, has count 0
    have htail : ∀ f < x.1, ¬ TailLost frames sent D f := by
      intro f hf hlost
      have hone := h.once f hf hlost.2.1
      rw [hcount hf] at hone
      have hmem := List.count_pos_iff.mp (hone.symm ▸ Nat.one_pos)
      have hnoted := (List.mem_filter.mp ((List.destutter_sublist _ _).subset hmem)).2
      exact (of_decide_eq_true hnoted).2 hlost
    refine ⟨htail, ?_⟩
    rw [← notedBefore_eq htail]
    refine (List.destutter_eq_self_iff _ _).mp ?_
    refine (List.destutter_sublist _ _).eq_of_length_le ?_
    refine (List.Nodup.subperm (nodup_notedBefore x.1) fun f hf => ?_).length_le
    obtain ⟨hlt, hnoted⟩ := List.mem_filter.mp hf
    have hone := h.once f (List.mem_range.mp hlt) (of_decide_eq_true hnoted).1
    rw [hcount (List.mem_range.mp hlt)] at hone
    exact List.count_pos_iff.mp (hone.symm ▸ Nat.one_pos)
  · -- all that came in part are noted, and each differs from the one noted before
    have hall : (notedBefore frames sent D x.1).destutter (SeqDiffers seq0) =
        (List.range x.1).filter (PartlyDelivered sent D ·) := by
      rw [notedBefore_eq htail]
      exact List.destutter_of_isChain _ _ hchain
    refine ⟨fun f hf hpart => ?_, fun f hf hfull => ?_, ?_⟩
    · rw [hcount hf, hall]
      refine List.count_eq_one_of_mem (List.nodup_range.filter _) (List.mem_filter.mpr ?_)
      exact ⟨List.mem_range.mpr hf, decide_eq_true hpart⟩
    · rw [hcount hf, hall]
      refine List.count_eq_zero_of_not_mem fun hmem => ?_
      exact (of_decide_eq_true (List.mem_filter.mp hmem).2).2 hfull
    · have hlt : x.1 < 0 + frames.length :=
        lt_of_mem_sendFrames hsent (hD.subset (List.mem_of_mem_getLast? hx))
      rw [hlen, length_counted_run hsent hD hnear hfit hx, hall,
        completedFrames_dropLog hsent hD hnear hfit hx, countP_touched hsent (by omega)]
      omega

/-- The chunks of the sample frames. -/
def sampleSent : List (ℕ × Chunk) := (sendFrames 0 0xFFFF sampleFrames).getD []

/-- Of the sample frames the first loses its first chunk and is counted, the second comes
whole. -/
theorem drops_accounted_sample :
    (∀ f ∈ sampleFrames, f.body.data.length ≤ 3) ∧
      sendFrames 0 0xFFFF sampleFrames = some sampleSent ∧
        DropsAccounted sampleSent (sampleSent.drop 1) 1
          ((DropLog.init 3).run (sampleSent.drop 1)) := by
  have hfit : ∀ f ∈ sampleFrames, f.body.data.length ≤ 3 := by decide
  obtain ⟨sent, hsent, h⟩ := drops_accounted_iff sampleFrames 0xFFFF 3 hfit
  have hsent' : sent = sampleSent := by rw [sampleSent, hsent, Option.getD_some]
  subst hsent'
  have hlast : (1, (sampleSent.getLast (by decide +kernel)).2) ∈ (sampleSent.drop 1).getLast? := by
    decide +kernel
  refine ⟨hfit, hsent, ?_⟩
  exact (h _ (List.drop_sublist 1 _) (by decide +kernel) _ hlast).2.mpr (by decide +kernel)

/-- The first sample frame is sent whole in two chunks; when only its second chunk is lost it
is not counted. -/
theorem lost_tail_not_counted :
    (∀ f ∈ sampleFrames, f.body.data.length ≤ 3) ∧
      sendFrames 0 0xFFFF sampleFrames = some sampleSent ∧
        (sampleSent.eraseIdx 1).Sublist sampleSent ∧ (sampleSent.eraseIdx 1).IsChain Near ∧
          ((sampleSent.eraseIdx 1).getLast?.map Prod.fst = some 1 ∧
            ¬ DropsAccounted sampleSent (sampleSent.eraseIdx 1) 1
              ((DropLog.init 3).run (sampleSent.eraseIdx 1))) := by
  refine ⟨by decide, by decide +kernel, List.eraseIdx_sublist _ _, by decide +kernel,
    by decide +kernel, fun h => ?_⟩
  have hpart : PartlyDelivered sampleSent (sampleSent.eraseIdx 1) 0 := by decide +kernel
  have hzero : ((DropLog.init 3).run (sampleSent.eraseIdx 1)).counted.count 0 = 0 := by
    decide +kernel
  exact absurd (hzero.symm.trans (h.once 0 Nat.one_pos hpart)) (by decide)

end Ar8030
