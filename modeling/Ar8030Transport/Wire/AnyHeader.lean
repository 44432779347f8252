import Ar8030Transport.Library.Mealy
import Ar8030Transport.Library.Trace
import Ar8030Transport.Wire.Frame
import Ar8030Transport.Wire.Reassembly

/-!
# Reassembly of chunks with any headers

The reassembler is fed whatever comes: any header fields, any payload of at most 65535
bytes, a reset after each completion. `Gathered` is what holds while a frame is being
collected: the last chunks fed are chunks 0, 1, … of it, each was taken, and the buffer is
their payload. As no frame has more than 65536 chunks, the 32-bit sum of the capacity check
never wraps.

A frame counted as 0 is ended by its `FRAME_END` chunk alone. The chunk index is 16 bits
wide, though, and after chunk 65535 its successor equals that 0.
-/

namespace Ar8030

open Trace Reassembly

/-! ### The run -/

/-- One chunk fed to the reassembler, with a reset after a completion. -/
def feedStep (r : Reassembly) (c : Chunk) : Reassembly × List Completed :=
  handOn (r.feed c.hdr c.payload)

/-- The reassembler after the chunks `fed`. -/
def fedState (cap : ℕ) (fed : List Chunk) : Reassembly :=
  (Mealy.run feedStep (Reassembly.init cap) fed).1

@[simp]
theorem fedState_nil (cap : ℕ) : fedState cap [] = Reassembly.init cap := rfl

theorem fedState_concat (cap : ℕ) (fed : List Chunk) (c : Chunk) :
    fedState cap (fed ++ [c]) = (handOn ((fedState cap fed).feed c.hdr c.payload)).1 := by
  rw [fedState, Mealy.run_concat]
  rfl

theorem cap_handOn (a : Bool × Reassembly) : (handOn a).1.cap = a.2.cap := by
  rcases a with ⟨done | done, r⟩
  · rfl
  · rfl

@[simp]
theorem cap_fedState (cap : ℕ) (fed : List Chunk) : (fedState cap fed).cap = cap := by
  induction fed using List.reverseRecOn with
  | nil => rfl
  | append_singleton fed c ih => rw [fedState_concat, cap_handOn, cap_feed, ih]

/-! ### What a completed frame has to be -/

/-- `run`, the last of the chunks `fed`, is a run of chunks 0, 1, … of one frame: its first
chunk started the frame, each was taken, and `buf` is their payload. -/
structure FrameOf (cap : ℕ) (fed before run : List Chunk) (frameSeq : UInt16)
    (buf : List UInt8) : Prop where
  split : fed = before ++ run
  frameSeq_eq : ∀ c ∈ run, c.hdr.frameSeq = frameSeq
  chunkIdx_eq : run.map (fun c => c.hdr.chunkIdx.toNat) = List.range run.length
  buf_eq : frameData run = buf
  start : ∀ c ∈ run.head?, (fedState cap before).isNewFrame c.hdr = true
  taken : Always (fun past c =>
    ((fedState cap (before ++ past)).feed c.hdr c.payload).2.active = true) run

/-- All chunks carry the count of the frame, and the first has no `FRAME_END`. -/
def Counted (run : List Chunk) : Prop :=
  (∀ c ∈ run, c.hdr.chunkCount.toNat = run.length) ∧
    ∀ c ∈ run.head?, hasFlag c.hdr.flags chunkFlagFrameEnd = false

/-- The last chunk has `FRAME_END` and carries the count, the chunks before it carry 0. -/
def Ended (run : List Chunk) : Prop :=
  (∀ c ∈ run.dropLast, c.hdr.chunkCount = 0) ∧
    ∃ last ∈ run.getLast?, hasFlag last.hdr.flags chunkFlagFrameEnd = true ∧
      last.hdr.chunkCount.toNat = run.length

/-- The frame the reassembler holds is a whole one: made of the last chunks fed, in order
and from its start, with the count or the end it announced. -/
def WholeFrame (cap : ℕ) (fed : List Chunk) (r : Reassembly) : Prop :=
  ∃ before run, run ≠ [] ∧ FrameOf cap fed before run r.frameSeq r.buf ∧
    (Counted run ∨ Ended run) ∧
    ∀ c ∈ run.head?, c.hdr.chunkCount = 0 →
      ∀ last ∈ run.getLast?, hasFlag last.hdr.flags chunkFlagFrameEnd = true

/-- Chunk 65535 of a frame that is counted as 0 is taken: the next index is 0 again. -/
structure CountsRound (r : Reassembly) (c : Chunk) : Prop where
  active : r.active = true
  frameSeq : c.hdr.frameSeq = r.frameSeq
  chunkCount : r.chunkCount = 0
  next : r.nextChunkIdx = 65535
  chunkIdx : c.hdr.chunkIdx = 65535
  count : c.hdr.chunkCount = 0
  room : r.buf.length + c.payload.length ≤ r.cap

/-! ### While a frame is being collected -/

section Gathered

variable {cap : ℕ} {fed before run : List Chunk}

/-- The reassembler has taken `run` and waits for more of the frame. -/
structure Gathered (cap : ℕ) (fed before run : List Chunk) (r : Reassembly) : Prop extends
    FrameOf cap fed before run r.frameSeq r.buf where
  active : r.active = true
  next : r.nextChunkIdx.toNat = run.length
  counts : (r.chunkCount = 0 ∧ ∀ c ∈ run, c.hdr.chunkCount = 0) ∨
    (run.length < r.chunkCount.toNat ∧ (∀ c ∈ run, c.hdr.chunkCount = r.chunkCount) ∧
      ∀ c ∈ run.head?, hasFlag c.hdr.flags chunkFlagFrameEnd = false)

theorem length_frameData_le (hlen : ∀ c ∈ run, c.payload.length ≤ chunkMaxPayload) :
    (frameData run).length ≤ run.length * chunkMaxPayload := by
  induction run with
  | nil => simp [frameData]
  | cons c cs ih =>
    have hc := hlen c (by simp)
    have hcs := ih fun d hd => hlen d (by simp [hd])
    rw [← List.singleton_append, frameData_append, List.length_append, List.length_append,
      Nat.add_mul]
    simp only [frameData, List.flatMap_singleton, List.length_singleton] at hcs ⊢
    omega

/-- The 32-bit sum of the capacity check is the true one. -/
theorem Gathered.length_lt {r : Reassembly} (h : Gathered cap fed before run r)
    (hlen : ∀ c ∈ fed, c.payload.length ≤ chunkMaxPayload) {payload : List UInt8}
    (hpayload : payload.length ≤ chunkMaxPayload) : r.buf.length + payload.length < 2 ^ 32 := by
  have hrun : (frameData run).length ≤ run.length * chunkMaxPayload :=
    length_frameData_le fun c hc => hlen c (by rw [h.split]; simp [hc])
  have hnext := r.nextChunkIdx.toNat_lt
  have hmul : run.length * chunkMaxPayload ≤ 65535 * chunkMaxPayload :=
    Nat.mul_le_mul_right _ (by rw [← h.next]; omega)
  rw [h.buf_eq] at hrun
  simp only [chunkMaxPayload] at *
  omega

theorem forall_mem_concat {P : Chunk → Prop} {c : Chunk} (h : ∀ d ∈ run, P d) (hc : P c) :
    ∀ d ∈ run ++ [c], P d :=
  List.forall_mem_append.mpr ⟨h, List.forall_mem_singleton.mpr hc⟩

theorem forall_head_concat {P : Chunk → Prop} {c : Chunk} (h : ∀ d ∈ run.head?, P d)
    (hc : run = [] → P c) : ∀ d ∈ (run ++ [c]).head?, P d := by
  intro d hd
  cases run with
  | nil =>
    obtain rfl : c = d := by simpa using hd
    exact hc rfl
  | cons a as => exact h d (by simpa using hd)

/-- One more chunk of the frame. -/
theorem FrameOf.concat {frameSeq : UInt16} {buf : List UInt8} {c : Chunk}
    (h : FrameOf cap fed before run frameSeq buf) (hseq : c.hdr.frameSeq = frameSeq)
    (hidx : c.hdr.chunkIdx.toNat = run.length)
    (hstart : run = [] → (fedState cap fed).isNewFrame c.hdr = true)
    (htaken : ((fedState cap fed).feed c.hdr c.payload).2.active = true) :
    FrameOf cap (fed ++ [c]) before (run ++ [c]) frameSeq (buf ++ c.payload) where
  split := by rw [h.split, List.append_assoc]
  frameSeq_eq := forall_mem_concat h.frameSeq_eq hseq
  chunkIdx_eq := by
    rw [List.map_append, h.chunkIdx_eq, List.length_append, List.length_singleton,
      List.range_succ, List.map_singleton, hidx]
  buf_eq := by
    rw [frameData_append, h.buf_eq]
    simp [frameData]
  start := by
    refine forall_head_concat h.start fun hnil => ?_
    have hfed : fed = before := by simpa [hnil] using h.split
    exact hfed ▸ hstart hnil
  taken := by
    refine h.taken.concat ?_
    rw [← h.split]
    exact htaken

/-- A frame whose last chunk has just come is a whole one. -/
theorem wholeFrame_of_frameOf {r : Reassembly} (hne : run ≠ [])
    (h : FrameOf cap fed before run r.frameSeq r.buf) (hcounts : Counted run ∨ Ended run) :
    WholeFrame cap fed r := by
  refine ⟨before, run, hne, h, hcounts, ?_⟩
  intro c hc hzero last hlast
  rcases hcounts with hall | ⟨-, last', hlast', hflag, -⟩
  · -- a count of 0 would be the length of the run
    have hlen := hall.1 c (List.mem_of_mem_head? hc)
    rw [hzero] at hlen
    exact absurd (List.length_eq_zero_iff.mp hlen.symm) hne
  · rw [Option.mem_def] at hlast hlast'
    rw [hlast] at hlast'
    obtain rfl : last = last' := by simpa using hlast'
    exact hflag

/-! ### One chunk -/

/-- A chunk is refused; or it is taken, and the frame waits for more; or it completes the
frame, rightly or by counting round. -/
inductive FeedOutcome (cap : ℕ) (fed : List Chunk) (c : Chunk) (b : Reassembly) :
    Bool × Reassembly → Prop
  | refused (r : Reassembly) (idle : r.active = false) (empty : r.buf = []) :
      FeedOutcome cap fed c b (false, r)
  | waiting (r : Reassembly) (before run : List Chunk) (ne : run ≠ []) (le : r.buf.length ≤ cap)
      (gathered : Gathered cap (fed ++ [c]) before run r) : FeedOutcome cap fed c b (false, r)
  | whole (r : Reassembly) (le : r.buf.length ≤ cap) (right : WholeFrame cap (fed ++ [c]) r) :
      FeedOutcome cap fed c b (true, r)
  | round (r : Reassembly) (le : r.buf.length ≤ cap) (wrap : CountsRound b c) :
      FeedOutcome cap fed c b (true, r)

theorem toNat_add_one_of_lt {x : UInt16} {n : ℕ} (hx : x.toNat = n) (hn : n < 65535) :
    (x + 1).toNat = n + 1 := by
  rw [UInt16.toNat_add, hx]
  exact Nat.mod_eq_of_lt (by simp; omega)

section Next

variable {b : Reassembly} {c : Chunk}

/-- The end of a streamed frame. -/
theorem Gathered.ended (h : Gathered cap fed before run b)
    (hidx : c.hdr.chunkIdx.toNat = run.length) (hend : b.frameEnd c.hdr = true) :
    Ended (run ++ [c]) := by
  simp only [frameEnd, Bool.and_eq_true, beq_iff_eq] at hend
  obtain ⟨⟨hzero, hflag⟩, hlast⟩ := hend
  refine ⟨?_, c, by simp, hflag, by rw [hlast, hidx, List.length_append]; rfl⟩
  rw [List.dropLast_concat]
  rcases h.counts with hz | hpos
  · exact hz.2
  · simp [hzero] at hpos

/-- The next index does not wrap if the frame has a count, or the index is not the last one. -/
theorem Gathered.toNat_next (h : Gathered cap fed before run b)
    (hlast : b.nextChunkIdx ≠ 65535 ∨ run.length < b.chunkCount.toNat) :
    (b.nextChunkIdx + 1).toNat = run.length + 1 := by
  refine toNat_add_one_of_lt h.next ?_
  rcases hlast with hlast | hlt
  · have hmax := b.nextChunkIdx.toNat_lt
    have hne : b.nextChunkIdx.toNat ≠ 65535 := fun heq => hlast (UInt16.toNat_inj.mp heq)
    rw [← h.next]
    omega
  · have hmax := b.chunkCount.toNat_lt
    omega

/-- A frame that is counted as 0 waits for more, up to index 65535. -/
theorem Gathered.concat_uncounted (h : Gathered cap fed before run b) (hzero : b.chunkCount = 0)
    (hall : ∀ d ∈ run, d.hdr.chunkCount = 0) (hcount : c.hdr.chunkCount = 0)
    (hframe : FrameOf cap (fed ++ [c]) before (run ++ [c]) b.frameSeq (b.buf ++ c.payload))
    (hlast : b.nextChunkIdx ≠ 65535) :
    (b.store c.payload).nextChunkIdx ≠ b.chunkCount ∧
      Gathered cap (fed ++ [c]) before (run ++ [c]) (b.store c.payload) := by
  have hnext := h.toNat_next (.inl hlast)
  constructor
  · intro heq
    have hnat := congrArg UInt16.toNat heq
    rw [store, hnext, hzero] at hnat
    exact Nat.succ_ne_zero _ hnat
  · exact ⟨hframe, h.active, by rw [List.length_append]; exact hnext,
      .inl ⟨hzero, forall_mem_concat hall hcount⟩⟩

/-- A frame of known length is complete with its last chunk, and waits for more before it. -/
theorem Gathered.concat_counted (h : Gathered cap fed before run b)
    (hlt : run.length < b.chunkCount.toNat)
    (hall : ∀ d ∈ run ++ [c], d.hdr.chunkCount = b.chunkCount)
    (hhead : ∀ d ∈ (run ++ [c]).head?, hasFlag d.hdr.flags chunkFlagFrameEnd = false)
    (hframe : FrameOf cap (fed ++ [c]) before (run ++ [c]) b.frameSeq (b.buf ++ c.payload)) :
    if (b.store c.payload).nextChunkIdx = b.chunkCount then Counted (run ++ [c])
    else Gathered cap (fed ++ [c]) before (run ++ [c]) (b.store c.payload) := by
  have hnext := h.toNat_next (.inr hlt)
  split_ifs with hdone
  · have hcountNat : b.chunkCount.toNat = run.length + 1 := by rw [← hdone]; exact hnext
    refine ⟨fun d hd => ?_, hhead⟩
    rw [hall d hd, hcountNat, List.length_append]
    rfl
  · have hne : b.chunkCount.toNat ≠ run.length + 1 := fun heq =>
      hdone (UInt16.toNat_inj.mp (hnext.trans heq.symm))
    refine ⟨hframe, h.active, by rw [List.length_append]; exact hnext, .inr ⟨?_, hall, hhead⟩⟩
    rw [List.length_append, List.length_singleton]
    exact lt_of_le_of_ne hlt hne.symm

/-- Extending a frame by a chunk with any header. -/
theorem Gathered.extend (h : Gathered cap fed before run b)
    (hcap : b.cap = cap) (hseq : c.hdr.frameSeq = b.frameSeq)
    (hstart : run = [] → (fedState cap fed).isNewFrame c.hdr = true ∧
      (b.chunkCount ≠ 0 → hasFlag c.hdr.flags chunkFlagFrameEnd = false))
    (hfeed : (fedState cap fed).feed c.hdr c.payload = b.extend c.hdr c.payload)
    (hlen : ∀ d ∈ fed ++ [c], d.payload.length ≤ chunkMaxPayload) :
    FeedOutcome cap fed c b (b.extend c.hdr c.payload) := by
  have hsum := h.length_lt (fun d hd => hlen d (by simp [hd])) (hlen c (by simp))
  rw [Reassembly.extend, Nat.mod_eq_of_lt hsum] at *
  by_cases hbad : c.hdr.chunkIdx ≠ b.nextChunkIdx ∨ c.hdr.chunkCount ≠ b.wantCount c.hdr
  · rw [if_pos hbad]
    exact .refused _ rfl rfl
  by_cases hroom : b.cap < b.buf.length + c.payload.length
  · rw [if_neg hbad, if_pos hroom]
    exact .refused _ rfl rfl
  rw [if_neg hbad, if_neg hroom] at hfeed ⊢
  rw [not_or, not_not, not_not] at hbad
  obtain ⟨hidx, hcount⟩ := hbad
  have hidx' : c.hdr.chunkIdx.toNat = run.length := by rw [hidx, h.next]
  have hle : (b.store c.payload).buf.length ≤ cap := by simpa [store, hcap] using hroom
  have htaken : ((fedState cap fed).feed c.hdr c.payload).2.active = true := by
    rw [hfeed]
    split <;> exact h.active
  have hframe := h.toFrameOf.concat hseq hidx' (fun hnil => (hstart hnil).1) htaken
  by_cases hend : b.frameEnd c.hdr = true
  · rw [if_pos (Or.inl hend)]
    exact .whole _ hle (wholeFrame_of_frameOf (by simp) hframe (.inr (h.ended hidx' hend)))
  have hwant : c.hdr.chunkCount = b.chunkCount := by rw [hcount, wantCount, if_neg hend]
  rcases h.counts with ⟨hzero, hall⟩ | ⟨hlt, hall, hhead⟩
  · by_cases hlast : b.nextChunkIdx = 65535
    · -- index 65535 of a frame counted as 0
      have hround : (b.store c.payload).nextChunkIdx = b.chunkCount := by
        rw [store, hlast, hzero]
        rfl
      rw [if_pos (Or.inr hround)]
      exact .round _ hle ⟨h.active, hseq, hzero, hlast, hidx.trans hlast, hwant.trans hzero,
        not_lt.mp hroom⟩
    · obtain ⟨hmore, hnext⟩ :=
        h.concat_uncounted hzero hall (hwant.trans hzero) hframe hlast
      rw [if_neg (not_or.mpr ⟨hend, hmore⟩)]
      exact .waiting _ before (run ++ [c]) (by simp) hle hnext
  · have hnext := h.concat_counted hlt (forall_mem_concat hall hwant)
      (forall_head_concat hhead fun hnil => (hstart hnil).2 fun hz => by simp [hz] at hlt) hframe
    by_cases hdone : (b.store c.payload).nextChunkIdx = b.chunkCount
    · rw [if_pos hdone] at hnext
      rw [if_pos (Or.inr hdone)]
      exact .whole _ hle (wholeFrame_of_frameOf (by simp) hframe (.inl hnext))
    · rw [if_neg hdone] at hnext
      rw [if_neg (not_or.mpr ⟨hend, hdone⟩)]
      exact .waiting _ before (run ++ [c]) (by simp) hle hnext

end Next

end Gathered

/-! ### The whole run -/

section Run

variable {cap : ℕ} {fed : List Chunk}

/-- Between two chunks the reassembler is idle, or it has gathered the start of a frame that
fits the buffer. -/
def Settled (cap : ℕ) (fed : List Chunk) : Prop :=
  ((fedState cap fed).active = false ∧ (fedState cap fed).buf = []) ∨
    ((fedState cap fed).buf.length ≤ cap ∧ ∃ before run,
      run ≠ [] ∧ Gathered cap fed before run (fedState cap fed))

/-- Chunk 0 of a frame that is not being collected opens an empty run. -/
theorem gathered_start (cap : ℕ) (fed : List Chunk) (r : Reassembly) (hdr : ChunkHdr) :
    Gathered cap fed fed [] (r.start hdr) where
  split := by simp
  frameSeq_eq := by simp
  chunkIdx_eq := rfl
  buf_eq := rfl
  start := by simp
  taken := always_nil
  active := rfl
  next := rfl
  counts := by
    by_cases hzero : (r.start hdr).chunkCount = 0
    · exact .inl ⟨hzero, by simp⟩
    · refine .inr ⟨?_, by simp, by simp⟩
      exact Nat.pos_of_ne_zero fun h => hzero (UInt16.toNat_inj.mp h)

theorem Settled.feed (h : Settled cap fed) {c : Chunk}
    (hlen : ∀ d ∈ fed ++ [c], d.payload.length ≤ chunkMaxPayload) :
    FeedOutcome cap fed c (fedState cap fed) ((fedState cap fed).feed c.hdr c.payload) := by
  have hcap := cap_fedState cap fed
  by_cases hnew : (fedState cap fed).isNewFrame c.hdr = true
  · by_cases hidx : c.hdr.chunkIdx ≠ 0
    · rw [Reassembly.feed, if_pos hnew, if_pos hidx]
      exact .refused _ rfl rfl
    have hfeed : (fedState cap fed).feed c.hdr c.payload =
        ((fedState cap fed).giveUp.start c.hdr).extend c.hdr c.payload := by
      rw [Reassembly.feed, if_pos hnew, if_neg hidx]
    have hout := (gathered_start cap fed (fedState cap fed).giveUp c.hdr).extend
      (by simp [Reassembly.start]) rfl (fun _ => ⟨hnew, fun hcount => ?_⟩) hfeed hlen
    · rw [hfeed]
      generalize ((fedState cap fed).giveUp.start c.hdr).extend c.hdr c.payload = out at hout
      cases hout with
      | refused r idle empty => exact .refused r idle empty
      | waiting r before run ne le gathered => exact .waiting r before run ne le gathered
      | whole r le right => exact .whole r le right
      | round r le wrap => exact absurd wrap.next (by simp [Reassembly.start])
    · -- with `FRAME_END` on its first chunk a frame is counted as 0
      by_contra hflag
      simp [Reassembly.start, hflag] at hcount
  · have hfeed : (fedState cap fed).feed c.hdr c.payload =
        (fedState cap fed).extend c.hdr c.payload := by
      rw [Reassembly.feed, if_neg hnew]
    obtain ⟨hactive, hseq⟩ : (fedState cap fed).active = true ∧
        c.hdr.frameSeq = (fedState cap fed).frameSeq := by
      simpa [isNewFrame] using hnew
    rcases h with ⟨hidle, -⟩ | ⟨-, before, run, hne, hgathered⟩
    · simp [hidle] at hactive
    · rw [hfeed]
      exact hgathered.extend hcap hseq (fun hnil => absurd hnil hne) hfeed hlen

theorem settled_fedState (hlen : ∀ c ∈ fed, c.payload.length ≤ chunkMaxPayload) :
    Settled cap fed := by
  induction fed using List.reverseRecOn with
  | nil => exact .inl ⟨rfl, rfl⟩
  | append_singleton fed c ih =>
    have hout := (ih fun d hd => hlen d (by simp [hd])).feed hlen
    have hnext := fedState_concat cap fed c
    generalize (fedState cap fed).feed c.hdr c.payload = out at hout hnext
    rw [Settled, hnext]
    cases hout with
    | refused r idle empty => exact .inl ⟨idle, empty⟩
    | waiting r before run ne le gathered => exact .inr ⟨le, before, run, ne, gathered⟩
    | whole r le right => exact .inl ⟨rfl, rfl⟩
    | round r le wrap => exact .inl ⟨rfl, rfl⟩

/-- Counting round completes the frame. -/
theorem CountsRound.feed_eq {r : Reassembly} {c : Chunk} (h : CountsRound r c) :
    (r.feed c.hdr c.payload).1 = true := by
  have hsame : ¬ r.isNewFrame c.hdr = true := by simp [isNewFrame, h.active, h.frameSeq]
  have hend : r.frameEnd c.hdr = false := by simp [frameEnd, h.count]
  have hok : ¬ (c.hdr.chunkIdx ≠ r.nextChunkIdx ∨ c.hdr.chunkCount ≠ r.wantCount c.hdr) := by
    simp [h.chunkIdx, h.next, wantCount, hend, h.count, h.chunkCount]
  have hroom : ¬ r.cap < (r.buf.length + c.payload.length) % 2 ^ 32 :=
    not_lt.mpr ((Nat.mod_le _ _).trans h.room)
  have hround : (r.store c.payload).nextChunkIdx = r.chunkCount := by
    rw [store, h.next, h.chunkCount]
    rfl
  rw [Reassembly.feed, if_neg hsame, Reassembly.extend, if_neg hok, if_neg hroom,
    if_pos (Or.inr hround)]

/-- A frame that ends with a chunk counted as 0 is not a whole one. -/
theorem not_wholeFrame_of_count {c : Chunk} (hcount : c.hdr.chunkCount = 0) (r : Reassembly) :
    ¬ WholeFrame cap (fed ++ [c]) r := by
  rintro ⟨before, run, hne, hframe, hcounts, -⟩
  have hlast : run.getLast? = some c := by
    have hsplit := congrArg List.getLast? hframe.split
    rwa [List.getLast?_concat, List.getLast?_append_of_ne_nil _ hne, eq_comm] at hsplit
  have hlen : c.hdr.chunkCount.toNat = run.length := by
    rcases hcounts with hall | ⟨-, last, hlast', -, hlen⟩
    · exact hall.1 c (List.mem_of_getLast? hlast)
    · rw [Option.mem_def, hlast] at hlast'
      obtain rfl : c = last := by simpa using hlast'
      exact hlen
  rw [hcount] at hlen
  exact hne (List.length_eq_zero_iff.mp hlen.symm)

/-- What a completed frame has to be, at one chunk of a run. -/
def CompletesWhole (cap : ℕ) (past : List Chunk) (c : Chunk) : Prop :=
  ((fedState cap past).feed c.hdr c.payload).1 = true →
    WholeFrame cap (past ++ [c]) ((fedState cap past).feed c.hdr c.payload).2

theorem Settled.completesWhole_iff (h : Settled cap fed) {c : Chunk}
    (hlen : ∀ d ∈ fed ++ [c], d.payload.length ≤ chunkMaxPayload) :
    CompletesWhole cap fed c ↔ ¬ CountsRound (fedState cap fed) c := by
  constructor
  · intro hwhole hround
    exact not_wholeFrame_of_count hround.count _ (hwhole hround.feed_eq)
  · intro hround
    have hout := h.feed hlen
    rw [CompletesWhole]
    generalize (fedState cap fed).feed c.hdr c.payload = out at hout ⊢
    intro hdone
    cases hout with
    | refused => exact absurd hdone (by simp)
    | waiting => exact absurd hdone (by simp)
    | whole r le right => exact right
    | round r le wrap => exact absurd wrap hround

/-- **Reassembly of any headers.** Whatever chunks of at most 65535 payload bytes are fed in
whatever order, what is stored never exceeds the buffer. Every completed frame is a whole
one exactly when no streamed frame reaches its chunk 65535 without an end: there the next
index is 0, and 0 is the count of such a frame. -/
theorem reassembly_any_header (cap : ℕ) {fed : List Chunk}
    (hlen : ∀ c ∈ fed, c.payload.length ≤ chunkMaxPayload) :
    Always (fun past c => (fedState cap past).buf.length ≤ cap ∧
      ((fedState cap past).feed c.hdr c.payload).2.buf.length ≤ cap) fed ∧
    (Always (CompletesWhole cap) fed ↔
      Always (fun past c => ¬ CountsRound (fedState cap past) c) fed) := by
  have hsettled : Always (fun past c => Settled cap past ∧
      ∀ d ∈ past ++ [c], d.payload.length ≤ chunkMaxPayload) fed := by
    intro past c post heq
    have hpast : ∀ d ∈ past ++ [c], d.payload.length ≤ chunkMaxPayload := by
      intro d hd
      exact hlen d (by rw [heq]; simp only [List.mem_append, List.mem_singleton] at hd; grind)
    exact ⟨settled_fedState fun d hd => hpast d (by simp [hd]), hpast⟩
  refine ⟨fun past c post heq => ?_, ?_, ?_⟩
  · obtain ⟨hpast, hlen'⟩ := hsettled past c post heq
    refine ⟨?_, ?_⟩
    · rcases hpast with ⟨-, hempty⟩ | ⟨hle, -⟩
      · rw [hempty]
        exact Nat.zero_le _
      · exact hle
    · have hout := hpast.feed hlen'
      generalize (fedState cap past).feed c.hdr c.payload = out at hout ⊢
      cases hout with
      | refused r idle empty => rw [empty]; exact Nat.zero_le _
      | waiting r before run ne le gathered => exact le
      | whole r le right => exact le
      | round r le wrap => exact le
  · intro h past c post heq
    obtain ⟨hpast, hlen'⟩ := hsettled past c post heq
    exact (hpast.completesWhole_iff hlen').mp (h past c post heq)
  · intro h past c post heq
    obtain ⟨hpast, hlen'⟩ := hsettled past c post heq
    exact (hpast.completesWhole_iff hlen').mpr (h past c post heq)

end Run

/-! ### A frame without an end -/

/-- Chunk `k` of a streamed frame, one byte of payload. -/
def endlessChunk (k : ℕ) : Chunk where
  hdr :=
    { magic := chunkMagic
      frameSeq := 7
      chunkIdx := UInt16.ofNat k
      chunkCount := 0
      payloadLen := 1
      flags := 0
      codec := chunkCodecH265
      framePts := 0
      checksum := 0xE1F0
      reserved := 0 }
  payload := [0]

/-- The first `n` chunks of that frame. -/
def endlessChunks (n : ℕ) : List Chunk := (List.range n).map endlessChunk

/-- The reassembler after the first `n` chunks of it. -/
def endlessState (n : ℕ) : Reassembly where
  buf := List.replicate n 0
  cap := 1048576
  frameSeq := 7
  chunkCount := 0
  nextChunkIdx := UInt16.ofNat n
  framePts := 0
  flags := 0
  active := true
  done := false
  completedFrames := 0
  droppedFrames := 0
  lastBadSeq := 0
  haveLastBadSeq := false

theorem endlessChunks_succ (n : ℕ) :
    endlessChunks (n + 1) = endlessChunks n ++ [endlessChunk n] := by
  simp [endlessChunks, List.range_succ]

theorem feed_endless {n : ℕ} (hn : n < 65535) :
    (endlessState n).feed (endlessChunk n).hdr (endlessChunk n).payload =
      (false, endlessState (n + 1)) := by
  have hnext : UInt16.ofNat n + 1 = UInt16.ofNat (n + 1) := (UInt16.ofNat_add n 1).symm
  have hmore : UInt16.ofNat (n + 1) ≠ 0 := by
    intro h
    have hnat := congrArg UInt16.toNat h
    rw [UInt16.toNat_ofNat'] at hnat
    simp at hnat
    omega
  have hend : (endlessState n).frameEnd (endlessChunk n).hdr = false := by
    simp [frameEnd, endlessChunk]
  have hok : ¬ ((endlessChunk n).hdr.chunkIdx ≠ (endlessState n).nextChunkIdx ∨
      (endlessChunk n).hdr.chunkCount ≠ (endlessState n).wantCount (endlessChunk n).hdr) := by
    rw [wantCount, hend, not_or, not_not, not_not]
    exact ⟨rfl, rfl⟩
  have hroom : ¬ (endlessState n).cap <
      ((endlessState n).buf.length + (endlessChunk n).payload.length) % 2 ^ 32 := by
    simp only [endlessState, endlessChunk, List.length_replicate, List.length_singleton]
    omega
  have hwait : ¬ (false = true ∨
      ((endlessState n).store (endlessChunk n).payload).nextChunkIdx =
        (endlessState n).chunkCount) := by
    rintro (h | h)
    · exact absurd h (by decide)
    · exact hmore (hnext.symm.trans h)
  rw [Reassembly.feed, if_neg (by simp [isNewFrame, endlessState, endlessChunk]),
    Reassembly.extend, if_neg hok, if_neg hroom, hend, if_neg hwait]
  simp only [store, endlessState, endlessChunk, hnext, List.replicate_succ']

/-- The chunks of that frame are taken one after another. -/
theorem fedState_endless {n : ℕ} (hn : n < 65535) :
    fedState 1048576 (endlessChunks (n + 1)) = endlessState (n + 1) := by
  induction n with
  | zero => decide
  | succ n ih =>
    rw [endlessChunks_succ, fedState_concat, ih (by omega), feed_endless (by omega)]
    rfl

theorem room_endless {n : ℕ} (hn : n < 1048576) :
    (endlessState n).buf.length + (endlessChunk n).payload.length ≤ (endlessState n).cap := by
  have hlen : (endlessState n).buf.length = n := List.length_replicate
  rw [hlen]
  exact hn

/-- Chunk 65535 completes the frame, though it has no `FRAME_END`. -/
theorem not_completesWhole_endless :
    (∀ c ∈ endlessChunks 65536, c.payload.length ≤ chunkMaxPayload) ∧
      ¬ Always (CompletesWhole 1048576) (endlessChunks 65536) := by
  refine ⟨?_, fun h => ?_⟩
  · intro c hc
    obtain ⟨k, -, rfl⟩ := List.mem_map.mp hc
    simp [endlessChunk, chunkMaxPayload]
  · have hround : CountsRound (fedState 1048576 (endlessChunks 65535)) (endlessChunk 65535) := by
      have hstate : fedState 1048576 (endlessChunks 65535) = endlessState 65535 :=
        fedState_endless (by omega : 65534 < 65535)
      rw [hstate]
      exact ⟨rfl, rfl, rfl, rfl, rfl, rfl, room_endless (by decide)⟩
    have hwhole := h _ _ [] (endlessChunks_succ 65535)
    exact not_wholeFrame_of_count hround.count _ (hwhole hround.feed_eq)

/-- The chunk that ends that frame behind its first one. -/
def endingChunk : Chunk :=
  { endlessChunk 1 with
    hdr := { (endlessChunk 1).hdr with chunkCount := 2, flags := chunkFlagFrameEnd } }

theorem reassembly_any_header_streamed :
    Always (CompletesWhole 16) [endlessChunk 0, endingChunk] := by
  refine (reassembly_any_header 16 (by decide)).2.mpr ?_
  have hfirst : Always (fun past c => ¬ CountsRound (fedState 16 past) c) [endlessChunk 0] :=
    always_nil.concat fun h => absurd h.active (by decide)
  exact hfirst.concat fun h => absurd h.chunkIdx (by decide)

end Ar8030
