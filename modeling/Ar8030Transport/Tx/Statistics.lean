import Mathlib.Data.List.Forall2
import Ar8030Transport.Tx.Discipline

/-!
# The sender's statistics

`frames_in`, `frames_complete` and `frames_incomplete` of the loop of `tx/main.c`. The verdict
on a frame is made from sums of counts: a streamed frame is complete if the chunks written of
its parts are as many as the chunks its parts needed. `txVerdicts` reads the verdicts off a
run, one for each increment of `frame_seq`.

A part that `ar8030_chunk_part` refuses is in neither sum, so the sums agree on a frame that
was never written; and the counts say nothing if the 32-bit sums of `chunk_run` wrap. Where
neither happens (`TxState.Counts`), the frames counted as complete are those the ground can
complete (`FrameWritten`).
-/

namespace Ar8030

open Pieces Trace

/-! ### The verdicts -/

/-- Whether `frames_complete` went up, for each time `frame_seq` moves on in a step. -/
def endVerdicts (cfg : TxConfig) (s : TxState) (input : RingEntry × List Bool) : List Bool :=
  (if s.abandons input.1 then
      [decide (s.stats.framesComplete < (s.abandon input.1).stats.framesComplete)]
    else []) ++
  if input.1.isPartial then []
  else [decide ((s.abandon input.1).stats.framesComplete <
    (txStep cfg s input).1.stats.framesComplete)]

/-- The verdicts on the frames of a run, in order. -/
def txVerdicts (cfg : TxConfig) (inputs : List (RingEntry × List Bool)) : List Bool :=
  (Mealy.run (fun s input => ((txStep cfg s input).1, endVerdicts cfg s input)) TxState.init
    inputs).2

/-- All bytes of a frame's entries were written, in chunks that make a complete frame. -/
def FrameWritten (seg : List TxEvent) : Prop :=
  (∃ info streamed, FrameChunks info streamed (writtenOf seg)) ∧
    frameData (writtenOf seg) = entryData seg

/-- The statistics after a run: every frame is counted once, and as complete if and only if it
was written. -/
structure FramesClassified (cfg : TxConfig) (inputs : List (RingEntry × List Bool)) : Prop where
  framesIn : (txRun cfg inputs).1.stats.framesIn =
    (txRun cfg inputs).1.stats.framesComplete + (txRun cfg inputs).1.stats.framesIncomplete +
      if (txRun cfg inputs).1.sf.isOpen then 1 else 0
  framesComplete : (txRun cfg inputs).1.stats.framesComplete = (txVerdicts cfg inputs).count true
  framesIncomplete : (txRun cfg inputs).1.stats.framesIncomplete =
    (txVerdicts cfg inputs).count false
  verdicts : List.Forall₂ (fun seg verdict => verdict = true ↔ FrameWritten seg)
    (frameLogs (txRun cfg inputs).2).1 (txVerdicts cfg inputs)

/-! ### Which frames were written -/

section Written

variable {cfg : TxConfig} {info : FrameInfo} {seg : List TxEvent}

/-- A frame that has no end was not written. -/
theorem Progress.not_frameWritten {nextIdx : ℕ} {failed : Bool}
    (h : Progress info seg nextIdx failed) : ¬ FrameWritten seg := by
  rintro ⟨⟨info', streamed, hframe⟩, -⟩
  have hpos := hframe.length_pos
  have hlast : (writtenOf seg).length - 1 < (writtenOf seg).length := by omega
  have hmem := List.getElem_mem hlast
  have hend := hframe.frameEnd _ hlast
  have hcount := hframe.chunkCount _ hlast
  rw [h.written.frameEnd _ hmem] at hend
  rw [h.written.chunkCount _ hmem] at hcount
  have heq : (writtenOf seg).length - 1 + 1 = (writtenOf seg).length := by omega
  cases streamed with
  | true => simp [heq] at hend
  | false =>
    simp at hcount
    omega

theorem not_frameWritten_of_nil (h : writtenOf seg = []) : ¬ FrameWritten seg := by
  rintro ⟨⟨info', streamed, hframe⟩, -⟩
  have := hframe.length_pos
  simp [h] at this

/-- A whole frame was written if all of its chunks were. -/
theorem frameWritten_whole_iff {frameSeq : UInt16} {e : RingEntry} {k : ℕ}
    (hwrap : e.data.length + cfg.chunkPayload ≤ 2 ^ 32)
    (hcount : chunkCountOf e.data.length cfg.chunkPayload ≤ 0xFFFF)
    (hk : k ≤ chunkCountOf e.data.length cfg.chunkPayload) :
    FrameWritten (.entry e :: sendLog (wholeChunks cfg frameSeq e) k) ↔
      k = chunkCountOf e.data.length cfg.chunkPayload := by
  have hfree : FrameInfo.FlagsFree ⟨frameSeq, frameFlagsFromMeta e.flags, chunkCodecH265, e.pts⟩ :=
    frameFlagsFromMeta_free e.flags
  have hneeded : chunkCountOf e.data.length cfg.chunkPayload =
      piecesNeeded e.data.length cfg.chunkPayload := chunkCountOf_eq hwrap
  have hframe : FrameChunks ⟨frameSeq, frameFlagsFromMeta e.flags, chunkCodecH265, e.pts⟩ false
      (wholeChunks cfg frameSeq e) :=
    frameChunks_whole e.data hfree cfg.chunkPayload_le
      (by rw [hneeded]; exact one_le_piecesNeeded _ _)
      hcount
  have hlen : (wholeChunks cfg frameSeq e).length =
      chunkCountOf e.data.length cfg.chunkPayload := length_runChunks
  rw [FrameWritten, writtenOf_entry, writtenOf_sendLog, entryData_entry, entryData_sendLog,
    List.append_nil]
  constructor
  · -- the chunk written last has the count of them all, and is the end of the frame
    rintro ⟨⟨info', streamed, hpart⟩, -⟩
    have hpos := hpart.length_pos
    have hmin : ((wholeChunks cfg frameSeq e).take k).length = k := by
      rw [List.length_take, hlen, Nat.min_eq_left hk]
    rw [hmin] at hpos
    have hlast : k - 1 < ((wholeChunks cfg frameSeq e).take k).length := by omega
    have hlast' : k - 1 < (wholeChunks cfg frameSeq e).length := by omega
    have hget : ((wholeChunks cfg frameSeq e).take k)[k - 1] =
        (wholeChunks cfg frameSeq e)[k - 1] :=
      List.getElem_take
    have hend := hpart.frameEnd _ hlast
    have hcnt := hpart.chunkCount _ hlast
    rw [hget, hframe.frameEnd _ hlast', hmin] at hend
    rw [hget, hframe.chunkCount _ hlast', hmin] at hcnt
    have heq : k - 1 + 1 = k := by omega
    cases streamed with
    | true => simp [heq] at hend
    | false =>
      simp [hlen] at hcnt
      omega
  · rintro rfl
    rw [List.take_of_length_le hlen.le]
    refine ⟨⟨_, _, hframe⟩, ?_⟩
    rw [wholeChunks, hneeded]
    exact flatMap_payload_runChunks cfg.chunkPayload_pos

end Written

/-! ### The counters -/

/-- The counters of frames. -/
def TxStats.frames (st : TxStats) : ℕ × ℕ × ℕ :=
  (st.framesIn, st.framesComplete, st.framesIncomplete)

theorem TxStats.frames_eq {st st' : TxStats} (h : st.frames = st'.frames) :
    st.framesIn = st'.framesIn ∧ st.framesComplete = st'.framesComplete ∧
      st.framesIncomplete = st'.framesIncomplete := by
  simpa [TxStats.frames] using h

/-- Writing chunks counts chunks and bytes only. -/
theorem frames_sendChunks (cs : List Chunk) (ctx : SendCtx) :
    (sendChunks chunkSendToSocket cs ctx).2.stats.frames = ctx.stats.frames := by
  induction cs generalizing ctx with
  | nil => rfl
  | cons c cs ih =>
    rw [sendChunks, chunkSendToSocket]
    split_ifs
    · exact ih _
    · rfl

theorem frames_chunkRun {info : FrameInfo} {data : List UInt8}
    {chunkPayload firstIdx totalCount scratchCap : ℕ} {frameEnd part : Bool} (ctx : SendCtx) :
    (callStats ctx.stats (chunkRun info data chunkPayload firstIdx totalCount frameEnd part
      chunkSendToSocket ctx scratchCap)).frames = ctx.stats.frames := by
  rw [chunkRun]
  split_ifs
  · rfl
  · rfl
  · dsimp only
    split_ifs
    · rfl
    · exact frames_sendChunks _ _

theorem frames_sendPart (cfg : TxConfig) (s : TxState) (e : RingEntry) (outcomes : List Bool) :
    (s.sendPart cfg e outcomes).1.stats.frames = s.stats.frames := by
  rw [TxState.sendPart]
  split_ifs
  · rfl
  · exact frames_chunkRun _

theorem frames_frameCall (cfg : TxConfig) (s : TxState) (e : RingEntry) (outcomes : List Bool) :
    (callStats { s.stats with framesIn := s.stats.framesIn + 1 }
      (s.frameCall cfg e outcomes)).frames =
      (s.stats.framesIn + 1, s.stats.framesComplete, s.stats.framesIncomplete) := by
  rw [TxState.frameCall, chunkFrame]
  split_ifs
  · rfl
  · dsimp only
    split_ifs
    · rfl
    · exact frames_chunkRun ⟨outcomes, [], { s.stats with framesIn := s.stats.framesIn + 1 }⟩

/-! ### One entry -/

/-- The entry is handed to the chunker: no chunk of its frame has failed before. -/
def TxState.callsChunker (s : TxState) (e : RingEntry) : Bool :=
  !((s.abandon e).sf.isOpen && (s.abandon e).sf.failed)

/-- The chunker's counts are those of the data: its 32-bit sums do not wrap, and it does not
refuse a slice for having too many chunks. -/
def TxState.Counts (cfg : TxConfig) (s : TxState) (e : RingEntry) : Prop :=
  (s.callsChunker e = true → e.data.length + cfg.chunkPayload ≤ 2 ^ 32) ∧
    (s.callsPart e = true → s.firstIdx e + piecesNeeded e.data.length cfg.chunkPayload ≤ 0xFFFF)

instance (cfg : TxConfig) (s : TxState) (e : RingEntry) : Decidable (s.Counts cfg e) :=
  inferInstanceAs (Decidable ((_ → _) ∧ (_ → _)))

theorem TxState.Counts.fits {cfg : TxConfig} {s : TxState} {e : RingEntry} (h : s.Counts cfg e) :
    s.Fits cfg e := by
  intro hpart
  have hcalls : s.callsChunker e = true := by
    rw [TxState.callsPart, Bool.and_eq_true] at hpart
    exact hpart.2
  have hle := h.2 hpart
  exact ⟨h.1 hcalls, by omega⟩

/-- What `finish` counts. -/
theorem finish_stats (s : TxState) (sent : Option ℕ) (expectedChunks : ℕ) :
    (s.finish sent expectedChunks).stats.framesIn = s.stats.framesIn ∧
      (s.finish sent expectedChunks).stats.framesComplete =
        s.stats.framesComplete + (if sent = some expectedChunks then 1 else 0) ∧
      (s.finish sent expectedChunks).stats.framesIncomplete =
        s.stats.framesIncomplete + if sent = some expectedChunks then 0 else 1 := by
  rw [TxState.finish]
  dsimp only
  split_ifs <;> exact ⟨rfl, rfl, rfl⟩

/-- What holds after every entry. -/
structure Classified (cfg : TxConfig) (s : TxState) (logs : List (List TxEvent) × List TxEvent)
    (verdicts : List Bool) : Prop where
  sending : Sending cfg s logs
  framesIn : s.stats.framesIn =
    s.stats.framesComplete + s.stats.framesIncomplete + if s.sf.isOpen then 1 else 0
  framesComplete : s.stats.framesComplete = verdicts.count true
  framesIncomplete : s.stats.framesIncomplete = verdicts.count false
  /-- The two sums for the open frame agree as long as nothing of it failed. -/
  sent : s.sf.isOpen = true → (s.sf.sent = s.sf.nextIdx ↔ s.sf.failed = false)
  verdicts : List.Forall₂ (fun seg verdict => verdict = true ↔ FrameWritten seg) logs.1 verdicts

theorem classified_init (cfg : TxConfig) : Classified cfg TxState.init ([], []) [] :=
  ⟨sending_init cfg, rfl, rfl, rfl, fun h => by simp [TxState.init] at h, List.Forall₂.nil⟩

section Step

variable {cfg : TxConfig} {s : TxState} {logs : List (List TxEvent) × List TxEvent}
  {vs : List Bool} {e : RingEntry}

/-- A frame has ended, and `finish` has counted it. -/
theorem Classified.finish (h : Classified cfg s logs vs) {s₁ : TxState} {sent : Option ℕ}
    {expectedChunks : ℕ} {seg : List TxEvent}
    (hsending : Sending cfg (s₁.finish sent expectedChunks) (logs.1 ++ [seg], []))
    (hidle : s₁.sf.isOpen = false)
    (hframes : s₁.stats.frames = (s.stats.framesComplete + s.stats.framesIncomplete + 1,
      s.stats.framesComplete, s.stats.framesIncomplete))
    (hseg : sent = some expectedChunks ↔ FrameWritten seg) :
    Classified cfg (s₁.finish sent expectedChunks) (logs.1 ++ [seg], [])
      (vs ++ [decide (s.stats.framesComplete <
        (s₁.finish sent expectedChunks).stats.framesComplete)]) := by
  obtain ⟨hin, hc, hi⟩ : s₁.stats.framesIn = _ ∧ s₁.stats.framesComplete = _ ∧
      s₁.stats.framesIncomplete = _ := by simpa [TxStats.frames] using hframes
  obtain ⟨hin', hc', hi'⟩ := finish_stats s₁ sent expectedChunks
  have hopen : (s₁.finish sent expectedChunks).sf.isOpen = false := hidle
  have hverdict : decide (s.stats.framesComplete <
      (s₁.finish sent expectedChunks).stats.framesComplete) =
        decide (sent = some expectedChunks) := by
    rw [hc', hc]
    by_cases hall : sent = some expectedChunks <;> simp [hall]
  rw [hverdict]
  refine ⟨hsending, ?_, ?_, ?_, fun ho => by simp [hopen] at ho, ?_⟩
  · rw [hin', hc', hi', hin, hc, hi, hopen]
    split_ifs <;> simp <;> omega
  · rw [hc', hc, h.framesComplete, List.count_append]
    by_cases hall : sent = some expectedChunks <;> simp [hall]
  · rw [hi', hi, h.framesIncomplete, List.count_append]
    by_cases hall : sent = some expectedChunks <;> simp [hall]
  · exact List.rel_append h.verdicts
      (List.Forall₂.cons (by simpa using hseg) List.Forall₂.nil)

/-- An open frame is given up for an entry of another one. -/
theorem Classified.abandon (h : Classified cfg s logs vs) (e : RingEntry) :
    Classified cfg (s.abandon e) (if s.abandons e then (logs.1 ++ [logs.2], []) else logs)
      (vs ++ if s.abandons e then
        [decide (s.stats.framesComplete < (s.abandon e).stats.framesComplete)] else []) := by
  have hsending := h.sending.abandon e
  rw [TxState.abandon] at hsending ⊢
  split_ifs at hsending ⊢ with hab
  · obtain ⟨hopen, -⟩ : s.sf.isOpen = true ∧ _ := by simpa [TxState.abandons] using hab
    have hin := h.framesIn
    rw [hopen, if_pos rfl] at hin
    have hnot := (h.sending.sending hopen).1.not_frameWritten
    refine ⟨hsending, ?_, ?_, ?_, fun ho => absurd ho (by simp), ?_⟩
    · rw [if_neg (by simp)]
      dsimp only
      omega
    · simp [h.framesComplete]
    · simp [h.framesIncomplete]
    · exact List.rel_append h.verdicts (List.Forall₂.cons (by simpa using hnot) List.Forall₂.nil)
  · rw [List.append_nil]
    exact h

/-- The frame the entry is a slice of is counted when it is opened. -/
theorem Classified.openFrame (h : Classified cfg s logs vs) :
    (s.openFrame e).stats.frames = (s.stats.framesComplete + s.stats.framesIncomplete + 1,
        s.stats.framesComplete, s.stats.framesIncomplete) ∧
      ((s.openFrame e).sf.sent = (s.openFrame e).sf.nextIdx ↔
        (s.openFrame e).sf.failed = false) := by
  have hin := h.framesIn
  rw [TxState.openFrame]
  split_ifs with hopen
  · rw [if_pos hopen] at hin
    exact ⟨by rw [TxStats.frames, hin], h.sent hopen⟩
  · rw [if_neg hopen] at hin
    exact ⟨by simp [TxStats.frames, hin], by simp⟩

/-- A slice that is not refused keeps the sums in step, and makes the frame complete if it is
its last one and nothing failed. -/
theorem sendPart_counted {seg : List TxEvent}
    (h : Progress s.openInfo seg s.sf.nextIdx s.sf.failed) (hpts : e.pts = s.sf.pts)
    (hcounts : s.sf.failed = false → e.data.length + cfg.chunkPayload ≤ 2 ^ 32 ∧
      s.sf.nextIdx + piecesNeeded e.data.length cfg.chunkPayload ≤ 0xFFFF)
    (hsent : s.sf.sent = s.sf.nextIdx ↔ s.sf.failed = false) (outcomes : List Bool) :
    ((s.sendPart cfg e outcomes).1.sf.sent = (s.sendPart cfg e outcomes).1.sf.nextIdx ↔
        (s.sendPart cfg e outcomes).1.sf.failed = false) ∧
      (e.isPartial = false →
        ((s.sendPart cfg e outcomes).1.sf.sent = (s.sendPart cfg e outcomes).1.sf.nextIdx ↔
          FrameWritten (seg ++ .entry e :: (s.sendPart cfg e outcomes).2))) := by
  have hfits : s.sf.failed = false → e.data.length + cfg.chunkPayload ≤ 2 ^ 32 ∧
      s.sf.nextIdx + piecesNeeded e.data.length cfg.chunkPayload < 2 ^ 32 := fun hok =>
    ⟨(hcounts hok).1, lt_of_le_of_lt (hcounts hok).2 (by decide)⟩
  rcases sendPart_cases hpts hfits outcomes with ⟨hfailed, hsf, hev⟩ | ⟨hok, hmany, -, -⟩ |
    ⟨hok, hcount, k, hle, hsf, hev⟩
  · -- a chunk before failed: the sums differ for good
    have hskip := h.skip hpts (show entriesOf [] = [] from rfl) rfl
    rw [hsf, hev]
    refine ⟨hsent, fun _ => ?_⟩
    rw [hfailed] at hsent
    exact iff_of_false (fun heq => absurd (hsent.mp heq) (by simp)) hskip.not_frameWritten
  · -- not refused, by `hcounts`
    have := (hcounts hok).2
    omega
  · have heq := hsent.mpr hok
    rw [hok] at h
    rw [hsf, hev]
    have hiff : s.sf.sent + k = s.sf.nextIdx + piecesNeeded e.data.length cfg.chunkPayload ↔
        k = piecesNeeded e.data.length cfg.chunkPayload := by
      omega
    refine ⟨by simp [hiff], fun hlast => ?_⟩
    rw [hlast]
    dsimp only
    rw [hiff]
    constructor
    · rintro rfl
      obtain ⟨hframe, hdata⟩ := h.frameChunks_ended hpts hcount
      exact ⟨⟨_, _, hframe⟩, hdata⟩
    · intro hw
      by_contra hne
      exact (h.sent hpts hcount hle fun _ => lt_of_le_of_ne hle hne).not_frameWritten hw

/-- A slice. -/
theorem Classified.sendSlice (h : Classified cfg s logs vs)
    (hpts : s.sf.isOpen = true → e.pts = s.sf.pts)
    (hcounts : (s.openFrame e).sf.failed = false → e.data.length + cfg.chunkPayload ≤ 2 ^ 32 ∧
      (s.openFrame e).sf.nextIdx + piecesNeeded e.data.length cfg.chunkPayload ≤ 0xFFFF)
    (outcomes : List Bool) :
    Classified cfg (s.sendSlice cfg e outcomes).1
      (addEntry logs e ((s.openFrame e).sendPart cfg e outcomes).2)
      (vs ++ if e.isPartial then []
        else [decide (s.stats.framesComplete <
          (s.sendSlice cfg e outcomes).1.stats.framesComplete)]) := by
  obtain ⟨hframes, hsent⟩ := h.openFrame (e := e)
  obtain ⟨hprog, hpts'⟩ := h.sending.openFrame hpts
  obtain ⟨hsums, hlast⟩ := sendPart_counted hprog hpts' hcounts hsent outcomes
  have hframes' := (frames_sendPart cfg (s.openFrame e) e outcomes).trans hframes
  obtain ⟨new, -, hev, hsending⟩ := h.sending.sendSlice hpts
    (fun hok => ⟨(hcounts hok).1, lt_of_le_of_lt (hcounts hok).2 (by decide)⟩) outcomes
  have hisOpen : ((s.openFrame e).sendPart cfg e outcomes).1.sf.isOpen = true := by
    rw [(sendPart_same cfg (s.openFrame e) e outcomes).2, TxState.openFrame]
    split_ifs with ho
    · exact ho
    · rfl
  cases hpart : e.isPartial with
  | true =>
    -- the frame stays open, and only the sums of its chunks move
    have hslice : s.sendSlice cfg e outcomes = (s.openFrame e).sendPart cfg e outcomes := by
      rw [TxState.sendSlice, hpart]
      rfl
    have hnew : new = ((s.openFrame e).sendPart cfg e outcomes).2 := by
      rw [hslice, hpart, if_pos rfl, List.append_nil] at hev
      exact hev.symm
    rw [hslice, hnew] at hsending
    rw [hslice, if_pos rfl, List.append_nil]
    obtain ⟨hin, hc, hi⟩ : _ ∧ _ ∧ _ := by simpa [TxStats.frames] using hframes'
    refine ⟨hsending, ?_, hc.trans h.framesComplete, hi.trans h.framesIncomplete,
      fun _ => hsums, ?_⟩
    · rw [hisOpen, if_pos rfl, hin, hc, hi]
    · rw [addEntry, if_pos hpart]
      exact h.verdicts
  | false =>
    -- the frame ends, and is counted by its sums
    have hslice : s.sendSlice cfg e outcomes =
        (TxState.finish { ((s.openFrame e).sendPart cfg e outcomes).1 with
            sf := { ((s.openFrame e).sendPart cfg e outcomes).1.sf with isOpen := false } }
          (some ((s.openFrame e).sendPart cfg e outcomes).1.sf.sent)
          ((s.openFrame e).sendPart cfg e outcomes).1.sf.nextIdx,
        ((s.openFrame e).sendPart cfg e outcomes).2 ++ [.advance]) := by
      rw [TxState.sendSlice, hpart]
      rfl
    have hnew : new = ((s.openFrame e).sendPart cfg e outcomes).2 := by
      rw [hslice, hpart] at hev
      exact (List.append_cancel_right hev).symm
    rw [hnew, addEntry, if_neg (by simp [hpart]), hslice] at hsending
    rw [addEntry, if_neg (by simp [hpart]), hslice, if_neg (by simp)]
    exact h.finish hsending rfl hframes' ((by simp : _ ↔ _).trans (hlast hpart))

/-- A whole frame. -/
theorem Classified.sendWhole (h : Classified cfg s logs vs) (hopen : s.sf.isOpen = false)
    (hlast : e.isPartial = false) (hwrap : e.data.length + cfg.chunkPayload ≤ 2 ^ 32)
    (outcomes : List Bool) :
    Classified cfg (s.sendWhole cfg e outcomes).1
      (addEntry logs e (callLog (s.frameCall cfg e outcomes)))
      (vs ++ [decide (s.stats.framesComplete <
        (s.sendWhole cfg e outcomes).1.stats.framesComplete)]) := by
  obtain ⟨new, -, hev, hsending⟩ := h.sending.sendWhole hopen hlast outcomes
  have hnew : new = callLog (s.frameCall cfg e outcomes) := by
    rw [hlast] at hev
    exact (List.append_cancel_right hev).symm
  have hin := h.framesIn
  rw [hopen, if_neg (by simp), Nat.add_zero] at hin
  have hframes := (frames_frameCall cfg s e outcomes).trans
    (congrArg (fun n => (n + 1, s.stats.framesComplete, s.stats.framesIncomplete)) hin)
  rw [hnew, addEntry, if_neg (by simp [hlast]), h.sending.idle hopen] at hsending
  rw [addEntry, if_neg (by simp [hlast]), h.sending.idle hopen]
  refine h.finish hsending hopen hframes ?_
  rcases frameCall_cases cfg s e outcomes with hcall | ⟨hcount, r, hcall, hn, hle, hlog⟩
  · rw [hcall]
    exact iff_of_false (by simp) (not_frameWritten_of_nil rfl)
  · rw [hcall]
    have hiff := @frameWritten_whole_iff cfg s.frameSeq e _ hwrap hcount (hn ▸ hle)
    rw [← hlog, ← hn] at hiff
    exact (by simp : _ ↔ _).trans hiff.symm

/-- What `Counts` says of the state in which a slice is sent. -/
theorem TxState.Counts.openFrame (hcounts : s.Counts cfg e)
    (hslice : (e.isPartial || (s.abandon e).sf.isOpen) = true)
    (hok : ((s.abandon e).openFrame e).sf.failed = false) :
    e.data.length + cfg.chunkPayload ≤ 2 ^ 32 ∧
      ((s.abandon e).openFrame e).sf.nextIdx + piecesNeeded e.data.length cfg.chunkPayload ≤
        0xFFFF := by
  have hidx : ((s.abandon e).openFrame e).sf.nextIdx = s.firstIdx e := by
    rw [TxState.openFrame, TxState.firstIdx]
    split_ifs <;> rfl
  have hcalls : s.callsChunker e = true := by
    rw [TxState.callsChunker]
    rw [TxState.openFrame] at hok
    split_ifs at hok with ho
    · rw [ho, hok]
      rfl
    · simp [Bool.eq_false_of_not_eq_true ho]
  rw [hidx]
  refine ⟨hcounts.1 hcalls, hcounts.2 ?_⟩
  rw [TxState.callsPart, hslice, Bool.true_and]
  exact hcalls

/-- **One entry** keeps the counters right. -/
theorem Classified.step {tr : List TxEvent} (h : Classified cfg s (frameLogs tr) vs)
    (hcounts : s.Counts cfg e) (outcomes : List Bool) :
    Classified cfg (txStep cfg s (e, outcomes)).1
      (frameLogs (tr ++ (txStep cfg s (e, outcomes)).2))
      (vs ++ endVerdicts cfg s (e, outcomes)) := by
  have h' := h.abandon e
  rw [← frameLogs_abandons] at h'
  rw [endVerdicts, ← List.append_assoc, txStep]
  dsimp only
  by_cases hslice : (e.isPartial || (s.abandon e).sf.isOpen) = true
  · have hstep := h'.sendSlice pts_of_isOpen_abandon (hcounts.openFrame hslice) outcomes
    obtain ⟨hprog, hpts⟩ := h'.sending.openFrame (e := e) pts_of_isOpen_abandon
    have hsent := (sendPart_log hprog hpts (hcounts.fits.openFrame hslice) outcomes).1
    have hev : ((s.abandon e).sendSlice cfg e outcomes).2 =
        (((s.abandon e).openFrame e).sendPart cfg e outcomes).2 ++
          if e.isPartial then [] else [.advance] := by
      rw [TxState.sendSlice]
      split_ifs
      · rw [List.append_nil]
      · rfl
    rw [if_pos hslice, hev, ← List.append_assoc, frameLogs_addEntry hsent]
    exact hstep
  · obtain ⟨hlast, hopen⟩ : e.isPartial = false ∧ (s.abandon e).sf.isOpen = false := by
      simpa using hslice
    have hcalls : s.callsChunker e = true := by simp [TxState.callsChunker, hopen]
    have hstep := h'.sendWhole hopen hlast (hcounts.1 hcalls) outcomes
    have hsent := (@frameCall_log cfg (s.abandon e) e hlast outcomes).1
    have hev : ((s.abandon e).sendWhole cfg e outcomes).2 =
        callLog ((s.abandon e).frameCall cfg e outcomes) ++
          if e.isPartial then [] else [.advance] := by
      rw [hlast]
      rfl
    have hwhole : ¬ e.isPartial = true := by simp [hlast]
    rw [if_neg hslice, hev, ← List.append_assoc, frameLogs_addEntry hsent, if_neg hwhole]
    exact hstep

end Step

/-! ### Runs -/

/-- The chunker's counts are right for every entry of the run. -/
def EveryCounts (cfg : TxConfig) (inputs : List (RingEntry × List Bool)) : Prop :=
  Always (fun past x => (txRun cfg past).1.Counts cfg x.1) inputs

instance (cfg : TxConfig) (inputs : List (RingEntry × List Bool)) :
    Decidable (EveryCounts cfg inputs) :=
  inferInstanceAs (Decidable (Always _ inputs))

theorem fst_txVerdicts (cfg : TxConfig) (inputs : List (RingEntry × List Bool)) :
    (Mealy.run (fun s input => ((txStep cfg s input).1, endVerdicts cfg s input)) TxState.init
      inputs).1 = (txRun cfg inputs).1 := by
  induction inputs using List.reverseRecOn with
  | nil => rfl
  | append_singleton inputs x ih =>
    rw [Mealy.run_concat, ih]
    exact (congrArg Prod.fst (Mealy.run_concat ..)).symm

theorem classified_txRun (cfg : TxConfig) (inputs : List (RingEntry × List Bool))
    (hcounts : EveryCounts cfg inputs) :
    Classified cfg (txRun cfg inputs).1 (frameLogs (txRun cfg inputs).2)
      (txVerdicts cfg inputs) := by
  induction inputs using List.reverseRecOn with
  | nil => exact classified_init cfg
  | append_singleton inputs x ih =>
    obtain ⟨hcounts', hx⟩ := always_concat_iff.mp hcounts
    have hstep := (ih hcounts').step hx x.2
    have hrun : txRun cfg (inputs ++ [x]) = ((txStep cfg (txRun cfg inputs).1 x).1,
        (txRun cfg inputs).2 ++ (txStep cfg (txRun cfg inputs).1 x).2) := Mealy.run_concat ..
    have hverdicts : txVerdicts cfg (inputs ++ [x]) =
        txVerdicts cfg inputs ++ endVerdicts cfg (txRun cfg inputs).1 x := by
      rw [txVerdicts, Mealy.run_concat, fst_txVerdicts]
      rfl
    rw [hrun, hverdicts]
    exact hstep

/-- **Send statistics**: whatever entries come and whichever writes fail, as long as the
chunker's counts are right, every frame is counted once, and as complete if and only if all of
its bytes were written in chunks the ground can complete it from. -/
theorem frames_classified (cfg : TxConfig) (inputs : List (RingEntry × List Bool))
    (hcounts : EveryCounts cfg inputs) : FramesClassified cfg inputs := by
  have h := classified_txRun cfg inputs hcounts
  exact ⟨h.framesIn, h.framesComplete, h.framesIncomplete, h.verdicts⟩

theorem everyCounts_sampleInputs : EveryCounts defaultTxConfig sampleInputs := by
  decide +kernel

/-- Of two frames the first loses its second slice. -/
theorem frames_classified_two_frames :
    EveryCounts defaultTxConfig sampleInputs ∧ FramesClassified defaultTxConfig sampleInputs ∧
      txVerdicts defaultTxConfig sampleInputs = [false, true] :=
  ⟨everyCounts_sampleInputs, frames_classified _ _ everyCounts_sampleInputs, by decide +kernel⟩

/-- A sender with one byte in a chunk. -/
def byteTxConfig : TxConfig := ⟨1, by decide, by decide⟩

/-- The first slice of a frame, refused for its 65536 chunks. -/
theorem txStep_refusedSlice (data : List UInt8) (hlen : data.length = 65536) :
    txStep byteTxConfig TxState.init (⟨1000, vencFrameFlagPartial, data⟩, []) =
      ({ frameSeq := 0, sf := ⟨true, true, 1000, 0, 0, 0, 1⟩, stats := ⟨1, 0, 0, 0, 0, 0⟩ },
        [.entry ⟨1000, vencFrameFlagPartial, data⟩, .refused]) := by
  have hcount : 0xFFFF < (0 + chunkCountOf data.length byteTxConfig.chunkPayload) % 2 ^ 32 := by
    rw [hlen]
    decide
  have hcall : (TxState.init.openFrame ⟨1000, vencFrameFlagPartial, data⟩).partCall byteTxConfig
      ⟨1000, vencFrameFlagPartial, data⟩ [] = none := by
    rw [TxState.partCall, chunkPart, chunkRun, if_neg (by decide), if_neg (by decide)]
    exact if_pos hcount
  have habandon : TxState.init.abandon ⟨1000, vencFrameFlagPartial, data⟩ = TxState.init := rfl
  have hpart : RingEntry.isPartial ⟨1000, vencFrameFlagPartial, data⟩ = true := by
    show hasFlag vencFrameFlagPartial vencFrameFlagPartial = true
    decide
  have hsend : (TxState.init.openFrame ⟨1000, vencFrameFlagPartial, data⟩).sendPart byteTxConfig
      ⟨1000, vencFrameFlagPartial, data⟩ [] =
      ({ frameSeq := 0, sf := ⟨true, true, 1000, 0, 0, 0, 1⟩, stats := ⟨1, 0, 0, 0, 0, 0⟩ },
        [.refused]) := by
    have hflags : frameFlagsFromMeta vencFrameFlagPartial = 0 := by decide
    have hopen : TxState.init.openFrame ⟨1000, vencFrameFlagPartial, data⟩ =
        { frameSeq := 0, sf := ⟨true, false, 1000, 0, 0, 0, 0⟩, stats := ⟨1, 0, 0, 0, 0, 0⟩ } := by
      rw [← hflags]
      rfl
    rw [TxState.sendPart, hcall, hopen]
    rfl
  rw [txStep]
  dsimp only
  rw [habandon, hpart, Bool.true_or, if_pos rfl, TxState.sendSlice, hpart]
  dsimp only
  rw [if_pos rfl, hsend]
  rfl

/-- A frame of two slices, the first of which is refused and the second one, empty, left out:
no chunk is written, and the frame is counted as complete. -/
theorem refused_frame_counted_complete :
    (txRun byteTxConfig [(⟨1000, vencFrameFlagPartial, List.replicate 65536 0⟩, []),
        (⟨1000, 0, []⟩, [])]).1.stats.framesComplete = 1 ∧
      ¬ FramesClassified byteTxConfig
        [(⟨1000, vencFrameFlagPartial, List.replicate 65536 0⟩, []), (⟨1000, 0, []⟩, [])] := by
  have hrun : txRun byteTxConfig [(⟨1000, vencFrameFlagPartial, List.replicate 65536 0⟩, []),
      (⟨1000, 0, []⟩, [])] =
      ({ frameSeq := 1, sf := ⟨false, true, 1000, 0, 0, 0, 2⟩, stats := ⟨1, 1, 0, 0, 0, 0⟩ },
        [.entry ⟨1000, vencFrameFlagPartial, List.replicate 65536 0⟩, .refused,
          .entry ⟨1000, 0, []⟩, .advance]) := by
    rw [txRun, Mealy.run_cons, txStep_refusedSlice _ List.length_replicate]
    rfl
  refine ⟨by rw [hrun], fun h => ?_⟩
  have hverdicts := h.verdicts
  have hcomplete := h.framesComplete
  rw [hrun] at hverdicts hcomplete
  have hlogs : (frameLogs [.entry ⟨1000, vencFrameFlagPartial, List.replicate 65536 0⟩, .refused,
      .entry ⟨1000, 0, []⟩, .advance]).1 =
      [[.entry ⟨1000, vencFrameFlagPartial, List.replicate 65536 0⟩, .refused,
        .entry ⟨1000, 0, []⟩]] := rfl
  rw [hlogs] at hverdicts
  obtain ⟨v, hv, heq⟩ : ∃ v, (v = true ↔ FrameWritten _) ∧
      txVerdicts byteTxConfig [(⟨1000, vencFrameFlagPartial, List.replicate 65536 0⟩, []),
        (⟨1000, 0, []⟩, [])] = [v] := by
    obtain ⟨v, vs, hv, hrest, heq⟩ := List.forall₂_cons_left_iff.mp hverdicts
    rw [List.forall₂_nil_left_iff.mp hrest] at heq
    exact ⟨v, hv, heq⟩
  rw [heq] at hcomplete
  cases v with
  | false => exact absurd hcomplete (by decide)
  | true => exact not_frameWritten_of_nil rfl (hv.mp rfl)

end Ar8030
