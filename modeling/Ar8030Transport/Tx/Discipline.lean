import Ar8030Transport.Tx.SendLoop

/-!
# Wire discipline of the sender

What the loop of `tx/main.c` writes between two increments of `frame_seq`, over any run: any
entries, any outcomes of the writes. `WireDiscipline` is what the ground relies on. The
invariant is `Progress`: the chunks written of an open frame are numbered without a gap up to
`next_idx` and carry all of its entries so far, unless a chunk failed or an entry was refused;
then nothing more is written of it.

The one thing the loop relies on itself is that the 32-bit sums in `chunk_run` do not wrap for
a slice (`TxState.Fits`).
-/

namespace Ar8030

open Pieces Trace

/-! ### What the ground relies on -/

/-- What was done for one frame, as far as the ground can tell. -/
structure WireDiscipline (frameSeq : UInt16) (seg : List TxEvent) : Prop where
  /-- The chunks carry the frame's sequence number and the pts of its entries. -/
  frameSeq : ∀ c ∈ writtenOf seg, c.hdr.frameSeq = frameSeq
  framePts : ∃ pts, (∀ e ∈ entriesOf seg, e.pts = pts) ∧ ∀ c ∈ writtenOf seg, c.hdr.framePts = pts
  /-- They are numbered from 0. -/
  chunkIdx : ∀ i, (hi : i < (writtenOf seg).length) → (writtenOf seg)[i].hdr.chunkIdx.toNat = i
  /-- They carry a beginning of the frame. -/
  payload : frameData (writtenOf seg) <+: entryData seg
  /-- Only the last one can end the frame, with the right count and nothing missing. -/
  frameEnd : ∀ i, (hi : i < (writtenOf seg).length) →
    hasFlag (writtenOf seg)[i].hdr.flags chunkFlagFrameEnd = true →
      i + 1 = (writtenOf seg).length ∧
        (writtenOf seg)[i].hdr.chunkCount.toNat = (writtenOf seg).length ∧
        frameData (writtenOf seg) = entryData seg
  /-- After a failure nothing is written. -/
  unbroken : ∀ pre e post, seg = pre ++ e :: post → e.isFailure = true → writtenOf post = []

/-! ### Small facts -/

section Views

variable (seg new : List TxEvent) (e : RingEntry)

theorem entriesOf_append : entriesOf (seg ++ new) = entriesOf seg ++ entriesOf new :=
  List.filterMap_append

theorem writtenOf_append : writtenOf (seg ++ new) = writtenOf seg ++ writtenOf new :=
  List.filterMap_append

theorem entryData_append : entryData (seg ++ new) = entryData seg ++ entryData new := by
  rw [entryData, entriesOf_append, List.flatMap_append]
  rfl

@[simp]
theorem entriesOf_entry : entriesOf (.entry e :: seg) = e :: entriesOf seg := rfl

@[simp]
theorem writtenOf_entry : writtenOf (.entry e :: seg) = writtenOf seg := rfl

@[simp]
theorem entryData_entry : entryData (.entry e :: seg) = e.data ++ entryData seg := by
  rw [entryData, entriesOf_entry, List.flatMap_cons]
  rfl

end Views

/-- What a run of chunks does of which `k` were written: the one after them failed. -/
def sendLog (cs : List Chunk) (k : ℕ) : List TxEvent :=
  (cs.take k).map .wrote ++ ((cs.drop k).take 1).map .failed

@[simp]
theorem writtenOf_map_wrote (cs : List Chunk) : writtenOf (cs.map .wrote) = cs := by
  rw [writtenOf, List.filterMap_map]
  exact List.filterMap_some

@[simp]
theorem writtenOf_map_failed (cs : List Chunk) : writtenOf (cs.map .failed) = [] := by
  rw [writtenOf, List.filterMap_map]
  exact List.filterMap_none _

@[simp]
theorem writtenOf_sendLog (cs : List Chunk) (k : ℕ) : writtenOf (sendLog cs k) = cs.take k := by
  rw [sendLog, writtenOf_append, writtenOf_map_wrote, writtenOf_map_failed, List.append_nil]

@[simp]
theorem entriesOf_sendLog (cs : List Chunk) (k : ℕ) : entriesOf (sendLog cs k) = [] := by
  rw [sendLog, entriesOf_append, entriesOf, entriesOf, List.filterMap_map, List.filterMap_map]
  exact congrArg₂ _ (List.filterMap_none _) (List.filterMap_none _)

@[simp]
theorem entryData_sendLog (cs : List Chunk) (k : ℕ) : entryData (sendLog cs k) = [] := by
  rw [entryData, entriesOf_sendLog, List.flatMap_nil]

/-- The log of a run that was written as a whole. -/
theorem sendLog_length (cs : List Chunk) : sendLog cs cs.length = cs.map .wrote := by
  simp [sendLog]

theorem any_isFailure_map_wrote (cs : List Chunk) :
    (cs.map TxEvent.wrote).any TxEvent.isFailure = false := by
  simp [TxEvent.isFailure]

/-! ### The chunker's calls -/

/-- **Sending**: some of the chunks are written, and if not all, the next one failed. -/
theorem sendChunks_socket (cs : List Chunk) (ctx : SendCtx) :
    ∃ k ≤ cs.length, (sendChunks chunkSendToSocket cs ctx).1 = k ∧
      (sendChunks chunkSendToSocket cs ctx).2.log = ctx.log ++ sendLog cs k := by
  induction cs generalizing ctx with
  | nil => exact ⟨0, le_rfl, rfl, by simp [sendChunks, sendLog]⟩
  | cons c cs ih =>
    rw [sendChunks, chunkSendToSocket]
    split_ifs with hok
    · obtain ⟨k, hk, hsent, hlog⟩ := ih
        { outcomes := ctx.outcomes.tail
          log := ctx.log ++ [.wrote c]
          stats := { ctx.stats with
            chunksSent := ctx.stats.chunksSent + 1
            bytesSent := ctx.stats.bytesSent + c.bytes.length } }
      refine ⟨k + 1, Nat.succ_le_succ hk, congrArg (· + 1) hsent, ?_⟩
      rw [hlog]
      simp [sendLog]
    · exact ⟨0, Nat.zero_le _, rfl, by simp [sendLog]⟩

section Calls

variable {cfg : TxConfig} {info : FrameInfo} {data : List UInt8} {firstIdx totalCount : ℕ}
  {frameEnd part : Bool} {ctx : SendCtx}

/-- One call of `chunk_run`: refused if the chunks are too many in 32-bit arithmetic,
otherwise some of them are written. -/
theorem chunkRun_socket (hlog : ctx.log = []) :
    (chunkRun info data cfg.chunkPayload firstIdx totalCount frameEnd part chunkSendToSocket ctx
        cfg.scratchSize = none ∧
      0xFFFF < (firstIdx + chunkCountOf data.length cfg.chunkPayload) % 2 ^ 32) ∨
    (∃ r, chunkRun info data cfg.chunkPayload firstIdx totalCount frameEnd part chunkSendToSocket
        ctx cfg.scratchSize = some r ∧
      (firstIdx + chunkCountOf data.length cfg.chunkPayload) % 2 ^ 32 ≤ 0xFFFF ∧
      r.outChunkCount = chunkCountOf data.length cfg.chunkPayload ∧ r.sent ≤ r.outChunkCount ∧
      r.ctx.log = sendLog (runChunks info data cfg.chunkPayload firstIdx totalCount
        r.outChunkCount frameEnd part) r.sent) := by
  have hpos := cfg.chunkPayload_pos
  have hmax := cfg.chunkPayload_le
  by_cases hcount : (firstIdx + chunkCountOf data.length cfg.chunkPayload) % 2 ^ 32 ≤ 0xFFFF
  · refine Or.inr ⟨_, chunkRun_eq_some hpos hmax le_rfl hcount, hcount, rfl, ?_, ?_⟩
    all_goals
      obtain ⟨k, hk, hsent, hsendlog⟩ := sendChunks_socket (runChunks info data cfg.chunkPayload
        firstIdx totalCount (chunkCountOf data.length cfg.chunkPayload) frameEnd part) ctx
      dsimp only
    · rw [hsent]
      exact hk.trans_eq length_runChunks
    · rw [hsendlog, hlog, hsent, List.nil_append]
  · have hpay : ¬ (cfg.chunkPayload = 0 ∨ chunkMaxPayload < cfg.chunkPayload) := by omega
    refine Or.inl ⟨?_, by omega⟩
    rw [chunkRun, if_neg hpay, TxConfig.scratchSize, if_neg (lt_irrefl _), if_pos (by omega)]

end Calls

/-! ### Beginnings of a run -/

section Beginning

variable {info : FrameInfo} {cs : List Chunk}

theorem NumberedChunks.take (h : NumberedChunks info cs) (k : ℕ) :
    NumberedChunks info (cs.take k) where
  length_le := (List.length_take_le' k cs).trans h.length_le
  codec := fun c hc => h.codec c (List.mem_of_mem_take hc)
  frameSeq := fun c hc => h.frameSeq c (List.mem_of_mem_take hc)
  framePts := fun c hc => h.framePts c (List.mem_of_mem_take hc)
  flags := fun c hc => h.flags c (List.mem_of_mem_take hc)
  chunkIdx := by
    intro i hi
    rw [List.getElem_take]
    exact h.chunkIdx i _
  isSealed := fun c hc => h.isSealed c (List.mem_of_mem_take hc)

variable (data : List UInt8) {chunkPayload n k : ℕ} {frameEnd : Bool}

/-- The beginning of a part, which does not reach the frame's end. -/
theorem StreamedStart.append_take (h : StreamedStart info cs) (hfree : info.FlagsFree)
    (hmax : chunkPayload ≤ chunkMaxPayload) (hlen : cs.length + n ≤ 0xFFFF)
    (hk : frameEnd = true → k < n) :
    StreamedStart info
      (cs ++ (runChunks info data chunkPayload cs.length 0 n frameEnd true).take k) := by
  have hnew : ∀ c ∈ (runChunks info data chunkPayload cs.length 0 n frameEnd true).take k,
      hasFlag c.hdr.flags chunkFlagFrameEnd = false ∧ c.hdr.chunkCount = 0 := by
    intro c hc
    obtain ⟨i, hi, rfl⟩ := List.mem_iff_getElem.mp hc
    rw [List.length_take, lt_min_iff, length_runChunks] at hi
    have hend : (frameEnd && i + 1 == n) = false := by
      cases frameEnd with
      | false => rfl
      | true =>
        have := hk rfl
        simp
        omega
    rw [List.getElem_take, getElem_runChunks, frameEnd_runChunk hfree, chunkCount_runChunk, hend]
    exact ⟨rfl, rfl⟩
  constructor
  · rw [← List.take_length_add_append]
    exact (h.toNumberedChunks.append_run data hfree hmax hlen).take _
  · intro c hc
    rcases List.mem_append.mp hc with hc | hc
    · exact h.frameEnd c hc
    · exact (hnew c hc).1
  · intro c hc
    rcases List.mem_append.mp hc with hc | hc
    · exact h.chunkCount c hc
    · exact (hnew c hc).2

end Beginning

/-! ### An open frame -/

/-- A clean beginning, and nothing written after it. -/
def Unbroken (seg : List TxEvent) : Prop :=
  ∃ a b, seg = a ++ b ∧ a.any TxEvent.isFailure = false ∧ writtenOf b = []

theorem Unbroken.of_clean {seg : List TxEvent} (h : seg.any TxEvent.isFailure = false) :
    Unbroken seg := ⟨seg, [], (List.append_nil _).symm, h, rfl⟩

theorem Unbroken.append {seg new : List TxEvent} (h : Unbroken seg) (hnew : writtenOf new = []) :
    Unbroken (seg ++ new) := by
  obtain ⟨a, b, rfl, ha, hb⟩ := h
  exact ⟨a, b ++ new, List.append_assoc .., ha, by rw [writtenOf_append, hb, hnew, List.append_nil]⟩

/-- A run of chunks after a clean beginning. -/
theorem Unbroken.sendLog {seg : List TxEvent} (h : seg.any TxEvent.isFailure = false)
    (cs : List Chunk) (k : ℕ) : Unbroken (seg ++ sendLog cs k) := by
  refine ⟨seg ++ (cs.take k).map .wrote, ((cs.drop k).take 1).map .failed,
    (List.append_assoc ..).symm, ?_, writtenOf_map_failed _⟩
  rw [List.any_append, h, any_isFailure_map_wrote, Bool.or_false]

/-- What follows a failure was not written. -/
theorem Unbroken.writtenOf_eq_nil {seg pre post : List TxEvent} {e : TxEvent} (h : Unbroken seg)
    (hseg : seg = pre ++ e :: post) (he : e.isFailure = true) : writtenOf post = [] := by
  obtain ⟨a, b, hab, ha, hb⟩ := h
  -- the failure lies behind the clean beginning
  have hle : a.length ≤ pre.length := by
    by_contra hlt
    have hmem : e ∈ a := by
      have hget : (a ++ b)[pre.length]? = some e := by
        rw [← hab, hseg, List.getElem?_append_right le_rfl, Nat.sub_self, List.getElem?_cons_zero]
      rw [List.getElem?_append_left (by omega)] at hget
      exact List.mem_of_getElem? hget
    rw [List.any_eq_false] at ha
    exact ha e hmem he
  have hpost : writtenOf (pre.drop a.length ++ e :: post) = [] := by
    rw [← List.drop_append_of_le_length hle, ← hseg, hab, List.drop_left, hb]
  rw [writtenOf_append, List.append_eq_nil_iff] at hpost
  exact (List.append_eq_nil_iff.mp (writtenOf_append [e] post ▸ hpost.2)).2

/-- The chunks written of a frame that is still open. -/
structure Progress (info : FrameInfo) (seg : List TxEvent) (nextIdx : ℕ) (failed : Bool) :
    Prop where
  free : info.FlagsFree
  framePts : ∀ e ∈ entriesOf seg, e.pts = info.framePts
  written : StreamedStart info (writtenOf seg)
  payload : frameData (writtenOf seg) <+: entryData seg
  unbroken : Unbroken seg
  /-- Up to a failure nothing is missing. -/
  whole : failed = false → (writtenOf seg).length = nextIdx ∧
    frameData (writtenOf seg) = entryData seg ∧ seg.any TxEvent.isFailure = false

/-- A frame with numbered chunks keeps the discipline, if its end is where it should be. -/
theorem wireDiscipline_of_numbered {info : FrameInfo} {seg : List TxEvent}
    (hpts : ∀ e ∈ entriesOf seg, e.pts = info.framePts)
    (hnum : NumberedChunks info (writtenOf seg))
    (hpay : frameData (writtenOf seg) <+: entryData seg)
    (hun : Unbroken seg)
    (hend : ∀ i, (hi : i < (writtenOf seg).length) →
      hasFlag (writtenOf seg)[i].hdr.flags chunkFlagFrameEnd = true →
        i + 1 = (writtenOf seg).length ∧
          (writtenOf seg)[i].hdr.chunkCount.toNat = (writtenOf seg).length ∧
          frameData (writtenOf seg) = entryData seg) :
    WireDiscipline info.frameSeq seg where
  frameSeq := hnum.frameSeq
  framePts := ⟨info.framePts, hpts, hnum.framePts⟩
  chunkIdx := hnum.chunkIdx
  payload := hpay
  frameEnd := hend
  unbroken := fun _ _ _ hseg he => hun.writtenOf_eq_nil hseg he

section Open

variable {info : FrameInfo} {seg : List TxEvent} {nextIdx : ℕ} {failed : Bool}

theorem Progress.wireDiscipline (h : Progress info seg nextIdx failed) :
    WireDiscipline info.frameSeq seg := by
  refine wireDiscipline_of_numbered h.framePts h.written.toNumberedChunks h.payload h.unbroken
    fun i hi hend => ?_
  rw [h.written.frameEnd _ (List.getElem_mem hi)] at hend
  simp at hend

/-- A frame just opened. -/
theorem progress_nil (hfree : info.FlagsFree) : Progress info [] 0 false where
  free := hfree
  framePts := by simp [entriesOf]
  written := streamedStart_nil info
  payload := List.nil_prefix
  unbroken := .of_clean rfl
  whole := fun _ => ⟨rfl, rfl, rfl⟩

/-- An entry of which nothing was written. -/
theorem Progress.skip (h : Progress info seg nextIdx failed) {e : RingEntry}
    (he : e.pts = info.framePts) {new : List TxEvent} (hentries : entriesOf new = [])
    (hwritten : writtenOf new = []) : Progress info (seg ++ .entry e :: new) nextIdx true where
  free := h.free
  framePts := by
    intro d hd
    rw [entriesOf_append, entriesOf_entry, hentries, List.mem_append, List.mem_singleton] at hd
    rcases hd with hd | rfl
    · exact h.framePts d hd
    · exact he
  written := by
    rw [writtenOf_append, writtenOf_entry, hwritten, List.append_nil]
    exact h.written
  payload := by
    rw [writtenOf_append, writtenOf_entry, hwritten, List.append_nil, entryData_append]
    exact h.payload.trans (List.prefix_append _ _)
  unbroken := h.unbroken.append hwritten
  whole := by simp

variable {e : RingEntry} {cfg : TxConfig} {frameEnd : Bool} {k : ℕ}

/-- The chunks of an entry's run. -/
def partChunks (cfg : TxConfig) (info : FrameInfo) (nextIdx : ℕ) (e : RingEntry)
    (frameEnd : Bool) : List Chunk :=
  runChunks info e.data cfg.chunkPayload nextIdx 0 (piecesNeeded e.data.length cfg.chunkPayload)
    frameEnd true

@[simp]
theorem length_partChunks : (partChunks cfg info nextIdx e frameEnd).length =
    piecesNeeded e.data.length cfg.chunkPayload := length_runChunks

theorem frameData_partChunks : frameData (partChunks cfg info nextIdx e frameEnd) = e.data :=
  flatMap_payload_runChunks cfg.chunkPayload_pos

/-- What holds of the frame's events once some of the entry's chunks were written. -/
theorem Progress.sent_views (h : Progress info seg nextIdx false) (he : e.pts = info.framePts) :
    (∀ d ∈ entriesOf (seg ++ .entry e :: sendLog (partChunks cfg info nextIdx e frameEnd) k),
        d.pts = info.framePts) ∧
      writtenOf (seg ++ .entry e :: sendLog (partChunks cfg info nextIdx e frameEnd) k) =
        writtenOf seg ++ (partChunks cfg info nextIdx e frameEnd).take k ∧
      entryData (seg ++ .entry e :: sendLog (partChunks cfg info nextIdx e frameEnd) k) =
        frameData (writtenOf seg ++ partChunks cfg info nextIdx e frameEnd) ∧
      Unbroken (seg ++ .entry e :: sendLog (partChunks cfg info nextIdx e frameEnd) k) := by
  obtain ⟨-, hdata, hclean⟩ := h.whole rfl
  refine ⟨?_, ?_, ?_, ?_⟩
  · intro d hd
    rw [entriesOf_append, entriesOf_entry, entriesOf_sendLog, List.mem_append,
      List.mem_singleton] at hd
    rcases hd with hd | rfl
    · exact h.framePts d hd
    · exact he
  · rw [writtenOf_append, writtenOf_entry, writtenOf_sendLog]
  · rw [entryData_append, entryData_entry, entryData_sendLog, List.append_nil, frameData_append,
      hdata, frameData_partChunks]
  · rw [List.append_cons]
    refine Unbroken.sendLog ?_ _ _
    rw [List.any_append, hclean]
    rfl

/-- A part of which `k` chunks were written, short of the frame's end. -/
theorem Progress.sent (h : Progress info seg nextIdx false) (he : e.pts = info.framePts)
    (hlen : nextIdx + piecesNeeded e.data.length cfg.chunkPayload ≤ 0xFFFF)
    (hk : k ≤ piecesNeeded e.data.length cfg.chunkPayload)
    (hshort : frameEnd = true → k < piecesNeeded e.data.length cfg.chunkPayload) :
    Progress info (seg ++ .entry e :: sendLog (partChunks cfg info nextIdx e frameEnd) k)
      (nextIdx + piecesNeeded e.data.length cfg.chunkPayload)
      (k != piecesNeeded e.data.length cfg.chunkPayload) := by
  obtain ⟨hlength, hdata, hclean⟩ := h.whole rfl
  obtain ⟨hpts, hwritten, hentry, hun⟩ := h.sent_views he
  refine ⟨h.free, hpts, ?_, ?_, hun, fun hall => ?_⟩
  · rw [hwritten]
    subst hlength
    exact h.written.append_take e.data h.free cfg.chunkPayload_le hlen hshort
  · rw [hwritten, hentry, frameData_append, frameData_append]
    exact (List.prefix_append_right_inj _).mpr (frameData_take_isPrefix k)
  · obtain rfl : k = piecesNeeded e.data.length cfg.chunkPayload := by simpa using hall
    have htake : (partChunks cfg info nextIdx e frameEnd).take
        (piecesNeeded e.data.length cfg.chunkPayload) = partChunks cfg info nextIdx e frameEnd :=
      List.take_of_length_le length_partChunks.le
    rw [hwritten, hentry, htake, List.length_append, length_partChunks, hlength]
    refine ⟨rfl, rfl, ?_⟩
    rw [← length_partChunks, sendLog_length, List.any_append, hclean, List.any_cons,
      any_isFailure_map_wrote]
    rfl

/-- The last part, written as a whole, completes the frame. -/
theorem Progress.frameChunks_ended (h : Progress info seg nextIdx false)
    (he : e.pts = info.framePts)
    (hlen : nextIdx + piecesNeeded e.data.length cfg.chunkPayload ≤ 0xFFFF) :
    FrameChunks info true (writtenOf (seg ++ .entry e :: sendLog
        (partChunks cfg info nextIdx e true) (piecesNeeded e.data.length cfg.chunkPayload))) ∧
      frameData (writtenOf (seg ++ .entry e :: sendLog (partChunks cfg info nextIdx e true)
        (piecesNeeded e.data.length cfg.chunkPayload))) =
        entryData (seg ++ .entry e :: sendLog (partChunks cfg info nextIdx e true)
          (piecesNeeded e.data.length cfg.chunkPayload)) := by
  obtain ⟨rfl, hdata, hclean⟩ := h.whole rfl
  obtain ⟨-, hwritten, hentry, -⟩ := @Progress.sent_views info seg (writtenOf seg).length e cfg
    true (piecesNeeded e.data.length cfg.chunkPayload) h he
  rw [List.take_of_length_le length_partChunks.le] at hwritten
  rw [hwritten, hentry]
  exact ⟨h.written.append_last e.data h.free cfg.chunkPayload_le (one_le_piecesNeeded _ _) hlen,
    rfl⟩

/-- The last part, written as a whole, ends the frame. -/
theorem Progress.ended (h : Progress info seg nextIdx false) (he : e.pts = info.framePts)
    (hlen : nextIdx + piecesNeeded e.data.length cfg.chunkPayload ≤ 0xFFFF) :
    WireDiscipline info.frameSeq (seg ++ .entry e :: sendLog (partChunks cfg info nextIdx e true)
      (piecesNeeded e.data.length cfg.chunkPayload)) := by
  obtain ⟨hpts, -, -, hun⟩ := @Progress.sent_views info seg nextIdx e cfg
    true (piecesNeeded e.data.length cfg.chunkPayload) h he
  obtain ⟨hframe, hall⟩ := @Progress.frameChunks_ended info seg nextIdx e cfg h he hlen
  refine wireDiscipline_of_numbered hpts hframe.toNumberedChunks (hall ▸ List.prefix_rfl) hun
    fun i hi hend => ?_
  have hlast : i + 1 = (writtenOf (seg ++ .entry e :: sendLog (partChunks cfg info nextIdx e true)
      (piecesNeeded e.data.length cfg.chunkPayload))).length := by
    rw [hframe.frameEnd i hi] at hend
    simpa using hend
  refine ⟨hlast, ?_, hall⟩
  rw [hframe.chunkCount i hi, if_neg (by simp [hlast])]

end Open

/-! ### A whole frame -/

/-- A frame sent whole: none of its chunks has `FRAME_END`, and its chunk count is on all. -/
theorem wireDiscipline_whole {info : FrameInfo} {cfg : TxConfig} {e : RingEntry} {n k : ℕ}
    (hfree : info.FlagsFree) (he : e.pts = info.framePts) (hlen : n ≤ 0xFFFF) :
    WireDiscipline info.frameSeq
      (.entry e :: sendLog (runChunks info e.data cfg.chunkPayload 0 n n false false) k) := by
  have hnum : NumberedChunks info
      ((runChunks info e.data cfg.chunkPayload 0 n n false false).take k) :=
    ((numberedChunks_nil info).append_run e.data hfree cfg.chunkPayload_le
      (by simpa using hlen)).take k
  refine wireDiscipline_of_numbered ?_ ?_ ?_ ?_ fun i hi hend => ?_
  · simpa using he
  · simpa using hnum
  · rw [writtenOf_entry, writtenOf_sendLog, entryData_entry, entryData_sendLog, List.append_nil]
    refine (frameData_take_isPrefix k).trans ?_
    rw [frameData, runChunks, List.flatMap_map]
    exact (flatMap_piece cfg.chunkPayload e.data n).symm ▸ List.take_prefix _ _
  · rw [← List.singleton_append]
    exact Unbroken.sendLog rfl _ _
  · simp [getElem_runChunks, frameEnd_runChunk hfree] at hend

/-! ### The log of a frame -/

/-- What a frame's events can be once `frame_seq` has moved past it. -/
inductive FrameLog (cfg : TxConfig) : UInt16 → List TxEvent → Prop
  /-- A streamed frame that was given up, or of which a chunk failed or an entry was refused. -/
  | unfinished {info : FrameInfo} {seg : List TxEvent} {nextIdx : ℕ} {failed : Bool}
      (progress : Progress info seg nextIdx failed) : FrameLog cfg info.frameSeq seg
  /-- A streamed frame written to its end. -/
  | ended {info : FrameInfo} {seg : List TxEvent} {nextIdx : ℕ} {e : RingEntry}
      (progress : Progress info seg nextIdx false) (pts : e.pts = info.framePts)
      (last : e.isPartial = false)
      (fits : nextIdx + piecesNeeded e.data.length cfg.chunkPayload ≤ 0xFFFF) :
      FrameLog cfg info.frameSeq (seg ++ .entry e :: sendLog (partChunks cfg info nextIdx e true)
        (piecesNeeded e.data.length cfg.chunkPayload))
  /-- A frame sent whole, or some of its chunks. -/
  | whole {info : FrameInfo} {e : RingEntry} {k : ℕ} (free : info.FlagsFree)
      (pts : e.pts = info.framePts) (last : e.isPartial = false)
      (fits : chunkCountOf e.data.length cfg.chunkPayload ≤ 0xFFFF) :
      FrameLog cfg info.frameSeq (.entry e :: sendLog (runChunks info e.data cfg.chunkPayload 0
        (chunkCountOf e.data.length cfg.chunkPayload) (chunkCountOf e.data.length cfg.chunkPayload)
        false false) k)
  /-- A whole frame the chunker refused. -/
  | refused (frameSeq : UInt16) (e : RingEntry) : FrameLog cfg frameSeq [.entry e, .refused]

theorem FrameLog.wireDiscipline {cfg : TxConfig} {frameSeq : UInt16} {seg : List TxEvent}
    (h : FrameLog cfg frameSeq seg) : WireDiscipline frameSeq seg := by
  cases h with
  | unfinished progress => exact progress.wireDiscipline
  | ended progress pts last fits => exact progress.ended pts fits
  | whole free pts last fits => exact wireDiscipline_whole free pts fits
  | refused _ e =>
    have hfree : FrameInfo.FlagsFree ⟨frameSeq, 0, 0, e.pts⟩ :=
      show (0 : UInt8) &&& (chunkFlagFrameEnd ||| chunkFlagSliceEnd) = 0 by decide
    have hskip := (progress_nil hfree).skip rfl (show entriesOf [.refused] = [] from rfl) rfl
    exact hskip.wireDiscipline

/-! ### One entry -/

/-- `chunk_idx` of the entry's first chunk. -/
def TxState.firstIdx (s : TxState) (e : RingEntry) : ℕ :=
  if (s.abandon e).sf.isOpen then (s.abandon e).sf.nextIdx else 0

/-- The entry goes through `ar8030_chunk_part`: a slice of a frame of which no chunk failed. -/
def TxState.callsPart (s : TxState) (e : RingEntry) : Bool :=
  (e.isPartial || (s.abandon e).sf.isOpen) && !((s.abandon e).sf.isOpen && (s.abandon e).sf.failed)

/-- The 32-bit sums in `chunk_run` do not wrap for a slice. -/
def TxState.Fits (cfg : TxConfig) (s : TxState) (e : RingEntry) : Prop :=
  s.callsPart e = true → e.data.length + cfg.chunkPayload ≤ 2 ^ 32 ∧
    s.firstIdx e + piecesNeeded e.data.length cfg.chunkPayload < 2 ^ 32

instance (cfg : TxConfig) (s : TxState) (e : RingEntry) : Decidable (s.Fits cfg e) :=
  inferInstanceAs (Decidable (_ → _))

/-- What the chunks of the open frame carry alike. -/
def TxState.openInfo (s : TxState) : FrameInfo where
  frameSeq := s.frameSeq
  flags := s.sf.flags
  codec := chunkCodecH265
  framePts := s.sf.pts

/-- What sending an entry adds to the frame's events. -/
structure SentEvents (new : List TxEvent) : Prop where
  entries : entriesOf new = []
  noAdvance : ∀ x ∈ new, x.isAdvance = false

theorem sentEvents_nil : SentEvents [] := ⟨rfl, by simp⟩

theorem sentEvents_refused : SentEvents [.refused] := ⟨rfl, by simp [TxEvent.isAdvance]⟩

theorem sentEvents_sendLog (cs : List Chunk) (k : ℕ) : SentEvents (sendLog cs k) where
  entries := entriesOf_sendLog cs k
  noAdvance := by
    intro x hx
    rcases List.mem_append.mp hx with hx | hx <;> obtain ⟨c, -, rfl⟩ := List.mem_map.mp hx <;> rfl

/-- Sending a slice leaves what identifies the open frame as it is. -/
theorem sendPart_same (cfg : TxConfig) (s : TxState) (e : RingEntry) (outcomes : List Bool) :
    (s.sendPart cfg e outcomes).1.openInfo = s.openInfo ∧
      (s.sendPart cfg e outcomes).1.sf.isOpen = s.sf.isOpen := by
  rw [TxState.sendPart]
  split_ifs
  · exact ⟨rfl, rfl⟩
  · cases s.partCall cfg e outcomes <;> exact ⟨rfl, rfl⟩

/-- What a slice of the open frame does: nothing after a failure; otherwise it is refused, or
some of its chunks are written. -/
theorem sendPart_cases {cfg : TxConfig} {s : TxState} {e : RingEntry} (hpts : e.pts = s.sf.pts)
    (hfits : s.sf.failed = false → e.data.length + cfg.chunkPayload ≤ 2 ^ 32 ∧
      s.sf.nextIdx + piecesNeeded e.data.length cfg.chunkPayload < 2 ^ 32)
    (outcomes : List Bool) :
    (s.sf.failed = true ∧
      (s.sendPart cfg e outcomes).1.sf = { s.sf with entries := s.sf.entries + 1 } ∧
      (s.sendPart cfg e outcomes).2 = []) ∨
    (s.sf.failed = false ∧
      0xFFFF < s.sf.nextIdx + piecesNeeded e.data.length cfg.chunkPayload ∧
      (s.sendPart cfg e outcomes).1.sf = s.sf.afterCall none ∧
      (s.sendPart cfg e outcomes).2 = [.refused]) ∨
    (s.sf.failed = false ∧
      s.sf.nextIdx + piecesNeeded e.data.length cfg.chunkPayload ≤ 0xFFFF ∧
      ∃ k ≤ piecesNeeded e.data.length cfg.chunkPayload,
        (s.sendPart cfg e outcomes).1.sf =
          { s.sf with
            failed := k != piecesNeeded e.data.length cfg.chunkPayload
            sent := s.sf.sent + k
            nextIdx := s.sf.nextIdx + piecesNeeded e.data.length cfg.chunkPayload
            entries := s.sf.entries + 1 } ∧
        (s.sendPart cfg e outcomes).2 =
          sendLog (partChunks cfg s.openInfo s.sf.nextIdx e (!e.isPartial)) k) := by
  rw [TxState.sendPart]
  split_ifs with hfailed
  · exact Or.inl ⟨hfailed, rfl, rfl⟩
  have hok : s.sf.failed = false := Bool.eq_false_of_not_eq_true hfailed
  -- without a wrap, the count of `chunk_run` is the number of pieces
  obtain ⟨hwrap, hsum⟩ := hfits hok
  have hinfo : s.partInfo e = s.openInfo := by
    rw [TxState.partInfo, hpts]
    rfl
  rcases @chunkRun_socket cfg s.openInfo e.data s.sf.nextIdx 0 (!e.isPartial) true
    ⟨outcomes, [], s.stats⟩ rfl with ⟨hcall, hcount⟩ | ⟨r, hcall, hcount, hn, hle, hlog⟩
  -- `chunk_run` refuses the slice, or writes some of its chunks
  · have hpart : s.partCall cfg e outcomes = none := by
      rw [TxState.partCall, hinfo]
      exact hcall
    rw [chunkCountOf_eq hwrap, Nat.mod_eq_of_lt hsum] at hcount
    rw [hpart]
    exact Or.inr (Or.inl ⟨hok, hcount, rfl, rfl⟩)
  · have hpart : s.partCall cfg e outcomes = some r := by
      rw [TxState.partCall, hinfo]
      exact hcall
    rw [chunkCountOf_eq hwrap] at hcount hn
    rw [Nat.mod_eq_of_lt hsum] at hcount
    rw [hn] at hle hlog
    rw [hpart]
    refine Or.inr (Or.inr ⟨hok, hcount, r.sent, hle, ?_, hlog⟩)
    dsimp only [StreamedFrame.afterCall]
    rw [hn, hok, Bool.false_or]

/-- **A slice of the open frame**: the frame goes on, or this was its last one and it has
ended. -/
theorem sendPart_log {cfg : TxConfig} {s : TxState} {seg : List TxEvent} {e : RingEntry}
    (h : Progress s.openInfo seg s.sf.nextIdx s.sf.failed) (hpts : e.pts = s.sf.pts)
    (hfits : s.sf.failed = false → e.data.length + cfg.chunkPayload ≤ 2 ^ 32 ∧
      s.sf.nextIdx + piecesNeeded e.data.length cfg.chunkPayload < 2 ^ 32)
    (outcomes : List Bool) :
    SentEvents (s.sendPart cfg e outcomes).2 ∧
      (Progress s.openInfo (seg ++ .entry e :: (s.sendPart cfg e outcomes).2)
          (s.sendPart cfg e outcomes).1.sf.nextIdx (s.sendPart cfg e outcomes).1.sf.failed ∨
        (e.isPartial = false ∧
          FrameLog cfg s.frameSeq (seg ++ .entry e :: (s.sendPart cfg e outcomes).2))) := by
  rcases sendPart_cases hpts hfits outcomes with ⟨hfailed, hsf, hev⟩ | ⟨hok, -, hsf, hev⟩ |
    ⟨hok, hcount, k, hle, hsf, hev⟩
  · rw [hsf, hev]
    refine ⟨sentEvents_nil, Or.inl ?_⟩
    have hskip := h.skip hpts (show entriesOf [] = [] from rfl) rfl
    simpa [hfailed] using hskip
  · rw [hsf, hev]
    exact ⟨sentEvents_refused, Or.inl (h.skip hpts rfl rfl)⟩
  · rw [hok] at h
    rw [hsf, hev]
    refine ⟨sentEvents_sendLog _ _, ?_⟩
    -- only a last slice that was written as a whole has `FRAME_END`
    by_cases hend : e.isPartial = false ∧ k = piecesNeeded e.data.length cfg.chunkPayload
    · obtain ⟨hlast, hsent⟩ := hend
      rw [hsent, hlast]
      exact Or.inr ⟨rfl, FrameLog.ended h hpts hlast hcount⟩
    · refine Or.inl (h.sent hpts hcount hle fun hnot => ?_)
      have hlast : e.isPartial = false := by simpa using hnot
      exact lt_of_le_of_ne hle fun hsent => hend ⟨hlast, hsent⟩

/-- The chunks of a whole frame. -/
def wholeChunks (cfg : TxConfig) (frameSeq : UInt16) (e : RingEntry) : List Chunk :=
  runChunks ⟨frameSeq, frameFlagsFromMeta e.flags, chunkCodecH265, e.pts⟩ e.data cfg.chunkPayload 0
    (chunkCountOf e.data.length cfg.chunkPayload) (chunkCountOf e.data.length cfg.chunkPayload)
    false false

/-- What a whole frame does: it is refused, or some of its chunks are written. -/
theorem frameCall_cases (cfg : TxConfig) (s : TxState) (e : RingEntry) (outcomes : List Bool) :
    s.frameCall cfg e outcomes = none ∨
      (chunkCountOf e.data.length cfg.chunkPayload ≤ 0xFFFF ∧
        ∃ r, s.frameCall cfg e outcomes = some r ∧
          r.outChunkCount = chunkCountOf e.data.length cfg.chunkPayload ∧
          r.sent ≤ r.outChunkCount ∧
          r.ctx.log = sendLog (wholeChunks cfg s.frameSeq e) r.sent) := by
  have hpay : ¬ (cfg.chunkPayload = 0 ∨ chunkMaxPayload < cfg.chunkPayload) := by
    have := cfg.chunkPayload_pos
    have := cfg.chunkPayload_le
    omega
  rw [TxState.frameCall, chunkFrame, if_neg hpay]
  dsimp only
  split_ifs with hmany
  · exact Or.inl rfl
  rcases @chunkRun_socket cfg ⟨s.frameSeq, frameFlagsFromMeta e.flags, chunkCodecH265, e.pts⟩ e.data
    0 (chunkCountOf e.data.length cfg.chunkPayload) false false
    ⟨outcomes, [], { s.stats with framesIn := s.stats.framesIn + 1 }⟩ rfl with
    ⟨hcall, -⟩ | ⟨r, hcall, -, hn, hle, hlog⟩
  · exact Or.inl hcall
  · rw [hn] at hlog
    exact Or.inr ⟨by omega, r, hcall, hn, hle, hlog⟩

/-- A whole frame: the chunker takes it or refuses it. -/
theorem frameCall_log {cfg : TxConfig} {s : TxState} {e : RingEntry} (hlast : e.isPartial = false)
    (outcomes : List Bool) :
    SentEvents (callLog (s.frameCall cfg e outcomes)) ∧
      FrameLog cfg s.frameSeq (.entry e :: callLog (s.frameCall cfg e outcomes)) := by
  rcases frameCall_cases cfg s e outcomes with hcall | ⟨hcount, r, hcall, -, -, hlog⟩
  · rw [hcall]
    exact ⟨sentEvents_refused, FrameLog.refused _ e⟩
  · rw [hcall]
    show SentEvents r.ctx.log ∧ FrameLog cfg s.frameSeq (.entry e :: r.ctx.log)
    rw [hlog]
    refine ⟨sentEvents_sendLog _ _, ?_⟩
    exact @FrameLog.whole cfg ⟨s.frameSeq, frameFlagsFromMeta e.flags, chunkCodecH265, e.pts⟩ e _
      (frameFlagsFromMeta_free e.flags) rfl hlast hcount

/-! ### The invariant -/

/-- What holds after every entry. -/
structure Sending (cfg : TxConfig) (s : TxState) (logs : List (List TxEvent) × List TxEvent) :
    Prop where
  frameSeq : s.frameSeq = UInt16.ofNat logs.1.length
  idle : s.sf.isOpen = false → logs.2 = []
  sending : s.sf.isOpen = true →
    Progress s.openInfo logs.2 s.sf.nextIdx s.sf.failed ∧ entriesOf logs.2 ≠ []
  done : ∀ i, (hi : i < logs.1.length) → FrameLog cfg (UInt16.ofNat i) logs.1[i]

theorem sending_init (cfg : TxConfig) : Sending cfg TxState.init ([], []) :=
  ⟨rfl, fun _ => rfl, fun h => by simp [TxState.init] at h, fun i hi => by simp at hi⟩

section Step

variable {cfg : TxConfig} {s : TxState} {logs : List (List TxEvent) × List TxEvent} {e : RingEntry}

/-- `frame_seq` moves past a frame. -/
theorem Sending.advance (h : Sending cfg s logs) {s' : TxState} {seg : List TxEvent}
    (hseq : s'.frameSeq = s.frameSeq + 1) (hopen : s'.sf.isOpen = false)
    (hseg : FrameLog cfg s.frameSeq seg) : Sending cfg s' (logs.1 ++ [seg], []) where
  frameSeq := by
    rw [hseq, h.frameSeq, List.length_append, UInt16.ofNat_add]
    rfl
  idle := fun _ => rfl
  sending := fun ho => by simp [hopen] at ho
  done := by
    intro i hi
    dsimp only at hi ⊢
    rw [List.getElem_append]
    split_ifs with hold
    · exact h.done i hold
    · have hlast : i = logs.1.length := by
        rw [List.length_append, List.length_singleton] at hi
        omega
      simpa [hlast, ← h.frameSeq] using hseg

/-- An open frame is given up for an entry of another one. -/
theorem Sending.abandon (h : Sending cfg s logs) (e : RingEntry) :
    Sending cfg (s.abandon e) (if s.abandons e then (logs.1 ++ [logs.2], []) else logs) := by
  rw [TxState.abandon]
  split_ifs with hab
  · obtain ⟨hopen, -⟩ : s.sf.isOpen = true ∧ _ := by simpa [TxState.abandons] using hab
    exact h.advance rfl rfl (FrameLog.unfinished (h.sending hopen).1)
  · exact h

/-- After that the open frame is the entry's own. -/
theorem pts_of_isOpen_abandon (h : (s.abandon e).sf.isOpen = true) :
    e.pts = (s.abandon e).sf.pts := by
  rw [TxState.abandon] at h ⊢
  split_ifs at h ⊢ with hab
  · simpa [TxState.abandons, h] using hab

/-- The frame the entry is a slice of, opened if it was not. -/
theorem Sending.openFrame (h : Sending cfg s logs) (hpts : s.sf.isOpen = true → e.pts = s.sf.pts) :
    Progress (s.openFrame e).openInfo logs.2 (s.openFrame e).sf.nextIdx (s.openFrame e).sf.failed ∧
      e.pts = (s.openFrame e).sf.pts := by
  rw [TxState.openFrame]
  split_ifs with hopen
  · exact ⟨(h.sending hopen).1, hpts hopen⟩
  · rw [h.idle (Bool.eq_false_of_not_eq_true hopen)]
    exact ⟨progress_nil (frameFlagsFromMeta_free e.flags), rfl⟩

/-- The frame's events with one more entry, moved past if it was the last one. -/
def addEntry (logs : List (List TxEvent) × List TxEvent) (e : RingEntry) (new : List TxEvent) :
    List (List TxEvent) × List TxEvent :=
  if e.isPartial then (logs.1, logs.2 ++ .entry e :: new)
  else (logs.1 ++ [logs.2 ++ .entry e :: new], [])

/-- The frame left open ends when its entry is followed by one of another frame. -/
theorem frameLogs_abandons {tr : List TxEvent} :
    frameLogs (tr ++ if s.abandons e then [.advance] else []) =
      if s.abandons e then ((frameLogs tr).1 ++ [(frameLogs tr).2], []) else frameLogs tr := by
  split_ifs
  · exact cutAt_concat tr .advance
  · rw [List.append_nil]

theorem frameLogs_addEntry {tr new : List TxEvent} (hnew : SentEvents new) :
    frameLogs (tr ++ .entry e :: (new ++ if e.isPartial then [] else [.advance])) =
      addEntry (frameLogs tr) e new := by
  have hno : ∀ x ∈ TxEvent.entry e :: new, x.isAdvance = false := by
    intro x hx
    rcases List.mem_cons.mp hx with rfl | hx
    · rfl
    · exact hnew.noAdvance x hx
  rw [← List.cons_append, ← List.append_assoc, addEntry, frameLogs, frameLogs]
  split_ifs
  · rw [List.append_nil, cutAt_append hno]
  · rw [cutAt_concat, cutAt_append hno]
    rfl

/-- A slice. -/
theorem Sending.sendSlice (h : Sending cfg s logs) (hpts : s.sf.isOpen = true → e.pts = s.sf.pts)
    (hfits : (s.openFrame e).sf.failed = false → e.data.length + cfg.chunkPayload ≤ 2 ^ 32 ∧
      (s.openFrame e).sf.nextIdx + piecesNeeded e.data.length cfg.chunkPayload < 2 ^ 32)
    (outcomes : List Bool) :
    ∃ new, SentEvents new ∧
      (s.sendSlice cfg e outcomes).2 = new ++ (if e.isPartial then [] else [.advance]) ∧
      Sending cfg (s.sendSlice cfg e outcomes).1 (addEntry logs e new) := by
  obtain ⟨hprog, hpts'⟩ := h.openFrame hpts
  obtain ⟨hsent, hlog⟩ := sendPart_log hprog hpts' hfits outcomes
  obtain ⟨hinfo, hisOpen⟩ := sendPart_same cfg (s.openFrame e) e outcomes
  have hseq : (s.openFrame e).frameSeq = s.frameSeq := by
    rw [TxState.openFrame]
    split_ifs <;> rfl
  have hopen : (s.openFrame e).sf.isOpen = true := by
    rw [TxState.openFrame]
    split_ifs with ho
    · exact ho
    · rfl
  have hseq' : ((s.openFrame e).sendPart cfg e outcomes).1.frameSeq = s.frameSeq :=
    (congrArg FrameInfo.frameSeq hinfo).trans hseq
  refine ⟨_, hsent, ?_⟩
  rw [TxState.sendSlice, addEntry]
  cases hpart : e.isPartial with
  | true =>
    refine ⟨(List.append_nil _).symm, ?_, fun ho => ?_, fun _ => ⟨?_, ?_⟩, h.done⟩
    · exact hseq'.trans h.frameSeq
    · exact absurd (hisOpen.trans hopen) (by simpa using ho)
    · -- only the last slice ends a frame
      have := hlog.resolve_right fun hlast => by simp [hpart] at hlast
      rwa [← hinfo] at this
    · simp [entriesOf_append]
  | false =>
    refine ⟨rfl, h.advance (congrArg (· + 1) hseq') rfl ?_⟩
    rcases hlog with hlog | hlog
    · rw [← hseq]
      exact FrameLog.unfinished hlog
    · rw [← hseq]
      exact hlog.2

/-- A whole frame. -/
theorem Sending.sendWhole (h : Sending cfg s logs) (hopen : s.sf.isOpen = false)
    (hlast : e.isPartial = false) (outcomes : List Bool) :
    ∃ new, SentEvents new ∧
      (s.sendWhole cfg e outcomes).2 = new ++ (if e.isPartial then [] else [.advance]) ∧
      Sending cfg (s.sendWhole cfg e outcomes).1 (addEntry logs e new) := by
  obtain ⟨hsent, hlog⟩ := @frameCall_log cfg s e hlast outcomes
  refine ⟨_, hsent, by rw [hlast]; rfl, ?_⟩
  rw [addEntry, hlast, h.idle hopen]
  exact h.advance rfl hopen hlog

/-- What `Fits` says of the state in which the slice is sent. -/
theorem TxState.Fits.openFrame (hfits : s.Fits cfg e)
    (hslice : (e.isPartial || (s.abandon e).sf.isOpen) = true)
    (hok : ((s.abandon e).openFrame e).sf.failed = false) :
    e.data.length + cfg.chunkPayload ≤ 2 ^ 32 ∧
      ((s.abandon e).openFrame e).sf.nextIdx + piecesNeeded e.data.length cfg.chunkPayload <
        2 ^ 32 := by
  have hidx : ((s.abandon e).openFrame e).sf.nextIdx = s.firstIdx e := by
    rw [TxState.openFrame, TxState.firstIdx]
    split_ifs <;> rfl
  rw [hidx]
  refine hfits ?_
  rw [TxState.callsPart, hslice, Bool.true_and]
  rw [TxState.openFrame] at hok
  split_ifs at hok with ho
  · rw [ho, hok]
    rfl
  · simp [Bool.eq_false_of_not_eq_true ho]

/-- **One entry** keeps the invariant, and adds itself to its frame. -/
theorem Sending.step {tr : List TxEvent} (h : Sending cfg s (frameLogs tr)) (hfits : s.Fits cfg e)
    (outcomes : List Bool) :
    Sending cfg (txStep cfg s (e, outcomes)).1 (frameLogs (tr ++ (txStep cfg s (e, outcomes)).2)) ∧
      ∃ new, entriesOf new = [] ∧ frameLogs (tr ++ (txStep cfg s (e, outcomes)).2) =
        addEntry (if s.abandons e then ((frameLogs tr).1 ++ [(frameLogs tr).2], [])
          else frameLogs tr) e new := by
  obtain ⟨new, hsent, hev, hstep⟩ : ∃ new, SentEvents new ∧
      (txStep cfg s (e, outcomes)).2 = (if s.abandons e then [.advance] else []) ++
        .entry e :: (new ++ if e.isPartial then [] else [.advance]) ∧
      Sending cfg (txStep cfg s (e, outcomes)).1
        (addEntry (if s.abandons e then ((frameLogs tr).1 ++ [(frameLogs tr).2], [])
          else frameLogs tr) e new) := by
    have h' := h.abandon e
    rw [txStep]
    dsimp only
    by_cases hslice : (e.isPartial || (s.abandon e).sf.isOpen) = true
    · rw [if_pos hslice]
      obtain ⟨new, hsent, hev, hstep⟩ := h'.sendSlice pts_of_isOpen_abandon (hfits.openFrame hslice)
        outcomes
      exact ⟨new, hsent, by rw [hev], hstep⟩
    · rw [if_neg hslice]
      obtain ⟨hlast, hopen⟩ : e.isPartial = false ∧ (s.abandon e).sf.isOpen = false := by
        simpa using hslice
      obtain ⟨new, hsent, hev, hstep⟩ := h'.sendWhole hopen hlast outcomes
      exact ⟨new, hsent, by rw [hev], hstep⟩
  have hlogs : frameLogs (tr ++ (txStep cfg s (e, outcomes)).2) =
      addEntry (if s.abandons e then ((frameLogs tr).1 ++ [(frameLogs tr).2], [])
        else frameLogs tr) e new := by
    rw [hev, ← List.append_assoc, frameLogs_addEntry hsent, frameLogs_abandons]
  rw [hlogs]
  exact ⟨hstep, new, hsent.entries, rfl⟩

end Step

/-! ### Entries and frames -/

/-- The frame `cur` with one more thing `x`: `other` if `x` is of another frame, and the frame
of `x` has ended unless it `isPartial`. -/
def groupWith {α : Type*} (cur : List α) (x : α) (other isPartial : Bool) :
    List α × List (List α) :=
  let mine := (if other then [] else cur) ++ [x]
  (if isPartial then mine else [],
    (if other then [cur] else []) ++ if isPartial then [] else [mine])

/-- How entries of the ring, or things that have one, make up frames: an entry ends its frame
unless it is `PARTIAL`, and one with another pts than the entries before it starts a new
frame. -/
def groupStep {α : Type*} (entry : α → RingEntry) (cur : List α) (x : α) :
    List α × List (List α) :=
  groupWith cur x (cur.any fun d => (entry d).pts != (entry x).pts) (entry x).isPartial

/-- The frames the entries make up, and the one that has not ended. -/
def entryFrames (entries : List RingEntry) : List RingEntry × List (List RingEntry) :=
  Mealy.run (groupStep id) [] entries

theorem Sending.abandons_eq {cfg : TxConfig} {s : TxState}
    {logs : List (List TxEvent) × List TxEvent} (h : Sending cfg s logs) (e : RingEntry) :
    s.abandons e = (entriesOf logs.2).any fun d => d.pts != e.pts := by
  rw [TxState.abandons]
  cases hopen : s.sf.isOpen with
  | false =>
    rw [h.idle hopen]
    rfl
  | true =>
    obtain ⟨hprog, hne⟩ := h.sending hopen
    have hpts : ∀ d ∈ entriesOf logs.2, (d.pts != e.pts) = (e.pts != s.sf.pts) := by
      intro d hd
      rw [hprog.framePts d hd, bne_comm]
      rfl
    rw [Bool.true_and, Bool.eq_iff_iff, List.any_eq_true]
    constructor
    · intro hother
      obtain ⟨d, hd⟩ := List.exists_mem_of_ne_nil _ hne
      exact ⟨d, hd, (hpts d hd).trans hother⟩
    · rintro ⟨d, hd, hother⟩
      rwa [hpts d hd] at hother

/-- The entries of the frames after one more entry. -/
theorem entriesOf_addEntry (logs : List (List TxEvent) × List TxEvent) (e : RingEntry)
    {new : List TxEvent} (hnew : entriesOf new = []) {other : Bool}
    (hother : other = (entriesOf logs.2).any fun d => d.pts != e.pts) :
    entriesOf (addEntry (if other then (logs.1 ++ [logs.2], []) else logs) e new).2 =
        (groupStep id (entriesOf logs.2) e).1 ∧
      (addEntry (if other then (logs.1 ++ [logs.2], []) else logs) e new).1.map entriesOf =
        logs.1.map entriesOf ++ (groupStep id (entriesOf logs.2) e).2 := by
  have hgroup : groupStep id (entriesOf logs.2) e =
      groupWith (entriesOf logs.2) e other e.isPartial := by
    rw [hother]
    rfl
  rw [hgroup, groupWith, addEntry]
  cases other <;> cases e.isPartial <;> simp [entriesOf_append, hnew] <;> rfl

/-! ### Runs -/

/-- The sums of `chunk_run` wrap for no slice of the run. -/
def EveryFits (cfg : TxConfig) (inputs : List (RingEntry × List Bool)) : Prop :=
  Always (fun past x => (txRun cfg past).1.Fits cfg x.1) inputs

instance (cfg : TxConfig) (inputs : List (RingEntry × List Bool)) :
    Decidable (EveryFits cfg inputs) :=
  inferInstanceAs (Decidable (Always _ inputs))

theorem sending_txRun (cfg : TxConfig) (inputs : List (RingEntry × List Bool))
    (hfits : EveryFits cfg inputs) :
    Sending cfg (txRun cfg inputs).1 (frameLogs (txRun cfg inputs).2) ∧
      entriesOf (frameLogs (txRun cfg inputs).2).2 = (entryFrames (inputs.map Prod.fst)).1 ∧
      (frameLogs (txRun cfg inputs).2).1.map entriesOf = (entryFrames (inputs.map Prod.fst)).2 := by
  induction inputs using List.reverseRecOn with
  | nil => exact ⟨sending_init cfg, rfl, rfl⟩
  | append_singleton inputs x ih =>
    obtain ⟨hfits', hx⟩ := always_concat_iff.mp hfits
    obtain ⟨hsend, hcur, hdone⟩ := ih hfits'
    obtain ⟨hstep, new, hnew, hlogs⟩ := hsend.step hx x.2
    have hrun : txRun cfg (inputs ++ [x]) = ((txStep cfg (txRun cfg inputs).1 x).1,
        (txRun cfg inputs).2 ++ (txStep cfg (txRun cfg inputs).1 x).2) := Mealy.run_concat ..
    have hgroup : entryFrames ((inputs ++ [x]).map Prod.fst) =
        ((groupStep id (entryFrames (inputs.map Prod.fst)).1 x.1).1,
          (entryFrames (inputs.map Prod.fst)).2 ++
            (groupStep id (entryFrames (inputs.map Prod.fst)).1 x.1).2) := by
      rw [List.map_append]
      exact Mealy.run_concat ..
    obtain ⟨hcur', hdone'⟩ := entriesOf_addEntry _ x.1 hnew (hsend.abandons_eq x.1)
    rw [hrun, hgroup, ← hcur, ← hdone]
    refine ⟨hstep, ?_, ?_⟩
    · rw [hlogs]
      exact hcur'
    · rw [hlogs]
      exact hdone'

/-- **Wire discipline**: whatever entries come and whichever writes fail, the chunks written
between two increments of `frame_seq` are those of one frame in order. `frame_seq` moves on
once for each frame of the ring, and no other time. -/
theorem wire_discipline (cfg : TxConfig) (inputs : List (RingEntry × List Bool))
    (hfits : EveryFits cfg inputs) :
    (∀ i, (hi : i < (frameLogs (txRun cfg inputs).2).1.length) →
      WireDiscipline (UInt16.ofNat i) (frameLogs (txRun cfg inputs).2).1[i]) ∧
    WireDiscipline (txRun cfg inputs).1.frameSeq (frameLogs (txRun cfg inputs).2).2 ∧
    (txRun cfg inputs).1.frameSeq = UInt16.ofNat (frameLogs (txRun cfg inputs).2).1.length ∧
    (frameLogs (txRun cfg inputs).2).1.map entriesOf = (entryFrames (inputs.map Prod.fst)).2 ∧
    entriesOf (frameLogs (txRun cfg inputs).2).2 = (entryFrames (inputs.map Prod.fst)).1 := by
  obtain ⟨hsend, hcur, hdone⟩ := sending_txRun cfg inputs hfits
  refine ⟨fun i hi => (hsend.done i hi).wireDiscipline, ?_, hsend.frameSeq, hdone, hcur⟩
  cases hopen : (txRun cfg inputs).1.sf.isOpen with
  | true => exact (hsend.sending hopen).1.wireDiscipline
  | false =>
    rw [hsend.idle hopen]
    have hfree : FrameInfo.FlagsFree ⟨(txRun cfg inputs).1.frameSeq, 0, 0, 0⟩ :=
      show (0 : UInt8) &&& (chunkFlagFrameEnd ||| chunkFlagSliceEnd) = 0 by decide
    exact (progress_nil hfree).wireDiscipline

/-- The payload size the sender uses by default. -/
def defaultTxConfig : TxConfig := ⟨65535, by decide, le_rfl⟩

/-- The first slice of a frame. -/
def sampleSlice : RingEntry := ⟨1000, vencFrameFlagPartial, [0x11]⟩

/-- A frame of two slices, of which the second one is not written, and a frame sent whole. -/
def sampleInputs : List (RingEntry × List Bool) :=
  [(sampleSlice, []), (⟨1000, 0, [0x22]⟩, [false]), (⟨17667, 0, [0x33]⟩, [])]

theorem everyFits_sampleInputs : EveryFits defaultTxConfig sampleInputs := by
  decide +kernel

theorem wire_discipline_two_frames :
    (txRun defaultTxConfig sampleInputs).1.frameSeq = 2 ∧
      (frameLogs (txRun defaultTxConfig sampleInputs).2).1.map entriesOf =
        [[sampleSlice, ⟨1000, 0, [0x22]⟩], [⟨17667, 0, [0x33]⟩]] ∧
      ∀ seg ∈ (frameLogs (txRun defaultTxConfig sampleInputs).2).1, ∃ n, WireDiscipline n seg := by
  obtain ⟨hdone, -, -, hframes, -⟩ := wire_discipline _ _ everyFits_sampleInputs
  refine ⟨by decide +kernel, hframes, fun seg hseg => ?_⟩
  obtain ⟨i, hi, rfl⟩ := List.mem_iff_getElem.mp hseg
  exact ⟨_, hdone i hi⟩

/-- The 32-bit chunk count of data just long enough to wrap. -/
theorem chunkCountOf_wrapped : chunkCountOf (2 ^ 32 - 65534) 65535 = 1 := by decide

/-- The state with the first slice sent. -/
def sampleOpenState : TxState where
  frameSeq := 0
  sf := ⟨true, false, 1000, 0, 1, 1, 1⟩
  stats := ⟨1, 0, 0, 1, 0, 23⟩

/-- The chunk of the first slice. -/
def sampleSliceChunk : Chunk :=
  runChunk ⟨0, 0, chunkCodecH265, 1000⟩ [0x11] 65535 0 0 1 false true 0

theorem txStep_sampleSlice : txStep defaultTxConfig TxState.init (sampleSlice, []) =
    (sampleOpenState, [.entry sampleSlice, .wrote sampleSliceChunk]) := by
  decide +kernel

/-- A last slice of `2 ^ 32 - 65534` bytes: the 32-bit sum wraps to 0, and one chunk with the
first 65535 bytes goes out as the end of the frame. -/
theorem txStep_wrapped (data : List UInt8) (hlen : data.length = 2 ^ 32 - 65534) :
    (txStep defaultTxConfig sampleOpenState (⟨1000, 0, data⟩, [])).2 =
      [.entry ⟨1000, 0, data⟩,
        .wrote (runChunk ⟨0, 0, chunkCodecH265, 1000⟩ data 65535 1 0 1 true true 0), .advance] := by
  have hcount : chunkCountOf data.length 65535 = 1 := by
    rw [hlen]
    exact chunkCountOf_wrapped
  have hcall := @chunkRun_eq_some SendCtx chunkSendToSocket ⟨0, 0, chunkCodecH265, 1000⟩ data
    65535 1 0 65557 true true ⟨[], [], sampleOpenState.stats⟩ (by decide) le_rfl (by decide)
    (by rw [hcount]; decide)
  have hlast : RingEntry.isPartial ⟨1000, 0, data⟩ = false := by
    show hasFlag 0 vencFrameFlagPartial = false
    decide
  have habandons : sampleOpenState.abandons ⟨1000, 0, data⟩ = false := by
    show (true && (1000 : UInt32) != 1000) = false
    decide
  have hpart : sampleOpenState.partCall defaultTxConfig ⟨1000, 0, data⟩ [] =
      chunkRun ⟨0, 0, chunkCodecH265, 1000⟩ data 65535 1 0 true true chunkSendToSocket
        ⟨[], [], sampleOpenState.stats⟩ 65557 := by
    rw [TxState.partCall, chunkPart, hlast]
    rfl
  rw [hcount, ← hpart] at hcall
  have hslice : (sampleOpenState.sendSlice defaultTxConfig ⟨1000, 0, data⟩ []).2 =
      callLog (sampleOpenState.partCall defaultTxConfig ⟨1000, 0, data⟩ []) ++ [.advance] := by
    rw [TxState.sendSlice, hlast]
    rfl
  have habandon : sampleOpenState.abandon ⟨1000, 0, data⟩ = sampleOpenState := by
    rw [TxState.abandon, habandons]
    rfl
  rw [txStep]
  dsimp only
  rw [habandon, habandons, if_neg Bool.false_ne_true, if_pos (by rw [hlast]; rfl), hslice, hcall]
  rfl

/-- A frame whose last slice is long enough for the chunk count to wrap ends with a chunk that
leaves most of it out. -/
theorem not_wireDiscipline_of_wrap (data : List UInt8) (hlen : data.length = 2 ^ 32 - 65534) :
    ¬ WireDiscipline 0 ((frameLogs (txRun defaultTxConfig
      [(sampleSlice, []), (⟨1000, 0, data⟩, [])]).2).1[0]?.getD []) := by
  have htr : (txRun defaultTxConfig [(sampleSlice, []), (⟨1000, 0, data⟩, [])]).2 =
      [.entry sampleSlice, .wrote sampleSliceChunk, .entry ⟨1000, 0, data⟩,
        .wrote (runChunk ⟨0, 0, chunkCodecH265, 1000⟩ data 65535 1 0 1 true true 0), .advance] := by
    rw [txRun, Mealy.run_cons, txStep_sampleSlice, Mealy.run_cons, txStep_wrapped data hlen]
    rfl
  have hlog : (frameLogs (txRun defaultTxConfig
      [(sampleSlice, []), (⟨1000, 0, data⟩, [])]).2).1[0]?.getD [] =
      [.entry sampleSlice, .wrote sampleSliceChunk, .entry ⟨1000, 0, data⟩,
        .wrote (runChunk ⟨0, 0, chunkCodecH265, 1000⟩ data 65535 1 0 1 true true 0)] := by
    rw [htr]
    rfl
  rw [hlog]
  intro h
  have hend : hasFlag (runChunk ⟨0, 0, chunkCodecH265, 1000⟩ data 65535 1 0 1 true true 0).hdr.flags
      chunkFlagFrameEnd = true := by
    rw [frameEnd_runChunk (by decide)]
    rfl
  have hlength := congrArg List.length (h.frameEnd 1 (by decide : 1 < 2) hend).2.2
  have hwritten : (frameData [sampleSliceChunk,
      runChunk ⟨0, 0, chunkCodecH265, 1000⟩ data 65535 1 0 1 true true 0]).length =
        1 + (piece 65535 data 0).length := by
    simp [frameData, sampleSliceChunk, runChunk, piece, Nat.add_comm]
  have hentries : (entryData [.entry sampleSlice, .wrote sampleSliceChunk, .entry ⟨1000, 0, data⟩,
      .wrote (runChunk ⟨0, 0, chunkCodecH265, 1000⟩ data 65535 1 0 1 true true 0)]).length =
        1 + data.length := by
    show (sampleSlice.data ++ (data ++ [])).length = 1 + data.length
    rw [List.append_nil, List.length_append]
    rfl
  have hshort := length_piece_le 65535 data 0
  have hlong : 1 + (piece 65535 data 0).length = 1 + data.length :=
    hwritten.symm.trans (hlength.trans hentries)
  omega

/-- Such a slice, with all bytes 0. -/
theorem not_wireDiscipline_wrapped :
    ¬ WireDiscipline 0 ((frameLogs (txRun defaultTxConfig
      [(sampleSlice, []), (⟨1000, 0, List.replicate (2 ^ 32 - 65534) 0⟩, [])]).2).1[0]?.getD []) :=
  not_wireDiscipline_of_wrap _ List.length_replicate

end Ar8030
