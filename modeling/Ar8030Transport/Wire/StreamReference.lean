import Mathlib.Algebra.BigOperators.Group.List.Basic
import Ar8030Transport.Wire.StreamRefinement

/-!
# The stream reader against the reference parser

`refParse` parses a whole byte stream in one go: find the first magic; stop if the chunk it
announces is not all there; hand the chunk on if its checksum matches, and otherwise go on
behind the magic. It is the greedy parser of `Wire/Resync.lean` read in bulk
(`refParse_eq`).

Successive calls of the reader return exactly the reference's chunks, with the reference's
counters and leftover, for every way the stream is cut into reads.
-/

namespace Ar8030

open Search

/-! ### The reference -/

/-- What parsing a whole stream comes to. -/
structure RefResult where
  chunks : List (ChunkHdr × List UInt8)
  bytesConsumed : ℕ
  resyncDroppedBytes : ℕ
  checksumFails : ℕ
  residual : List UInt8
  deriving DecidableEq, Repr

/-- The chunk announced at the front of `l` is not all there. -/
def FrontShort (l : List UInt8) : Prop := l.length < chunkHdrSize ∨ l.length < frontNeed l

instance (l : List UInt8) : Decidable (FrontShort l) := inferInstanceAs (Decidable (_ ∨ _))

/-- The reference parser of a whole stream. -/
def refParse (bytes : List UInt8) : RefResult :=
  match h : firstOcc magicBytes bytes with
  | none =>
    { chunks := []
      bytesConsumed := 0
      -- the last three bytes may still be the start of a magic
      resyncDroppedBytes := bytes.length - 3
      checksumFails := 0
      residual := bytes.drop (bytes.length - 3) }
  | some p =>
    if hshort : FrontShort (bytes.drop p) then
      { chunks := []
        bytesConsumed := 0
        resyncDroppedBytes := p
        checksumFails := 0
        residual := bytes.drop p }
    else
      if crc16 (frontPayload (bytes.drop p)) = (frontHdr (bytes.drop p)).checksum then
        let r := refParse (bytes.drop (p + frontNeed (bytes.drop p)))
        { r with
          chunks := (frontHdr (bytes.drop p), frontPayload (bytes.drop p)) :: r.chunks
          bytesConsumed := frontNeed (bytes.drop p) + r.bytesConsumed
          resyncDroppedBytes := p + r.resyncDroppedBytes }
      else
        let r := refParse (bytes.drop (p + 4))
        { r with
          resyncDroppedBytes := p + 4 + r.resyncDroppedBytes
          checksumFails := 1 + r.checksumFails }
termination_by bytes.length
decreasing_by
  all_goals
    have hlen := (prefix_drop_of_firstOcc h).length_le
    have hneed := chunkHdrSize_le_frontNeed (bytes.drop p)
    have hsize : 0 < chunkHdrSize := by decide
    rw [length_magicBytes, List.length_drop] at hlen
    rw [List.length_drop]
    omega

/-- The reference result that a list of parser events and a leftover amount to. -/
def RefResult.ofEvents (evs : List ScanEvent) (residual : List UInt8) : RefResult where
  chunks := chunksOf evs
  bytesConsumed := tally ScanEvent.consumed evs
  resyncDroppedBytes := tally ScanEvent.dropped evs
  checksumFails := tally ScanEvent.fails evs
  residual := residual

theorem scanStep_of_length_lt {l : List UInt8} (h : l.length < 4) : scanStep l = none := by
  rw [scanStep, if_pos h]

theorem scanStep_of_frontShort {l : List UInt8} (hmagic : l.take 4 = magicBytes)
    (h : FrontShort l) : scanStep l = none := by
  have hready : ¬ (chunkHdrSize ≤ l.length ∧ frontNeed l ≤ l.length) := by
    rw [FrontShort] at h
    omega
  rw [scanStep, if_pos hmagic, if_neg hready, ite_self]

theorem scanStep_of_magic {l : List UInt8} (hmagic : l.take 4 = magicBytes)
    (h : ¬ FrontShort l) :
    scanStep l =
      if crc16 (frontPayload l) = (frontHdr l).checksum then
        some (.chunk (frontHdr l) (frontPayload l), l.drop (frontNeed l))
      else some (.fail, l.drop 4) := by
  have hsize : 4 ≤ chunkHdrSize := by decide
  rw [FrontShort, not_or, not_lt, not_lt] at h
  rw [scanStep, if_neg (by omega), if_pos hmagic, if_pos h]

/-- The parser in front of a magic at offset `p`: `p` bytes of junk. -/
theorem events_of_firstOcc {bytes : List UInt8} {p : ℕ} (h : firstOcc magicBytes bytes = some p) :
    chunkParser.events bytes =
        List.replicate p .junk ++ chunkParser.events (bytes.drop p) ∧
      chunkParser.residual bytes = chunkParser.residual (bytes.drop p) := by
  have hlen := (prefix_drop_of_firstOcc h).length_le
  rw [length_magicBytes, List.length_drop] at hlen
  have := events_drop_junk (l := bytes) (n := p)
    (fun i hi => ⟨by omega, not_prefix_drop_of_lt_firstOcc h hi⟩) []
  simpa using this

/-- The parser without any magic: all but the last three bytes are junk. -/
theorem events_of_firstOcc_none {bytes : List UInt8} (h : firstOcc magicBytes bytes = none) :
    chunkParser.events bytes = List.replicate (bytes.length - 3) .junk ∧
      chunkParser.residual bytes = bytes.drop (bytes.length - 3) := by
  have hjunk := events_drop_junk (l := bytes) (n := bytes.length - 3)
    (fun i hi => ⟨by omega, not_prefix_drop_of_firstOcc_none h i⟩) []
  have hwait : chunkParser.step (bytes.drop (bytes.length - 3)) = none :=
    scanStep_of_length_lt (by rw [List.length_drop]; omega)
  simp only [List.append_nil] at hjunk
  rw [hjunk.1, hjunk.2, chunkParser.events_of_none hwait, chunkParser.residual_of_none hwait,
    List.append_nil]
  exact ⟨rfl, rfl⟩

/-- **The reference is the greedy parser read in bulk.** -/
theorem refParse_eq (bytes : List UInt8) :
    refParse bytes =
      .ofEvents (chunkParser.events bytes) (chunkParser.residual bytes) := by
  fun_induction refParse bytes with
  | case1 bytes h =>
    obtain ⟨hev, hres⟩ := events_of_firstOcc_none h
    simp [RefResult.ofEvents, hev, hres, ScanEvent.consumed, ScanEvent.dropped, ScanEvent.fails]
  | case2 bytes p h hshort =>
    -- the chunk is not all there yet
    have hmagic := magicBytes_prefix_iff.mp (prefix_drop_of_firstOcc h)
    have hwait : chunkParser.step (bytes.drop p) = none := scanStep_of_frontShort hmagic hshort
    obtain ⟨hev, hres⟩ := events_of_firstOcc h
    rw [chunkParser.events_of_none hwait] at hev
    rw [chunkParser.residual_of_none hwait] at hres
    simp [RefResult.ofEvents, hev, hres, ScanEvent.consumed, ScanEvent.dropped, ScanEvent.fails]
  | case3 bytes p h hshort hcrc r ih =>
    -- a chunk, and the parse goes on behind it
    have hmagic := magicBytes_prefix_iff.mp (prefix_drop_of_firstOcc h)
    have hstep : chunkParser.step (bytes.drop p) = _ :=
      (scanStep_of_magic hmagic hshort).trans (if_pos hcrc)
    obtain ⟨hev, hres⟩ := events_of_firstOcc h
    rw [chunkParser.events_of_some hstep, List.drop_drop] at hev
    rw [chunkParser.residual_of_some hstep, List.drop_drop] at hres
    rw [show r = _ from ih]
    simp [RefResult.ofEvents, hev, hres, ScanEvent.consumed, ScanEvent.dropped, ScanEvent.fails,
      ScanEvent.chunk?, frontNeed]
  | case4 bytes p h hshort hcrc r ih =>
    -- a bad checksum: only the magic is skipped
    have hmagic := magicBytes_prefix_iff.mp (prefix_drop_of_firstOcc h)
    have hstep : chunkParser.step (bytes.drop p) = _ :=
      (scanStep_of_magic hmagic hshort).trans (if_neg hcrc)
    obtain ⟨hev, hres⟩ := events_of_firstOcc h
    rw [chunkParser.events_of_some hstep, List.drop_drop] at hev
    rw [chunkParser.residual_of_some hstep, List.drop_drop] at hres
    rw [show r = _ from ih]
    simp [RefResult.ofEvents, hev, hres, ScanEvent.consumed, ScanEvent.dropped, ScanEvent.fails,
      ScanEvent.chunk?, Nat.add_assoc]

/-! ### Successive calls -/

/-- What a sequence of calls does. -/
structure CallsOutcome (got : List UInt8) (evs : List ScanEvent) (s : ChunkStream)
    (w : ReadSource) (r : List ReadResult × ChunkStream × ReadSource) (more : List UInt8)
    (new : List ScanEvent) : Prop where
  rest : w.rest = more ++ r.2.2.rest
  cap : r.2.1.cap = s.cap
  stopFlag : r.2.1.stopFlag = s.stopFlag
  tracks : Tracks (got ++ more) (evs ++ new) r.2.1
  chunks : chunksOf new = r.1.filterMap ReadResult.chunk?
  noError : .error ∉ r.1
  waits : r.1.getLast? = some .none → scanStep r.2.1.buf = none

theorem Tracks.readCalls {payloadBufCap : ℕ} (n : ℕ) {s : ChunkStream} {w : ReadSource}
    {got : List UInt8} {evs : List ScanEvent} (h : Tracks got evs s)
    (hcap : chunkHdrSize + chunkMaxPayload ≤ s.cap) (hpay : chunkMaxPayload ≤ payloadBufCap)
    (hstop : s.stopFlag = false) :
    ∃ more new, CallsOutcome got evs s w (s.readCalls payloadBufCap n w) more new := by
  induction n generalizing s w got evs with
  | zero =>
    refine ⟨[], [], rfl, rfl, rfl, ?_, rfl, ?_, ?_⟩
    · rwa [List.append_nil, List.append_nil]
    · simp [ChunkStream.readCalls]
    · simp [ChunkStream.readCalls]
  | succ n ih =>
    obtain ⟨more, new, hout⟩ := h.read (w := w) hcap hpay hstop
    obtain ⟨more', new', hcalls⟩ := ih (w := (s.read payloadBufCap w).2.2) hout.tracks
      (hout.cap ▸ hcap) (hout.stopFlag.trans hstop)
    refine ⟨more ++ more', new ++ new', ?_⟩
    rw [ChunkStream.readCalls]
    constructor
    · rw [hout.rest, hcalls.rest, List.append_assoc]
    · exact hcalls.cap.trans hout.cap
    · exact hcalls.stopFlag.trans hout.stopFlag
    · rw [← List.append_assoc, ← List.append_assoc]
      exact hcalls.tracks
    · rw [chunksOf_append, hout.chunks, hcalls.chunks, List.filterMap_cons]
      cases (s.read payloadBufCap w).1.chunk? <;> rfl
    · rw [List.mem_cons, not_or]
      exact ⟨fun he => hout.noError he.symm, hcalls.noError⟩
    · intro hlast
      cases n with
      | zero => exact hout.waits (by simpa [ChunkStream.readCalls] using hlast)
      | succ n =>
        refine hcalls.waits ?_
        rw [ChunkStream.readCalls] at hlast ⊢
        simpa [List.getLast?_cons_cons] using hlast

theorem ChunkStream.readCalls_of_waiting {payloadBufCap : ℕ} (n : ℕ) {s : ChunkStream}
    {w : ReadSource} (hwait : scanStep s.buf = none) (hreads : w.reads = []) :
    s.readCalls payloadBufCap n w = (List.replicate n .none, s, w) := by
  induction n with
  | zero => rfl
  | succ n ih =>
    simp only [ChunkStream.readCalls, ChunkStream.read_of_waiting hwait hreads, ih,
      List.replicate_succ]

/-- Enough calls use up every read, and the last one finds nothing more to return. -/
theorem Tracks.readCalls_exhausts {payloadBufCap : ℕ} (n : ℕ) {s : ChunkStream} {w : ReadSource}
    {got : List UInt8} {evs : List ScanEvent} (h : Tracks got evs s)
    (hcap : chunkHdrSize + chunkMaxPayload ≤ s.cap) (hpay : chunkMaxPayload ≤ payloadBufCap)
    (hstop : s.stopFlag = false) (hn : readMeasure s w < n) :
    (s.readCalls payloadBufCap n w).1.getLast? = some .none ∧
      (s.readCalls payloadBufCap n w).2.2.reads = [] := by
  induction n generalizing s w got evs with
  | zero => omega
  | succ n ih =>
    obtain ⟨more, new, hout⟩ := h.read (w := w) hcap hpay hstop
    rw [ChunkStream.readCalls]
    rcases hout.progress with hlt | ⟨hnone, hreads⟩
    · obtain ⟨hlast, hreads⟩ := ih (w := (s.read payloadBufCap w).2.2) hout.tracks
        (hout.cap ▸ hcap) (hout.stopFlag.trans hstop) (by omega)
      refine ⟨?_, hreads⟩
      rw [List.getLast?_cons, hlast, Option.getD_some]
    · rw [ChunkStream.readCalls_of_waiting n (hout.waits hnone) hreads]
      refine ⟨?_, hreads⟩
      rw [List.getLast?_cons, hnone]
      cases n <;> simp [List.getLast?_replicate]

/-! ### The refinement -/

/-- The state of a run of the reader: the chunks returned, and where reader and source
stand. -/
structure ReaderRun where
  returned : List (ChunkHdr × List UInt8)
  results : List ReadResult
  stream : ChunkStream
  source : ReadSource

/-- `n` calls of a fresh reader on the stream `bytes`, cut into reads by `reads`. -/
def readerRun (cap payloadBufCap : ℕ) (bytes : List UInt8) (reads : List ℕ) (n : ℕ) : ReaderRun :=
  let r := (ChunkStream.init cap false).readCalls payloadBufCap n ⟨bytes, reads⟩
  { returned := r.1.filterMap ReadResult.chunk?
    results := r.1
    stream := r.2.1
    source := r.2.2 }

/-- The bytes a run has read so far. -/
def ReaderRun.got (r : ReaderRun) (bytes : List UInt8) : List UInt8 :=
  bytes.take (bytes.length - r.source.rest.length)

/-- The buffer's capacity and the stop flag stay as initialised. -/
theorem readerRun_config {cap payloadBufCap : ℕ} (hcap : chunkHdrSize + chunkMaxPayload ≤ cap)
    (hpay : chunkMaxPayload ≤ payloadBufCap) (bytes : List UInt8) (reads : List ℕ) (n : ℕ) :
    (readerRun cap payloadBufCap bytes reads n).stream.cap = cap ∧
      (readerRun cap payloadBufCap bytes reads n).stream.stopFlag = false := by
  obtain ⟨got, evs, hout⟩ := (Tracks.init cap false).readCalls n (w := ⟨bytes, reads⟩) hcap hpay rfl
  exact ⟨hout.cap, hout.stopFlag⟩

/-- How a run of the reader stands to the reference parser of the bytes it has read. -/
structure ReaderRun.Refines (r : ReaderRun) (bytes : List UInt8) : Prop where
  /-- Reads deliver the stream from its front. -/
  source : bytes = r.got bytes ++ r.source.rest
  /-- No call reports a misconfigured buffer. -/
  noError : .error ∉ r.results
  /-- Nothing is lost, repeated or reordered: what was returned, followed by what the
  buffer still holds, is what the reference finds in the bytes read. -/
  chunks : r.returned ++ (refParse r.stream.buf).chunks = (refParse (r.got bytes)).chunks
  /-- Every byte read is accounted for. -/
  accounted : (r.got bytes).length =
    r.stream.bytesConsumed + r.stream.resyncDroppedBytes + r.stream.buf.length
  /-- Where the last call returned `0`, chunks, counters and buffer are the reference's. -/
  settled : r.results.getLast? = some .none →
    r.returned = (refParse (r.got bytes)).chunks ∧
      r.stream.chunksRead = (refParse (r.got bytes)).chunks.length ∧
      r.stream.bytesConsumed = (refParse (r.got bytes)).bytesConsumed ∧
      r.stream.resyncDroppedBytes = (refParse (r.got bytes)).resyncDroppedBytes ∧
      r.stream.checksumFails = (refParse (r.got bytes)).checksumFails ∧
      r.stream.buf = (refParse (r.got bytes)).residual

/-- A step consumes exactly the bytes it accounts for. -/
theorem scanStep_weight {l r : List UInt8} {e : ScanEvent} (h : scanStep l = some (e, r)) :
    e.consumed + e.dropped + r.length = l.length := by
  rw [scanStep] at h
  split_ifs at h with h4 hmagic hready hcrc
  all_goals
    simp only [Option.some.injEq, Prod.mk.injEq] at h
    obtain ⟨rfl, rfl⟩ := h
    simp only [ScanEvent.consumed, ScanEvent.dropped, List.length_drop]
  · rw [frontNeed] at hready ⊢
    omega
  · omega
  · omega

theorem Tracks.accounted {got : List UInt8} {evs : List ScanEvent} {s : ChunkStream}
    (h : Tracks got evs s) :
    got.length = s.bytesConsumed + s.resyncDroppedBytes + s.buf.length := by
  have weigh := chunkParser.sum_weight_add_length (fun e => e.consumed + e.dropped)
    (fun hs => scanStep_weight hs)
  have hev := h.events []
  have hres := h.residual []
  simp only [List.append_nil] at hev hres
  have hgot := weigh got
  have hbuf := weigh s.buf
  rw [hev, hres, List.map_append, List.sum_append] at hgot
  have hsplit : (evs.map fun e => e.consumed + e.dropped).sum =
      tally ScanEvent.consumed evs + tally ScanEvent.dropped evs := by
    simp [tally, List.sum_map_add]
  rw [h.bytesConsumed, h.resyncDroppedBytes]
  omega

/-- Every run refines the reference. -/
theorem readerRun_refines {cap payloadBufCap : ℕ} (hcap : chunkHdrSize + chunkMaxPayload ≤ cap)
    (hpay : chunkMaxPayload ≤ payloadBufCap) (bytes : List UInt8) (reads : List ℕ) (n : ℕ) :
    (readerRun cap payloadBufCap bytes reads n).Refines bytes := by
  obtain ⟨got, evs, hout⟩ := (Tracks.init cap false).readCalls n (w := ⟨bytes, reads⟩) hcap hpay rfl
  have hrest : bytes = got ++ (readerRun cap payloadBufCap bytes reads n).source.rest := hout.rest
  have hgot : (readerRun cap payloadBufCap bytes reads n).got bytes = got := by
    have hlen := congrArg List.length hrest
    rw [List.length_append] at hlen
    rw [ReaderRun.got, show bytes.length - _ = got.length by omega]
    conv_lhs => rw [hrest]
    exact List.take_left
  have htr : Tracks got evs (readerRun cap payloadBufCap bytes reads n).stream := by
    have := hout.tracks
    rwa [List.nil_append, List.nil_append] at this
  have hev := htr.events []
  have hres := htr.residual []
  simp only [List.append_nil] at hev hres
  have hchunks : (readerRun cap payloadBufCap bytes reads n).returned = chunksOf evs :=
    hout.chunks.symm
  constructor
  · rw [hgot]
    exact hrest
  · exact hout.noError
  · rw [hgot, hchunks, refParse_eq, refParse_eq]
    simp [RefResult.ofEvents, hev]
  · rw [hgot]
    exact htr.accounted
  · intro hlast
    have hwait : chunkParser.step (readerRun cap payloadBufCap bytes reads n).stream.buf = none :=
      hout.waits hlast
    rw [chunkParser.events_of_none hwait, List.append_nil] at hev
    rw [chunkParser.residual_of_none hwait] at hres
    rw [hgot, refParse_eq, hev, hres]
    exact ⟨hchunks, htr.chunksRead, htr.bytesConsumed, htr.resyncDroppedBytes, htr.checksumFails,
      rfl⟩

/-- Enough calls use up every read, and the last one finds nothing more to return. -/
theorem readerRun_exhausts {cap payloadBufCap : ℕ} (hcap : chunkHdrSize + chunkMaxPayload ≤ cap)
    (hpay : chunkMaxPayload ≤ payloadBufCap) {bytes : List UInt8} {reads : List ℕ} {n : ℕ}
    (hn : bytes.length + reads.length < n) :
    (readerRun cap payloadBufCap bytes reads n).results.getLast? = some .none ∧
      (readerRun cap payloadBufCap bytes reads n).source.reads = [] :=
  (Tracks.init cap false).readCalls_exhausts n (w := ⟨bytes, reads⟩) hcap hpay rfl
    (by simpa [readMeasure, ChunkStream.init] using hn)

/-! ### Reads that deliver everything -/

/-- There are enough non-empty reads to come for the bytes that are left. -/
def ReadSource.Enough (w : ReadSource) : Prop :=
  w.rest.length ≤ (w.reads.filter (0 < ·)).length

instance (w : ReadSource) : Decidable w.Enough := inferInstanceAs (Decidable (_ ≤ _))

theorem ReadSource.Enough.readFn {w : ReadSource} (h : w.Enough) {room : ℕ} (hroom : 0 < room) :
    (w.readFn room).2.Enough := by
  obtain ⟨rest, reads⟩ := w
  cases reads with
  | nil => exact h
  | cons n ns =>
    simp only [ReadSource.Enough, ReadSource.readFn, List.length_drop, List.filter_cons] at h ⊢
    split_ifs at h with hn
    · simp only [decide_eq_true_eq, List.length_cons] at hn h
      omega
    · simp only [decide_eq_true_eq] at hn
      omega

theorem ReadSource.Enough.fill {w : ReadSource} (h : w.Enough) (s : ChunkStream) :
    (s.fill w).2.2.Enough := by
  rw [ChunkStream.fill]
  split_ifs with hfull
  · exact h
  · have hread : (w.readFn (s.cap - s.buf.length)).2.Enough := h.readFn (by omega)
    split <;> simp_all

theorem ReadSource.Enough.read {w : ReadSource} (h : w.Enough) (payloadBufCap : ℕ)
    (s : ChunkStream) : (s.read payloadBufCap w).2.2.Enough := by
  fun_induction ChunkStream.read payloadBufCap s w with
  | case1 => exact h
  | case2 => exact h
  | case3 => exact h
  | case4 s w hs s' hadv hlt ih => exact ih h
  | case5 s w hs s' hadv s'' w' hfill => simpa [hfill] using h.fill s'
  | case6 s w hs s' hadv s'' w' hfill hlt ih => exact ih (by simpa [hfill] using h.fill s')

theorem ReadSource.Enough.readCalls {w : ReadSource} (h : w.Enough) (payloadBufCap n : ℕ)
    (s : ChunkStream) : (s.readCalls payloadBufCap n w).2.2.Enough := by
  induction n generalizing s w with
  | zero => exact h
  | succ n ih => exact ih (h.read payloadBufCap s) _

/-- Enough calls with enough reads get all of the stream. -/
theorem readerRun_enough {cap payloadBufCap : ℕ} (hcap : chunkHdrSize + chunkMaxPayload ≤ cap)
    (hpay : chunkMaxPayload ≤ payloadBufCap) {bytes : List UInt8} {reads : List ℕ} {n : ℕ}
    (henough : ReadSource.Enough ⟨bytes, reads⟩) (hn : bytes.length + reads.length < n) :
    (readerRun cap payloadBufCap bytes reads n).source.rest = [] ∧
      (readerRun cap payloadBufCap bytes reads n).results.getLast? = some .none := by
  obtain ⟨hlast, hreads⟩ := readerRun_exhausts hcap hpay hn
  have hleft : (readerRun cap payloadBufCap bytes reads n).source.Enough :=
    henough.readCalls payloadBufCap n _
  rw [ReadSource.Enough, hreads] at hleft
  exact ⟨List.length_eq_zero_iff.mp (Nat.le_zero.mp hleft), hlast⟩

/-! ### The theorem -/

/-- **The resyncing reader refines the reference parser.** For every stream and every way
it is cut into reads: each run of calls refines the reference on the bytes read so far;
enough calls use up every read and end with nothing more to return; if the reads deliver the
whole stream, the chunks returned and the leftover buffer are those of the reference on all of
it; two runs that have read the same input and found nothing more to return agree on the chunks
returned, the counters and the leftover buffer; and `fill` is never entered with a full
buffer. -/
theorem readCalls_refines_refParse {cap payloadBufCap : ℕ}
    (hcap : chunkHdrSize + chunkMaxPayload ≤ cap) (hpay : chunkMaxPayload ≤ payloadBufCap)
    (bytes : List UInt8) :
    (∀ reads n, (readerRun cap payloadBufCap bytes reads n).Refines bytes) ∧
    (∀ reads n, bytes.length + reads.length < n →
      (readerRun cap payloadBufCap bytes reads n).results.getLast? = some .none ∧
        (readerRun cap payloadBufCap bytes reads n).source.reads = []) ∧
    (∀ reads n, ReadSource.Enough ⟨bytes, reads⟩ → bytes.length + reads.length < n →
      (readerRun cap payloadBufCap bytes reads n).source.rest = [] ∧
        (readerRun cap payloadBufCap bytes reads n).returned = (refParse bytes).chunks ∧
        (readerRun cap payloadBufCap bytes reads n).stream.buf = (refParse bytes).residual) ∧
    (∀ reads n reads' n',
      (readerRun cap payloadBufCap bytes reads n).results.getLast? = some .none →
      (readerRun cap payloadBufCap bytes reads' n').results.getLast? = some .none →
      (readerRun cap payloadBufCap bytes reads n).source.rest =
        (readerRun cap payloadBufCap bytes reads' n').source.rest →
      (readerRun cap payloadBufCap bytes reads n).returned =
          (readerRun cap payloadBufCap bytes reads' n').returned ∧
        (readerRun cap payloadBufCap bytes reads n).stream =
          (readerRun cap payloadBufCap bytes reads' n').stream) ∧
    (∀ s s' : ChunkStream, s.cap = cap → s.advance payloadBufCap = .fill s' →
      s'.buf.length < s'.cap) := by
  refine ⟨readerRun_refines hcap hpay bytes, ?_, ?_, ?_, ?_⟩
  · intro reads n hn
    exact readerRun_exhausts hcap hpay hn
  · -- nothing is left to read, so what was parsed is the stream
    intro reads n henough hn
    obtain ⟨hrest, hlast⟩ := readerRun_enough hcap hpay henough hn
    have hgot : (readerRun cap payloadBufCap bytes reads n).got bytes = bytes := by
      simp [ReaderRun.got, hrest]
    obtain ⟨hchunks, -, -, -, -, hbuf⟩ :=
      (readerRun_refines hcap hpay bytes reads n).settled hlast
    rw [hgot] at hchunks hbuf
    exact ⟨hrest, hchunks, hbuf⟩
  · -- both have parsed the same bytes, and a run that waits is the parse of them
    intro reads n reads' n' hlast hlast' hrest
    have hgot : (readerRun cap payloadBufCap bytes reads n).got bytes =
        (readerRun cap payloadBufCap bytes reads' n').got bytes := by
      rw [ReaderRun.got, ReaderRun.got, hrest]
    obtain ⟨hc, hread, hcons, hdrop, hfail, hbuf⟩ :=
      (readerRun_refines hcap hpay bytes reads n).settled hlast
    obtain ⟨hc', hread', hcons', hdrop', hfail', hbuf'⟩ :=
      (readerRun_refines hcap hpay bytes reads' n').settled hlast'
    obtain ⟨hcfg, hstop⟩ := readerRun_config hcap hpay bytes reads n
    obtain ⟨hcfg', hstop'⟩ := readerRun_config hcap hpay bytes reads' n'
    rw [← hgot] at hc' hread' hcons' hdrop' hfail' hbuf'
    refine ⟨hc.trans hc'.symm, ?_⟩
    generalize (readerRun cap payloadBufCap bytes reads n).stream = s at *
    generalize (readerRun cap payloadBufCap bytes reads' n').stream = s' at *
    cases s
    cases s'
    simp_all
  · intro s s' hs hadv
    obtain ⟨hsame, hlt⟩ := s.length_lt_of_fill hadv
    omega

/-- A stream of junk, an empty chunk and the start of the next magic, read byte by byte. -/
theorem readCalls_refines_refParse_sample :
    let bytes :=
      0xFF :: (⟨⟨chunkMagic, 1, 0, 1, 0, 0, chunkCodecCtrl, 0, 0xFFFF, 0⟩, []⟩ : Chunk).bytes ++
      [0x41, 0x46]
    (readerRun 65557 65535 bytes (List.replicate 25 1) 60).Refines bytes ∧
      (readerRun 65557 65535 bytes (List.replicate 25 1) 60).results.getLast? = some .none ∧
      (readerRun 65557 65535 bytes (List.replicate 25 1) 60).returned =
        (refParse bytes).chunks := by
  intro bytes
  obtain ⟨hrefines, hexhausts, hall, -⟩ :=
    @readCalls_refines_refParse 65557 65535 (by decide) (by decide) bytes
  exact ⟨hrefines _ _, (hexhausts _ _ (by decide)).1, (hall _ _ (by decide) (by decide)).2.1⟩

end Ar8030
