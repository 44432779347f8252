import Ar8030Transport.Wire.FrameRun
import Ar8030Transport.Wire.Sender
import Ar8030Transport.Wire.StreamReference

/-!
# The transport end to end

Frames are cut into chunks, the chunks go out one after another with control and sidecar
chunks anywhere between them, the bytes are cut into reads, and at the other end the stream
reader and the reassembler put the frames together again: what goes in comes out.

Three facts meet here: the greedy parser takes sealed chunks off the stream one by one
(`events_flatMap_bytes`), the reader returns what the parser finds
(`readerRun_refines`), and the reassembler completes each frame whose chunks all come
(`FrameChunks.run_frame`).
-/

namespace Ar8030

/-! ### Sealed chunks on the stream -/

/-- A sealed chunk begins with the magic. -/
theorem Chunk.Sealed.take_bytes {c : Chunk} (h : c.Sealed) : c.bytes.take 4 = magicBytes := by
  simp only [Chunk.bytes, ChunkHdr.toBytes, List.append_assoc]
  rw [List.take_left' (LittleEndian.length_encode 4 _), h.magic, magicBytes]

/-- A sealed chunk at the front of the stream is taken whole. -/
theorem scanStep_bytes_append {c : Chunk} (h : c.Sealed) (rest : List UInt8) :
    scanStep (c.bytes ++ rest) = some (.chunk c.hdr c.payload, rest) := by
  have hlen := c.length_bytes
  have hhdr : frontHdr (c.bytes ++ rest) = c.hdr := by
    rw [frontHdr, Chunk.bytes, List.append_assoc, ChunkHdr.ofBytes_toBytes_append]
  have hneed : frontNeed (c.bytes ++ rest) = c.bytes.length := by
    rw [frontNeed, hhdr, h.payloadLen, hlen]
  have hpayload : frontPayload (c.bytes ++ rest) = c.payload := by
    rw [frontPayload, hhdr, h.payloadLen, Chunk.bytes, List.append_assoc,
      ← c.hdr.length_toBytes, List.drop_left, List.take_left]
  have hmagic : (c.bytes ++ rest).take 4 = magicBytes := by
    rw [List.take_append_of_le_length (by rw [hlen, chunkHdrSize]; omega), h.take_bytes]
  have hshort : ¬ FrontShort (c.bytes ++ rest) := by
    rw [FrontShort, hneed, List.length_append]
    omega
  rw [scanStep_of_magic hmagic hshort, hpayload, hhdr, if_pos h.checksum.symm, hneed,
    List.drop_left]

/-- The bytes of chunks sent one after another. -/
def wireBytes (wire : List Chunk) : List UInt8 := wire.flatMap Chunk.bytes

/-- The parser finds exactly the chunks that were sent. -/
theorem events_wireBytes {wire : List Chunk} (h : ∀ c ∈ wire, c.Sealed) :
    chunkParser.events (wireBytes wire) = wire.map (fun c => .chunk c.hdr c.payload) ∧
      chunkParser.residual (wireBytes wire) = [] := by
  induction wire with
  | nil =>
    have hwait : chunkParser.step (wireBytes []) = none := by
      rw [step_chunkParser]
      exact scanStep_of_length_lt (by simp [wireBytes])
    exact ⟨chunkParser.events_of_none hwait, chunkParser.residual_of_none hwait⟩
  | cons c wire ih =>
    have hcons : wireBytes (c :: wire) = c.bytes ++ wireBytes wire := List.flatMap_cons
    have hstep : chunkParser.step (wireBytes (c :: wire)) =
        some (.chunk c.hdr c.payload, wireBytes wire) := by
      rw [step_chunkParser, hcons]
      exact scanStep_bytes_append (h c (by simp)) (wireBytes wire)
    obtain ⟨hev, hres⟩ := ih fun c' hc' => h c' (by simp [hc'])
    rw [chunkParser.events_of_some hstep, chunkParser.residual_of_some hstep, hev, hres]
    exact ⟨rfl, rfl⟩

theorem chunksOf_map_chunk (wire : List Chunk) :
    chunksOf (wire.map fun c => .chunk c.hdr c.payload) = wire.map fun c => (c.hdr, c.payload) := by
  simp [chunksOf, List.filterMap_map, Function.comp_def, ScanEvent.chunk?]

/-- The parser counts no junk and no failed checksum over chunks. -/
theorem tally_map_chunk {w : ScanEvent → ℕ} (hw : ∀ hdr payload, w (.chunk hdr payload) = 0)
    (wire : List Chunk) : tally w (wire.map fun c => .chunk c.hdr c.payload) = 0 := by
  induction wire with
  | nil => rfl
  | cons c wire ih =>
    simp only [tally, List.map_cons, List.sum_cons, hw, Nat.zero_add] at ih ⊢
    exact ih

/-! ### Control and sidecar chunks -/

/-- A frame of another codec that takes a single chunk. -/
structure AuxFrame where
  info : FrameInfo
  part : Part
  codec_ne : info.codec ≠ chunkCodecH265
  single : part.chunksNeeded = 1

/-- The chunks the chunker emits for it. -/
def AuxFrame.chunks (a : AuxFrame) : Option (List Chunk) :=
  (chunkFrame a.info a.part.data a.part.chunkPayload collect [] a.part.scratchCap).map
    ChunkRun.ctx

/-- The one chunk of such a frame. -/
theorem AuxFrame.chunk_spec (a : AuxFrame) {c : Chunk} (h : a.chunks = some [c]) :
    c.Sealed ∧ c.hdr.codec ≠ chunkCodecH265 := by
  have hp : 0 + a.part.chunksNeeded ≤ 0xFFFF := by rw [a.single]; decide
  rw [AuxFrame.chunks, chunkFrame_eq a.part hp] at h
  have hmem : c ∈ runChunks a.info a.part.data a.part.chunkPayload 0 a.part.chunksNeeded
      a.part.chunksNeeded false false := by
    rw [Option.some.inj h]
    simp
  obtain ⟨i, -, rfl⟩ := List.mem_map.mp hmem
  exact ⟨runChunk_sealed a.part.chunkPayload_le i, a.codec_ne⟩

/-- The chunks on the wire: the video chunks in order, and single-chunk frames of other
codecs anywhere between them. -/
structure Carries (video wire : List Chunk) : Prop where
  video : wire.filter (fun c => c.hdr.codec == chunkCodecH265) = video
  aux : ∀ c ∈ wire, c.hdr.codec ≠ chunkCodecH265 → ∃ a : AuxFrame, a.chunks = some [c]

/-- Everything on the wire is sealed when the video is. -/
theorem Carries.isSealed {video wire : List Chunk} (h : Carries video wire)
    (hvideo : ∀ c ∈ video, c.Sealed) : ∀ c ∈ wire, c.Sealed := by
  intro c hc
  by_cases hcodec : c.hdr.codec = chunkCodecH265
  · exact hvideo c (by rw [← h.video]; simp [hc, hcodec])
  · obtain ⟨a, ha⟩ := h.aux c hc hcodec
    exact (a.chunk_spec ha).1

/-- Other codecs never reach the reassembler. -/
theorem run_videoStep_filter (r : Reassembly) (wire : List Chunk) :
    Mealy.run videoStep r wire =
      Mealy.run videoStep r (wire.filter fun c => c.hdr.codec == chunkCodecH265) := by
  induction wire generalizing r with
  | nil => rfl
  | cons c wire ih =>
    by_cases hcodec : c.hdr.codec = chunkCodecH265
    · simp only [List.filter_cons, hcodec, beq_self_eq_true, if_true, Mealy.run_cons, ih]
    · have hskip : videoStep r c = (r, []) := by rw [videoStep, if_neg hcodec]
      simp only [List.filter_cons, beq_eq_false_iff_ne.mpr hcodec, Bool.false_eq_true, if_false,
        Mealy.run_cons, hskip, List.nil_append, ih]

/-! ### All video, in order -/

/-- Every chunk of a sequence of frames is sealed, and carries the video codec. -/
theorem isSealed_of_mem_sendFrames {k : ℕ} {frameSeq : UInt16} {fs : List VideoFrame}
    {sent : List (ℕ × Chunk)} (h : sendFrames k frameSeq fs = some sent) {x : ℕ × Chunk}
    (hx : x ∈ sent) : x.2.Sealed := by
  induction fs generalizing k frameSeq sent with
  | nil =>
    obtain rfl := Option.some.inj h
    simp at hx
  | cons f fs ih =>
    obtain ⟨cs, rest, hframe, -, hrest, rfl⟩ := sendFrames_cons k frameSeq f fs h
    rcases List.mem_append.mp hx with hx | hx
    · obtain ⟨c, hc, rfl⟩ := List.mem_map.mp hx
      exact hframe.isSealed c hc
    · exact ih hrest hx

/-- What is handed on when every frame arrives. -/
def allCompleted (frameSeq : UInt16) : List VideoFrame → List Completed
  | [] => []
  | f :: fs =>
    { frameSeq := frameSeq, framePts := f.framePts, flags := f.flags, data := f.body.data } ::
      allCompleted (frameSeq + 1) fs

/-- With nothing lost every frame is completed, and none is counted as dropped. -/
theorem run_all {k : ℕ} {frameSeq : UInt16} {fs : List VideoFrame} {sent : List (ℕ × Chunk)}
    {r : Reassembly} (hsent : sendFrames k frameSeq fs = some sent)
    (hfit : ∀ f ∈ fs, f.body.data.length ≤ r.cap) (hr : r.active = false) :
    (Mealy.run videoStep r (sent.map Prod.snd)).2 = allCompleted frameSeq fs ∧
      (Mealy.run videoStep r (sent.map Prod.snd)).1.droppedFrames = r.droppedFrames := by
  induction fs generalizing k frameSeq sent r with
  | nil =>
    obtain rfl := Option.some.inj hsent
    exact ⟨rfl, rfl⟩
  | cons f fs ih =>
    obtain ⟨cs, rest, hframe, hdata, hrest, rfl⟩ := sendFrames_cons k frameSeq f fs hsent
    have hne : cs ≠ [] := List.ne_nil_of_length_pos hframe.length_pos
    have hpass := hframe.run_frame rfl (Or.inl hr) (List.Sublist.refl cs) hne
    have hwhole : cs = cs ∧ (frameData cs).length ≤ r.cap :=
      ⟨rfl, hdata ▸ hfit f (by simp)⟩
    obtain ⟨hinactive, hdropped⟩ := hpass.clean hwhole
    have hsnd : (cs.map (Prod.mk k) ++ rest).map Prod.snd = cs ++ rest.map Prod.snd := by
      simp [Function.comp_def]
    have hfit' : ∀ g ∈ fs, g.body.data.length ≤ (Mealy.run videoStep r cs).1.cap := by
      intro g hg
      rw [hpass.cap]
      exact hfit g (by simp [hg])
    obtain ⟨hout, hdrop'⟩ := ih hrest hfit' hinactive
    rw [hsnd, Mealy.run_append]
    refine ⟨?_, hdrop'.trans (hdropped (Or.inl hr))⟩
    have hfirst : (Mealy.run videoStep r cs).2 = [(f.info frameSeq).completed cs] :=
      hpass.out.trans (if_pos hwhole)
    simp only [hfirst, hout]
    simp [allCompleted, FrameInfo.completed, VideoFrame.info, hdata]

/-! ### End to end -/

/-- What `rx/main.c`'s reassembler makes of the chunks its reader returned. -/
def receive (cap : ℕ) (run : ReaderRun) : Reassembly × List Completed :=
  Mealy.run videoStep (Reassembly.init cap) (run.returned.map fun x => ⟨x.1, x.2⟩)

/-- At every point of a run the chunks returned are the first ones the parser finds in the
whole stream; where all bytes were read and nothing more was found, they are all of them,
and the counters are the parser's. -/
theorem returned_of_events {streamCap payloadBufCap : ℕ}
    (hcap : chunkHdrSize + chunkMaxPayload ≤ streamCap) (hpay : chunkMaxPayload ≤ payloadBufCap)
    (bytes : List UInt8) (reads : List ℕ) (n : ℕ) :
    let run := readerRun streamCap payloadBufCap bytes reads n
    let evs := chunkParser.events bytes
    run.returned <+: chunksOf evs ∧
      (run.source.rest = [] → run.results.getLast? = some .none →
        run.returned = chunksOf evs ∧
          run.stream.resyncDroppedBytes = tally ScanEvent.dropped evs ∧
          run.stream.checksumFails = tally ScanEvent.fails evs ∧
          run.stream.buf = chunkParser.residual bytes) := by
  intro run evs
  have hrefines := readerRun_refines hcap hpay bytes reads n
  constructor
  · have happ := chunkParser.events_append (run.got bytes) run.source.rest
    rw [← hrefines.source] at happ
    have hchunks := hrefines.chunks
    rw [refParse_eq (run.got bytes)] at hchunks
    have hfirst : run.returned <+: chunksOf (chunkParser.events (run.got bytes)) := ⟨_, hchunks⟩
    rw [show evs = _ from happ, chunksOf_append]
    exact hfirst.trans (List.prefix_append _ _)
  · intro hrest hlast
    have hgot : run.got bytes = bytes := by
      rw [ReaderRun.got, hrest, List.length_nil, Nat.sub_zero, List.take_length]
    obtain ⟨hret, -, -, hdrop, hfail, hbuf⟩ := hrefines.settled hlast
    have hret : run.returned = _ := hret
    have hdrop : run.stream.resyncDroppedBytes = _ := hdrop
    have hfail : run.stream.checksumFails = _ := hfail
    have hbuf : run.stream.buf = _ := hbuf
    rw [hret, hdrop, hfail, hbuf, hgot, refParse_eq]
    exact ⟨rfl, rfl, rfl, rfl⟩

/-- At every point of a run the chunks returned are the first ones on the wire; where all
bytes were read and nothing more was found, they are all of them, and no byte was dropped
or left over. -/
theorem returned_wireBytes {streamCap payloadBufCap : ℕ}
    (hcap : chunkHdrSize + chunkMaxPayload ≤ streamCap) (hpay : chunkMaxPayload ≤ payloadBufCap)
    {wire : List Chunk} (hwire : ∀ c ∈ wire, c.Sealed) (reads : List ℕ) (n : ℕ) :
    let run := readerRun streamCap payloadBufCap (wireBytes wire) reads n
    run.returned <+: wire.map (fun c => (c.hdr, c.payload)) ∧
      (run.source.rest = [] → run.results.getLast? = some .none →
        run.returned = wire.map (fun c => (c.hdr, c.payload)) ∧
          run.stream.resyncDroppedBytes = 0 ∧ run.stream.checksumFails = 0 ∧
          run.stream.buf = []) := by
  intro run
  obtain ⟨hev, hres⟩ := events_wireBytes hwire
  have hrun := returned_of_events hcap hpay (wireBytes wire) reads n
  simp only [hev, hres, chunksOf_map_chunk, tally_map_chunk (w := ScanEvent.dropped) fun _ _ => rfl,
    tally_map_chunk (w := ScanEvent.fails) fun _ _ => rfl] at hrun
  exact hrun

/-- **The transport loses nothing.** Whatever frames are sent, whole or streamed, with
single-chunk frames of other codecs anywhere between their chunks, and however the bytes are
cut into reads: at every point the frames completed are the first ones sent; once all bytes
were read and the reader has nothing more to return, every frame was completed exactly once,
in order, with its own bytes, sequence number, pts and flags, nothing was dropped and
nothing is left over; and enough calls get there, if the reads deliver the bytes. -/
theorem transport_lossless (frames : List VideoFrame) (seq0 : UInt16) (cap : ℕ)
    (hfit : ∀ f ∈ frames, f.body.data.length ≤ cap) (streamCap payloadBufCap : ℕ)
    (hcap : chunkHdrSize + chunkMaxPayload ≤ streamCap) (hpay : chunkMaxPayload ≤ payloadBufCap) :
    ∃ sent, sendFrames 0 seq0 frames = some sent ∧
      ∀ wire, Carries (sent.map Prod.snd) wire → ∀ reads n,
        let run := readerRun streamCap payloadBufCap (wireBytes wire) reads n
        (receive cap run).2 <+: allCompleted seq0 frames ∧
        (run.source.rest = [] → run.results.getLast? = some .none →
          (receive cap run).2 = allCompleted seq0 frames ∧
            (receive cap run).1.droppedFrames = 0 ∧ run.stream.resyncDroppedBytes = 0 ∧
            run.stream.checksumFails = 0 ∧ run.stream.buf = []) ∧
        (ReadSource.Enough ⟨wireBytes wire, reads⟩ → (wireBytes wire).length + reads.length < n →
          run.source.rest = [] ∧ run.results.getLast? = some .none) := by
  obtain ⟨sent, hsent⟩ := exists_sendFrames 0 seq0 frames
  refine ⟨sent, hsent, ?_⟩
  intro wire hwire reads n run
  have hvideo : ∀ c ∈ sent.map Prod.snd, c.Sealed := by
    intro c hc
    obtain ⟨x, hx, rfl⟩ := List.mem_map.mp hc
    exact isSealed_of_mem_sendFrames hsent hx
  obtain ⟨hfirst, hall⟩ := returned_wireBytes hcap hpay (hwire.isSealed hvideo) reads n
  obtain ⟨hout, hdropped⟩ := @run_all 0 seq0 frames sent (Reassembly.init cap) hsent hfit rfl
  -- the control frames in between leave the reassembly as it is
  have hrun : Mealy.run videoStep (Reassembly.init cap) wire =
      Mealy.run videoStep (Reassembly.init cap) (sent.map Prod.snd) := by
    rw [run_videoStep_filter, hwire.video]
  have hchunk : (wire.map fun c => (c.hdr, c.payload)).map (fun x => (⟨x.1, x.2⟩ : Chunk)) =
      wire := by
    rw [List.map_map]
    exact List.map_id' wire
  refine ⟨?_, ?_, ?_⟩
  · obtain ⟨more, hmore⟩ := hfirst
    have hsplit : (run.returned.map fun x => (⟨x.1, x.2⟩ : Chunk)) ++
        more.map (fun x => (⟨x.1, x.2⟩ : Chunk)) = wire := by
      rw [← List.map_append, hmore, hchunk]
    rw [← hout, ← hrun, ← hsplit, Mealy.run_append]
    exact List.prefix_append _ _
  -- with everything read, the chunks returned are those of the wire
  · intro hrest hlast
    obtain ⟨hret, hresync, hfail, hbuf⟩ := hall hrest hlast
    have hrecv : receive cap run =
        Mealy.run videoStep (Reassembly.init cap) (sent.map Prod.snd) := by
      rw [receive, show run.returned = _ from hret, hchunk, hrun]
    rw [hrecv]
    exact ⟨hout, hdropped, hresync, hfail, hbuf⟩
  · exact readerRun_enough hcap hpay

/-- A control frame. -/
def sampleAux : AuxFrame where
  info := { frameSeq := 7, flags := 0, codec := chunkCodecCtrl, framePts := 0 }
  part := ⟨[0xAA], 1200, by decide, by decide⟩
  codec_ne := by decide
  single := by decide

/-- The chunks of the sample frames with the control chunk inside the first frame. -/
def sampleWire : List Chunk :=
  let video := ((sendFrames 0 0xFFFF sampleFrames).getD []).map Prod.snd
  video.take 1 ++ sampleAux.chunks.getD [] ++ video.drop 1

/-- The sample frames, read one byte at a time. -/
theorem transport_lossless_sample :
    (receive 3 (readerRun 65557 65535 (wireBytes sampleWire)
      (List.replicate (wireBytes sampleWire).length 1)
      (2 * (wireBytes sampleWire).length + 1))).2 = allCompleted 0xFFFF sampleFrames := by
  obtain ⟨sent, hsent, h⟩ := transport_lossless sampleFrames 0xFFFF 3 (by decide) 65557 65535
    (by decide) (by decide)
  have hvideo : sampleWire.filter (fun c => c.hdr.codec == chunkCodecH265) =
      ((sendFrames 0 0xFFFF sampleFrames).getD []).map Prod.snd := by decide +kernel
  have haux : ∀ c ∈ sampleWire, c.hdr.codec ≠ chunkCodecH265 → sampleAux.chunks = some [c] := by
    decide +kernel
  have hcarries : Carries (sent.map Prod.snd) sampleWire := by
    refine ⟨?_, fun c hc hne => ⟨sampleAux, haux c hc hne⟩⟩
    rw [hvideo, hsent, Option.getD_some]
  obtain ⟨-, hall, henough⟩ := h sampleWire hcarries
    (List.replicate (wireBytes sampleWire).length 1) (2 * (wireBytes sampleWire).length + 1)
  obtain ⟨hrest, hlast⟩ := henough (by simp [ReadSource.Enough]) (by simp; omega)
  exact (hall hrest hlast).1

end Ar8030
