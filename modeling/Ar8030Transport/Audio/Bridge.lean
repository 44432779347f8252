import Ar8030Transport.Tx.Statistics
import Ar8030Transport.Wire.Loss
import Ar8030Transport.Wire.Transport

/-!
# The audio bridge

`audio_tx` sends each datagram of waybeam's audio as one frame, `audio_rx` sends the bytes of each
frame it completes as one datagram. Neither looks inside.

Writes of chunks may fail. A chunk whose write fails leaves nothing on the wire here; a datagram
of which a chunk could not be written is lost, and `frames_complete` does not count it. The ground
forwards exactly the datagrams counted (`audio_bridge_exact`), if the air does not go silent for so
many of them that `frame_seq` comes round.
-/

namespace Ar8030

open Pieces

/-! ### The air side -/

/-- `AR8030_CHUNK_CODEC_OPUS`. -/
def chunkCodecOpus : UInt8 := 0x02

/-- `MAX_UDP_PACKET`. -/
def maxUdpPacket : ℕ := 4096

/-- `frame_seq` and the statistics; `packets_in` is `framesIn`. -/
structure AudioTx where
  frameSeq : UInt16
  stats : TxStats
  deriving DecidableEq, Repr

def AudioTx.init : AudioTx := ⟨0, ⟨0, 0, 0, 0, 0, 0⟩⟩

/-- A pass of the loop: the datagram that came, or none, and the outcomes of the writes. -/
structure AudioPass where
  datagram : List UInt8
  outcomes : List Bool
  deriving DecidableEq, Repr

/-- What was written of a datagram. -/
structure AudioSent where
  data : List UInt8
  written : List Chunk
  complete : Bool
  deriving DecidableEq, Repr

/-- What the chunks of a datagram carry alike. -/
def AudioTx.info (s : AudioTx) : FrameInfo := ⟨s.frameSeq, 0, chunkCodecOpus, 0⟩

theorem AudioTx.flagsFree (s : AudioTx) : s.info.FlagsFree := by
  change (0 : UInt8) &&& (chunkFlagFrameEnd ||| chunkFlagSliceEnd) = 0
  decide

/-- The call of `ar8030_chunk_frame` for a datagram. -/
def AudioTx.call (cfg : TxConfig) (s : AudioTx) (data : List UInt8) (outcomes : List Bool) :
    Option (ChunkRun SendCtx) :=
  chunkFrame s.info data cfg.chunkPayload chunkSendToSocket
    ⟨outcomes, [], { s.stats with framesIn := s.stats.framesIn + 1 }⟩ cfg.scratchSize

/-- All chunks were sent. -/
def sentAll : Option (ChunkRun SendCtx) → Bool
  | none => false
  | some r => r.sent == r.outChunkCount

/-- One pass of `audio_tx`'s loop. `recvfrom` cuts a datagram at `MAX_UDP_PACKET`. -/
def audioTxStep (cfg : TxConfig) (s : AudioTx) (p : AudioPass) : AudioTx × List AudioSent :=
  let data := p.datagram.take maxUdpPacket
  if data = [] then (s, [])
  else
    let call := s.call cfg data p.outcomes
    let stats := callStats { s.stats with framesIn := s.stats.framesIn + 1 } call
    ({ frameSeq := s.frameSeq + 1
       stats :=
        if sentAll call then { stats with framesComplete := stats.framesComplete + 1 }
        else { stats with framesIncomplete := stats.framesIncomplete + 1 } },
      [⟨data, writtenOf (callLog call), sentAll call⟩])

/-- A run of `audio_tx`. -/
def audioTxRun (cfg : TxConfig) (passes : List AudioPass) : AudioTx × List AudioSent :=
  Mealy.run (audioTxStep cfg) AudioTx.init passes

/-- The chunks on the wire. -/
def audioWire (sent : List AudioSent) : List Chunk := sent.flatMap AudioSent.written

/-- The chunks on the wire with the numbers of their datagrams, from `k` on. -/
def numberedWire (k : ℕ) : List AudioSent → List (ℕ × Chunk)
  | [] => []
  | x :: xs => x.written.map (Prod.mk k) ++ numberedWire (k + 1) xs

/-! ### The ground side -/

/-- A chunk off the stream, as `audio_rx` treats it: whatever its codec, it goes to the
reassembler, and a completed frame is sent on. -/
def audioRxStep (r : Reassembly) (c : Chunk) : Reassembly × List Completed :=
  handOn (r.feed c.hdr c.payload)

/-- The datagrams `audio_rx` sends for the chunks its reader has returned. -/
def audioForwarded (cap : ℕ) (run : ReaderRun) : List (List UInt8) :=
  (Mealy.run audioRxStep (Reassembly.init cap)
    (run.returned.map fun x => ⟨x.1, x.2⟩)).2.map Completed.data

/-- The chunk with the codec of video. The reassembler does not look at it. -/
def Chunk.asVideo (c : Chunk) : Chunk := { c with hdr := { c.hdr with codec := chunkCodecH265 } }

theorem videoStep_asVideo (r : Reassembly) (c : Chunk) :
    videoStep r c.asVideo = audioRxStep r c := rfl

theorem run_asVideo (r : Reassembly) (cs : List Chunk) :
    Mealy.run videoStep r (cs.map Chunk.asVideo) = Mealy.run audioRxStep r cs := by
  induction cs generalizing r with
  | nil => rfl
  | cons c cs ih => rw [List.map_cons, Mealy.run_cons, Mealy.run_cons, videoStep_asVideo, ih]

theorem frameData_asVideo (cs : List Chunk) : frameData (cs.map Chunk.asVideo) = frameData cs := by
  rw [frameData, List.flatMap_map]
  rfl

/-- A frame is a frame with either codec. -/
theorem FrameChunks.asVideo {info : FrameInfo} {streamed : Bool} {cs : List Chunk}
    (h : FrameChunks info streamed cs) :
    FrameChunks { info with codec := chunkCodecH265 } streamed (cs.map Chunk.asVideo) where
  length_le := by simpa using h.length_le
  codec := by
    intro c hc
    obtain ⟨d, -, rfl⟩ := List.mem_map.mp hc
    rfl
  frameSeq := by
    intro c hc
    obtain ⟨d, hd, rfl⟩ := List.mem_map.mp hc
    exact h.frameSeq d hd
  framePts := by
    intro c hc
    obtain ⟨d, hd, rfl⟩ := List.mem_map.mp hc
    exact h.framePts d hd
  flags := by
    intro c hc
    obtain ⟨d, hd, rfl⟩ := List.mem_map.mp hc
    exact h.flags d hd
  chunkIdx := by
    intro i hi
    rw [List.length_map] at hi
    rw [List.getElem_map]
    exact h.chunkIdx i hi
  isSealed := by
    intro c hc
    obtain ⟨d, hd, rfl⟩ := List.mem_map.mp hc
    exact ⟨(h.isSealed d hd).magic, (h.isSealed d hd).payloadLen, (h.isSealed d hd).checksum⟩
  length_pos := by simpa using h.length_pos
  frameEnd := by
    intro i hi
    rw [List.length_map] at hi ⊢
    rw [List.getElem_map]
    exact h.frameEnd i hi
  chunkCount := by
    intro i hi
    rw [List.length_map] at hi ⊢
    rw [List.getElem_map]
    exact h.chunkCount i hi

/-! ### One datagram -/

theorem piecesNeeded_le {n k : ℕ} (hn : 0 < n) (hk : 0 < k) : piecesNeeded n k ≤ n := by
  have hsplit : n + k - 1 = n - 1 + k := by omega
  have hdiv : (n - 1) / k ≤ n - 1 := Nat.div_le_self _ _
  rw [piecesNeeded, hsplit, Nat.add_div_right _ hk]
  exact max_le hn (by omega)

/-- What goes out for a datagram: the first chunks of a frame that carries it, and all of them
if it is complete. -/
theorem audioCall_frame (cfg : TxConfig) (s : AudioTx) {datagram : List UInt8}
    (hne : datagram.take maxUdpPacket ≠ []) (outcomes : List Bool) :
    let data := datagram.take maxUdpPacket
    ∃ cs, FrameChunks s.info false cs ∧ frameData cs = data ∧
      ∃ k ≤ cs.length, writtenOf (callLog (s.call cfg data outcomes)) = cs.take k ∧
        (sentAll (s.call cfg data outcomes) = true ↔ k = cs.length) := by
  intro data
  change data ≠ [] at hne
  have hpos := cfg.chunkPayload_pos
  have hmax := cfg.chunkPayload_le
  have hlen : data.length ≤ 4096 := by
    rw [List.length_take]
    exact min_le_left _ _
  have hneeded : piecesNeeded data.length cfg.chunkPayload ≤ 0xFFFF :=
    (piecesNeeded_le (List.length_pos_iff.mpr hne) hpos).trans (by omega)
  have hcount : chunkCountOf data.length cfg.chunkPayload =
      piecesNeeded data.length cfg.chunkPayload :=
    chunkCountOf_eq (add_le_of_piecesNeeded_le hpos hmax hneeded)
  have hpay : ¬(cfg.chunkPayload = 0 ∨ chunkMaxPayload < cfg.chunkPayload) := by omega
  have hcall : s.call cfg data outcomes =
      chunkRun s.info data cfg.chunkPayload 0 (chunkCountOf data.length cfg.chunkPayload) false
        false chunkSendToSocket
        ⟨outcomes, [], { s.stats with framesIn := s.stats.framesIn + 1 }⟩ cfg.scratchSize := by
    rw [AudioTx.call, chunkFrame, if_neg hpay]
    dsimp only
    rw [if_neg (by omega)]
  rcases @chunkRun_socket cfg s.info data 0 (chunkCountOf data.length cfg.chunkPayload) false
    false ⟨outcomes, [], { s.stats with framesIn := s.stats.framesIn + 1 }⟩ rfl with
    ⟨-, hmany⟩ | ⟨r, hrun, -, hn, hle, hlog⟩
  · omega
  rw [hn, hcount] at hlog hle
  refine ⟨_, @frameChunks_whole s.info data _ _ s.flagsFree hmax (one_le_piecesNeeded _ _) hneeded,
    flatMap_payload_runChunks hpos, r.sent, by rwa [length_runChunks], ?_, ?_⟩
  · rw [hcall, hrun, callLog, hlog, writtenOf_sendLog]
  · rw [hcall, hrun, sentAll, hn, hcount, length_runChunks, beq_iff_eq]

/-! ### Runs -/

/-- The datagrams counted as complete that fit the ground's buffer. -/
def completeDatagrams (cap : ℕ) (sent : List AudioSent) : List (List UInt8) :=
  (sent.filter fun x => x.complete && decide (x.data.length ≤ cap)).map AudioSent.data

theorem completeDatagrams_cons (cap : ℕ) (x : AudioSent) (xs : List AudioSent) :
    completeDatagrams cap (x :: xs) =
      (if x.complete = true ∧ x.data.length ≤ cap then [x.data] else []) ++
        completeDatagrams cap xs := by
  rw [completeDatagrams, List.filter_cons]
  simp only [Bool.and_eq_true, decide_eq_true_eq]
  split_ifs <;> rfl

/-- The first chunks of a datagram's frame, against a reassembler that is not in that frame. -/
theorem run_written {info : FrameInfo} {cs : List Chunk} (hframe : FrameChunks info false cs)
    {k : ℕ} (hk : k ≤ cs.length) {r : Reassembly} (hr : Foreign info.frameSeq r)
    (hne : cs.take k ≠ []) :
    let run := Mealy.run audioRxStep r (cs.take k)
    run.1.cap = r.cap ∧ (run.1.active = true → run.1.frameSeq = info.frameSeq) ∧
      run.2.map Completed.data =
        if k = cs.length ∧ (frameData cs).length ≤ r.cap then [frameData cs] else [] := by
  have hpass := hframe.asVideo.run_frame (r := r) (D := (cs.take k).map Chunk.asVideo) rfl hr
    ((List.take_sublist k cs).map _) (by simpa using hne)
  have hwhole : (cs.take k).map Chunk.asVideo = cs.map Chunk.asVideo ↔ k = cs.length := by
    constructor
    · intro h
      have hlen := congrArg List.length h
      rw [List.length_map, List.length_map, List.length_take] at hlen
      omega
    · rintro rfl
      rw [List.take_length]
  rw [run_asVideo] at hpass
  refine ⟨hpass.cap, hpass.frameSeq, ?_⟩
  rw [hpass.out]
  simp only [hwhole, frameData_asVideo]
  split_ifs
  · exact congrArg (fun d => [d]) (frameData_asVideo cs)
  · rfl

/-- The audio sender from any sequence number, against the reassembler between two frames. -/
theorem run_audio (cfg : TxConfig) {seq0 : UInt16} {passes : List AudioPass} {k : ℕ} {s : AudioTx}
    (hs : s.frameSeq = seqOf seq0 k) {r : Reassembly}
    (hnear : (numberedWire k (Mealy.run (audioTxStep cfg) s passes).2).IsChain Near)
    (hpending : Pending seq0 k (numberedWire k (Mealy.run (audioTxStep cfg) s passes).2) r) :
    (Mealy.run audioRxStep r (audioWire (Mealy.run (audioTxStep cfg) s passes).2)).2.map
        Completed.data = completeDatagrams r.cap (Mealy.run (audioTxStep cfg) s passes).2 := by
  induction passes generalizing k s r with
  | nil => rfl
  | cons p passes ih =>
    rw [Mealy.run_cons] at hnear hpending ⊢
    by_cases hempty : p.datagram.take maxUdpPacket = []
    · have hstep : audioTxStep cfg s p = (s, []) := if_pos hempty
      rw [hstep] at hnear hpending ⊢
      exact ih hs hnear hpending
    · obtain ⟨cs, hframe, hdata, j, hj, hwritten, hall⟩ :=
        audioCall_frame cfg s hempty p.outcomes
      obtain ⟨s', hs', hstep⟩ : ∃ s' : AudioTx, s'.frameSeq = s.frameSeq + 1 ∧
          audioTxStep cfg s p = (s', [⟨frameData cs, cs.take j, j == cs.length⟩]) := by
        have hcomplete : sentAll (s.call cfg (p.datagram.take maxUdpPacket) p.outcomes) =
            (j == cs.length) := Bool.eq_iff_iff.mpr (hall.trans beq_iff_eq.symm)
        rw [audioTxStep]
        dsimp only
        rw [if_neg hempty, hwritten, hdata, hcomplete]
        exact ⟨_, rfl, rfl⟩
      rw [hstep] at hnear hpending ⊢
      dsimp only [List.singleton_append] at hnear hpending ⊢
      rw [numberedWire] at hnear hpending
      have hnext : s'.frameSeq = seqOf seq0 (k + 1) := by rw [hs', hs, seqOf_succ]
      have hchain := List.isChain_append.mp hnear
      rw [completeDatagrams_cons, audioWire, List.flatMap_cons, Mealy.run_append,
        List.map_append]
      simp only [beq_iff_eq]
      by_cases hnil : cs.take j = []
      · -- nothing of this datagram was written
        have hne : j ≠ cs.length := by
          have hpos := hframe.length_pos
          rw [List.take_eq_nil_iff, List.eq_nil_iff_length_eq_zero] at hnil
          omega
        rw [hnil] at hchain hpending ⊢
        rw [if_neg fun h => hne h.1]
        refine ih hnext hchain.2.1 fun hactive => ?_
        obtain ⟨i, hi, hseq, hhead⟩ := hpending hactive
        exact ⟨i, by omega, hseq, hhead⟩
      · have hforeign : Foreign s.info.frameSeq r := by
          obtain ⟨d, ds, hds⟩ := List.exists_cons_of_ne_nil hnil
          rw [hds] at hpending
          have hthis := Pending.foreign (x := (k, d)) hpending rfl
          rwa [← hs] at hthis
        obtain ⟨hcap, hseq, hout⟩ := run_written hframe hj hforeign hnil
        rw [hout, ← hcap]
        refine congrArg _ (ih hnext hchain.2.1 fun hactive => ?_)
        -- the last chunk written of this datagram and the next one after it
        exact ⟨k, by omega, (hseq hactive).trans hs,
          fun x hx => hchain.2.2 _ (mem_getLast?_map_mk hnil) x hx⟩

/-- Sending the chunks of a datagram counts it once as coming in. -/
theorem frames_audioCall (cfg : TxConfig) (s : AudioTx) (data : List UInt8) (outcomes : List Bool) :
    (callStats { s.stats with framesIn := s.stats.framesIn + 1 }
      (s.call cfg data outcomes)).frames =
      (s.stats.framesIn + 1, s.stats.framesComplete, s.stats.framesIncomplete) := by
  rw [AudioTx.call, chunkFrame]
  split_ifs
  · rfl
  · dsimp only
    split_ifs
    · rfl
    · exact frames_chunkRun ⟨outcomes, [], { s.stats with framesIn := s.stats.framesIn + 1 }⟩

/-- A datagram counts in `frames_complete` if all its chunks were sent. -/
theorem framesComplete_step (cfg : TxConfig) (s : AudioTx) (p : AudioPass) :
    (audioTxStep cfg s p).1.stats.framesComplete =
      s.stats.framesComplete + ((audioTxStep cfg s p).2.filter AudioSent.complete).length := by
  rw [audioTxStep]
  dsimp only
  split_ifs with hempty hall
  · rfl
  · have hframes := congrArg (fun f => f.2.1) 
      (frames_audioCall cfg s (p.datagram.take maxUdpPacket) p.outcomes)
    simp only [hall, List.filter_cons_of_pos, List.filter_nil, List.length_singleton]
    exact congrArg (· + 1) hframes
  · have hframes := congrArg (fun f => f.2.1) 
      (frames_audioCall cfg s (p.datagram.take maxUdpPacket) p.outcomes)
    simp only [List.filter_singleton, Bool.eq_false_of_not_eq_true hall]
    exact hframes

theorem framesComplete_run (cfg : TxConfig) (passes : List AudioPass) (s : AudioTx) :
    (Mealy.run (audioTxStep cfg) s passes).1.stats.framesComplete =
      s.stats.framesComplete +
        ((Mealy.run (audioTxStep cfg) s passes).2.filter AudioSent.complete).length := by
  induction passes generalizing s with
  | nil => rfl
  | cons p passes ih =>
    rw [Mealy.run_cons]
    dsimp only
    rw [ih, List.filter_append, List.length_append, ← Nat.add_assoc, framesComplete_step]

/-- Every chunk on the wire is sealed. -/
theorem isSealed_of_mem_audioWire (cfg : TxConfig) (passes : List AudioPass) (s : AudioTx)
    {c : Chunk} (hc : c ∈ audioWire (Mealy.run (audioTxStep cfg) s passes).2) : c.Sealed := by
  induction passes generalizing s with
  | nil => cases hc
  | cons p passes ih =>
    rw [Mealy.run_cons] at hc
    dsimp only at hc
    rw [audioWire, List.flatMap_append] at hc
    rcases List.mem_append.mp hc with hc | hc
    · by_cases hempty : p.datagram.take maxUdpPacket = []
      · have hstep : audioTxStep cfg s p = (s, []) := if_pos hempty
        rw [hstep] at hc
        cases hc
      · obtain ⟨cs, hframe, -, j, -, hwritten, -⟩ := audioCall_frame cfg s hempty p.outcomes
        rw [audioTxStep] at hc
        dsimp only at hc
        rw [if_neg hempty, List.flatMap_singleton] at hc
        rw [hwritten] at hc
        exact hframe.isSealed c (List.mem_of_mem_take hc)
    · exact ih _ hc

/-! ### The bridge -/

/-- **The audio bridge.** Whatever datagrams come and whichever of the writes fail, however the
bytes are cut into reads: the datagrams the ground has forwarded are the first of those the
air has counted complete, byte for byte, once each and in order; all of them, once every byte
was read and nothing more was found, which enough calls reach. -/
theorem audio_bridge_exact (cfg : TxConfig) {cap streamCap payloadBufCap : ℕ}
    (hstream : chunkHdrSize + chunkMaxPayload ≤ streamCap) (hpay : chunkMaxPayload ≤ payloadBufCap)
    (passes : List AudioPass)
    (hnear : (numberedWire 0 (audioTxRun cfg passes).2).IsChain Near) (reads : List ℕ) (n : ℕ) :
    let air := audioTxRun cfg passes
    let bytes := wireBytes (audioWire air.2)
    let run := readerRun streamCap payloadBufCap bytes reads n
    audioForwarded cap run <+: completeDatagrams cap air.2 ∧
      (run.source.rest = [] → run.results.getLast? = some .none →
        audioForwarded cap run = completeDatagrams cap air.2) ∧
      (ReadSource.Enough ⟨bytes, reads⟩ → bytes.length + reads.length < n →
        run.source.rest = [] ∧ run.results.getLast? = some .none) ∧
      (air.2.filter AudioSent.complete).length = air.1.stats.framesComplete := by
  intro air bytes run
  have hall : (Mealy.run audioRxStep (Reassembly.init cap) (audioWire air.2)).2.map
      Completed.data = completeDatagrams cap air.2 :=
    @run_audio cfg 0 passes 0 AudioTx.init rfl (Reassembly.init cap) hnear
      fun hactive => by cases hactive
  have hsealed : ∀ c ∈ audioWire air.2, c.Sealed := fun c hc =>
    isSealed_of_mem_audioWire cfg passes AudioTx.init hc
  obtain ⟨hfirst, hlast⟩ := returned_wireBytes hstream hpay hsealed reads n
  have hwire : (audioWire air.2).map ((fun x => ⟨x.1, x.2⟩) ∘ fun c : Chunk => (c.hdr, c.payload)) =
      audioWire air.2 := List.map_id' _
  refine ⟨?_, fun hrest hnone => ?_, readerRun_enough hstream hpay, ?_⟩
  · obtain ⟨later, hlater⟩ := hfirst
    rw [← hall, ← hwire, ← List.map_map, ← hlater, List.map_append, Mealy.run_append]
    dsimp only
    rw [List.map_append]
    exact List.prefix_append _ _
  · rw [audioForwarded, (hlast hrest hnone).1, List.map_map, hwire, hall]
  · have hcount := framesComplete_run cfg passes AudioTx.init
    rw [← Nat.zero_add (List.length _)]
    exact hcount.symm

/-- Three datagrams; the second chunk of the second one cannot be written. -/
def samplePasses : List AudioPass :=
  [⟨[1, 2, 3], []⟩, ⟨[], []⟩, ⟨[4, 5, 6], [true, false]⟩, ⟨[7], []⟩]

/-- The first and the third arrive, read one byte at a time. -/
theorem audio_bridge_exact_sample :
    let bytes := wireBytes (audioWire (audioTxRun byteTxConfig samplePasses).2)
    audioForwarded 4096 (readerRun 65557 65535 bytes (List.replicate bytes.length 1)
      (2 * bytes.length + 1)) = [[1, 2, 3], [7]] := by
  intro bytes
  obtain ⟨-, hall, henough, -⟩ := @audio_bridge_exact byteTxConfig 4096 65557 65535 (by decide)
    (by decide) samplePasses (by decide +kernel) (List.replicate bytes.length 1)
    (2 * bytes.length + 1)
  have hn : bytes.length + (List.replicate bytes.length 1).length < 2 * bytes.length + 1 := by
    rw [List.length_replicate]
    omega
  obtain ⟨hrest, hlast⟩ := henough (by simp [ReadSource.Enough, bytes]) hn
  exact (hall hrest hlast).trans (by decide +kernel)

end Ar8030
