import Ar8030Transport.Wire.Transport

/-!
# A hole in the stream

Bytes missing from the middle of the stream make the chunk they began in look shorter than
its header claims, so its claimed length reaches into the chunks behind it. The reader drops
just the magic of that chunk and scans on, so nothing is lost but the chunks the hole has
touched: `reader_skips_hole`.
-/

namespace Ar8030

open Search

/-! ### The holed stream -/

/-- Where chunk `k` starts on the wire. -/
def wireOffset (cs : List Chunk) (k : ℕ) : ℕ := (wireBytes (cs.take k)).length

/-- A run of bytes that starts `a` bytes into chunk `i`, behind its magic, and ends `b` bytes
into chunk `j`. -/
structure Hole (cs : List Chunk) where
  i : ℕ
  j : ℕ
  a : ℕ
  b : ℕ
  i_le_j : i ≤ j
  j_lt : j < cs.length
  four_le : 4 ≤ a
  a_lt : a < cs[i].bytes.length
  b_pos : 0 < b
  b_le : b ≤ cs[j].bytes.length
  ordered : i = j → a ≤ b

namespace Hole

variable {cs : List Chunk} (h : Hole cs)

theorem i_lt : h.i < cs.length := Nat.lt_of_le_of_lt h.i_le_j h.j_lt

/-- The chunk the hole starts in. -/
def first : Chunk := cs.get ⟨h.i, h.i_lt⟩

/-- The chunk the hole ends in. -/
def last : Chunk := cs.get ⟨h.j, h.j_lt⟩

theorem a_lt_first : h.a < h.first.bytes.length := h.a_lt

theorem b_le_last : h.b ≤ h.last.bytes.length := h.b_le

/-- The first byte missing. -/
def start : ℕ := wireOffset cs h.i + h.a

/-- The first byte behind the hole. -/
def stop : ℕ := wireOffset cs h.j + h.b

/-- The stream without the bytes of the hole. -/
def stream : List UInt8 := (wireBytes cs).take h.start ++ (wireBytes cs).drop h.stop

/-- The chunks the hole has not touched. -/
def undamaged : List Chunk := cs.take h.i ++ cs.drop (h.j + 1)

/-- What is left of the chunks the hole has touched. -/
def remains : ℕ := h.a + (h.last.bytes.length - h.b)

/-- The stream from chunk `i` on. -/
def front : List UInt8 := h.stream.drop (wireOffset cs h.i)

/-- The magic stands nowhere but at the starts of undamaged chunks and of chunk `i`; the
parse of chunk `i` fails its checksum; and a whole chunk's length follows the hole. -/
structure Recoverable : Prop where
  magic : ∀ p, magicBytes <+: h.stream.drop p →
    (∃ k ≤ h.i, p = wireOffset cs k) ∨
      ∃ k > h.j, k < cs.length ∧ p + (h.stop - h.start) = wireOffset cs k
  checksum : crc16 (frontPayload h.front) ≠ (frontHdr h.front).checksum
  room : chunkHdrSize + chunkMaxPayload ≤ ((wireBytes cs).drop h.stop).length

end Hole

/-! ### Cutting the wire -/

theorem wireBytes_append (a b : List Chunk) : wireBytes (a ++ b) = wireBytes a ++ wireBytes b :=
  List.flatMap_append

theorem wireBytes_cons (c : Chunk) (cs : List Chunk) :
    wireBytes (c :: cs) = c.bytes ++ wireBytes cs := List.flatMap_cons

/-- The wire around chunk `k`. -/
theorem wireBytes_split {cs : List Chunk} {k : ℕ} (hk : k < cs.length) :
    wireBytes cs = wireBytes (cs.take k) ++ (cs[k].bytes ++ wireBytes (cs.drop (k + 1))) := by
  conv_lhs => rw [← List.take_append_drop k cs, wireBytes_append, List.drop_eq_getElem_cons hk,
    wireBytes_cons]

theorem wireOffset_succ {cs : List Chunk} {k : ℕ} (hk : k < cs.length) :
    wireOffset cs (k + 1) = wireOffset cs k + cs[k].bytes.length := by
  have hnil : (wireBytes []).length = 0 := rfl
  rw [wireOffset, List.take_succ_eq_append_getElem hk, wireBytes_append, List.length_append,
    ← wireOffset, wireBytes_cons, List.length_append, hnil, Nat.add_zero]

theorem wireOffset_mono {cs : List Chunk} {k l : ℕ} (h : k ≤ l) :
    wireOffset cs k ≤ wireOffset cs l := by
  have hpre : cs.take k <+: cs.take l := List.take_prefix_take_left h
  obtain ⟨t, ht⟩ := hpre
  rw [wireOffset, wireOffset, ← ht, wireBytes_append, List.length_append]
  exact Nat.le_add_right _ _

namespace Hole

variable {cs : List Chunk} (h : Hole cs)

theorem wireOffset_last :
    wireOffset cs (h.j + 1) = wireOffset cs h.j + h.last.bytes.length := wireOffset_succ h.j_lt

theorem start_le_stop : h.start ≤ h.stop := by
  rcases Nat.eq_or_lt_of_le h.i_le_j with heq | hlt
  · have hab := h.ordered heq
    rw [start, stop, heq]
    omega
  · have hmono : wireOffset cs (h.i + 1) ≤ wireOffset cs h.j := wireOffset_mono hlt
    have ha := h.a_lt
    rw [wireOffset_succ h.i_lt] at hmono
    rw [start, stop]
    omega

/-- What is left of the damaged chunks, behind the magic of the first. -/
def junk : List UInt8 :=
  (h.first.bytes.take h.a).drop 4 ++ h.last.bytes.drop h.b

theorem take_start :
    (wireBytes cs).take h.start = wireBytes (cs.take h.i) ++ h.first.bytes.take h.a := by
  have ha := h.a_lt
  rw [wireBytes_split h.i_lt, start, wireOffset, List.take_length_add_append,
    List.take_append_of_le_length ha.le]
  rfl

theorem drop_stop : (wireBytes cs).drop h.stop =
    h.last.bytes.drop h.b ++ wireBytes (cs.drop (h.j + 1)) := by
  rw [wireBytes_split h.j_lt, stop, wireOffset, List.drop_length_add_append,
    List.drop_append_of_le_length h.b_le]
  rfl

theorem front_eq : h.front = h.first.bytes.take 4 ++
    (h.junk ++ wireBytes (cs.drop (h.j + 1))) := by
  have hsplit : h.first.bytes.take h.a = h.first.bytes.take 4 ++
      (h.first.bytes.take h.a).drop 4 := by
    have htake := List.take_append_drop 4 (h.first.bytes.take h.a)
    rwa [List.take_take, Nat.min_eq_left h.four_le, eq_comm] at htake
  rw [front, stream, take_start, drop_stop, wireOffset, List.append_assoc, List.drop_left, hsplit,
    junk, List.append_assoc, List.append_assoc]

theorem length_junk : 4 + h.junk.length = h.remains := by
  have ha := h.a_lt_first
  have h4 := h.four_le
  rw [junk, remains, List.length_append, List.length_drop, List.length_drop, List.length_take,
    Nat.min_eq_left ha.le]
  omega

theorem length_take_four : (h.first.bytes.take 4).length = 4 := by
  have ha := h.a_lt_first
  have h4 := h.four_le
  rw [List.length_take, Nat.min_eq_left (by omega)]

theorem drop_front : h.front.drop 4 = h.junk ++ wireBytes (cs.drop (h.j + 1)) := by
  rw [front_eq, List.drop_left' h.length_take_four]

end Hole

/-! ### What the parser finds -/

namespace Hole.Recoverable

variable {cs : List Chunk} {h : Hole cs} (hr : h.Recoverable) (hseal : ∀ c ∈ cs, c.Sealed)
include hr

/-- No magic stands in what is left of the damaged chunks. -/
theorem no_magic {k : ℕ} (hk : k < h.junk.length) :
    ¬ magicBytes <+: (h.junk ++ wireBytes (cs.drop (h.j + 1))).drop k := by
  intro hpre
  have hjunk := h.length_junk
  have hle := h.start_le_stop
  have hb := h.b_le_last
  rw [← drop_front, front, List.drop_drop, List.drop_drop] at hpre
  rcases hr.magic _ hpre with ⟨l, hl, heq⟩ | ⟨l, hl, -, heq⟩
  · have hmono : wireOffset cs l ≤ wireOffset cs h.i := wireOffset_mono hl
    omega
  · have hmono : wireOffset cs (h.j + 1) ≤ wireOffset cs l := wireOffset_mono hl
    rw [h.wireOffset_last] at hmono
    rw [start, stop] at *
    rw [remains] at hjunk
    omega

include hseal

/-- Behind the hole there is another chunk. -/
theorem four_le_length_drop : 4 ≤ (wireBytes (cs.drop (h.j + 1))).length := by
  have hroom := hr.room
  have hlen := (hseal h.last (List.get_mem cs _)).length_payload_le
  have hb := h.b_pos
  have hble := h.b_le_last
  rw [drop_stop, List.length_append, List.length_drop] at hroom
  rw [Chunk.length_bytes] at hroom hble
  cases hrest : cs.drop (h.j + 1) with
  | nil =>
    have hnil : (wireBytes []).length = 0 := rfl
    rw [hrest, hnil] at hroom
    omega
  | cons c rest =>
    rw [wireBytes_cons, List.length_append, Chunk.length_bytes, chunkHdrSize]
    omega

/-- The parse of chunk `i` is attempted and fails. -/
theorem step_front : chunkParser.step h.front =
    some (.fail, h.junk ++ wireBytes (cs.drop (h.j + 1))) := by
  have hmagic : h.front.take 4 = magicBytes := by
    rw [h.front_eq, List.take_left' h.length_take_four]
    exact (hseal _ (List.getElem_mem h.i_lt)).take_bytes
  have hready : ¬ FrontShort h.front := by
    have hroom := hr.room
    have hneed := frontNeed_le h.front
    have hlen := congrArg List.length h.front_eq
    rw [List.length_append, List.length_append, junk, List.length_append] at hlen
    rw [drop_stop, List.length_append] at hroom
    rw [FrontShort]
    omega
  rw [step_chunkParser, scanStep_of_magic hmagic hready, if_neg hr.checksum, drop_front]

/-- **The parser over a hole**: the chunks in front of it, one failed checksum, what is left
of the damaged chunks as junk, and the chunks behind. -/
theorem events : chunkParser.events h.stream =
    (cs.take h.i).map (fun c => .chunk c.hdr c.payload) ++ (.fail ::
      (List.replicate h.junk.length .junk ++
        (cs.drop (h.j + 1)).map fun c => .chunk c.hdr c.payload)) := by
  obtain ⟨hfront, hres⟩ := events_wireBytes fun c (hc : c ∈ cs.take h.i) =>
    hseal c (List.mem_of_mem_take hc)
  obtain ⟨hback, -⟩ := events_wireBytes fun c (hc : c ∈ cs.drop (h.j + 1)) =>
    hseal c (List.mem_of_mem_drop hc)
  have hstream : h.stream = wireBytes (cs.take h.i) ++ h.front := by
    rw [front, stream, take_start, wireOffset, List.append_assoc, List.drop_left]
  have hlen := hr.four_le_length_drop hseal
  have hjunk := events_drop_junk (l := h.junk ++ wireBytes (cs.drop (h.j + 1)))
    (n := h.junk.length)
    (fun k hk => ⟨by rw [List.length_append]; omega, hr.no_magic hk⟩) []
  rw [List.append_nil, List.drop_left, List.append_nil] at hjunk
  rw [hstream, chunkParser.events_append, hfront, hres, List.nil_append,
    chunkParser.events_of_some (hr.step_front hseal), hjunk.1, hback]

end Hole.Recoverable

/-! ### What the reader returns -/

/-- **Resync loses only what was damaged.** Take sealed chunks on the wire and a hole that
starts inside chunk `i`, behind its magic, and ends inside chunk `j`, such that the magic is
found at chunk starts only, the parse of chunk `i` fails its checksum and a whole chunk's
length follows. However the rest is cut into reads, the reader returns all chunks but
`i`, …, `j`, in order, with one checksum failure, and drops what is left of the damaged
ones. -/
theorem reader_skips_hole {streamCap payloadBufCap : ℕ}
    (hcap : chunkHdrSize + chunkMaxPayload ≤ streamCap) (hpay : chunkMaxPayload ≤ payloadBufCap)
    {cs : List Chunk} (hseal : ∀ c ∈ cs, c.Sealed) {h : Hole cs} (hr : h.Recoverable)
    (reads : List ℕ) (n : ℕ) :
    let run := readerRun streamCap payloadBufCap h.stream reads n
    run.returned <+: h.undamaged.map (fun c => (c.hdr, c.payload)) ∧
      (run.source.rest = [] → run.results.getLast? = some .none →
        run.returned = h.undamaged.map (fun c => (c.hdr, c.payload)) ∧
          run.stream.checksumFails = 1 ∧ run.stream.resyncDroppedBytes = h.remains) ∧
      (ReadSource.Enough ⟨h.stream, reads⟩ → h.stream.length + reads.length < n →
        run.source.rest = [] ∧ run.results.getLast? = some .none) := by
  intro run
  obtain ⟨hfirst, hall⟩ := returned_of_events hcap hpay h.stream reads n
  have hchunks : chunksOf (chunkParser.events h.stream) =
      h.undamaged.map fun c => (c.hdr, c.payload) := by
    rw [hr.events hseal, chunksOf_append, chunksOf_cons, chunksOf_append, chunksOf_map_chunk,
      chunksOf_map_chunk, chunksOf_replicate_junk, Hole.undamaged, List.map_append]
    rfl
  have hdropped : tally ScanEvent.dropped (chunkParser.events h.stream) = h.remains := by
    rw [hr.events hseal, tally_append, tally_cons, tally_append, tally_replicate,
      tally_map_chunk fun _ _ => rfl, tally_map_chunk fun _ _ => rfl, ← h.length_junk]
    simp [ScanEvent.dropped]
  have hfails : tally ScanEvent.fails (chunkParser.events h.stream) = 1 := by
    rw [hr.events hseal, tally_append, tally_cons, tally_append, tally_replicate,
      tally_map_chunk fun _ _ => rfl, tally_map_chunk fun _ _ => rfl]
    simp [ScanEvent.fails]
  refine ⟨hchunks ▸ hfirst, fun hrest hlast => ?_, readerRun_enough hcap hpay⟩
  obtain ⟨hret, hdrop, hfail, -⟩ := hall hrest hlast
  exact ⟨hret.trans hchunks, hfail.trans hfails, hdrop.trans hdropped⟩

/-- Where the magic's first byte stands at chunk starts only, so does the magic. -/
theorem exists_offset_of_magic {cs : List Chunk} (hfree : ∀ c ∈ cs, 0x41 ∉ c.bytes.tail) {p : ℕ}
    (hpre : magicBytes <+: (wireBytes cs).drop p) : ∃ k < cs.length, p = wireOffset cs k := by
  induction cs generalizing p with
  | nil =>
    have hlen := hpre.length_le
    simp [wireBytes] at hlen
  | cons c cs ih =>
    have hzero : wireOffset (c :: cs) 0 = 0 := rfl
    rcases Nat.lt_or_ge p c.bytes.length with hlt | hge
    · rcases p with _ | p
      · exact ⟨0, by simp, hzero.symm⟩
      · have hhead : ((wireBytes (c :: cs)).drop (p + 1)).head? = some 0x41 := by
          obtain ⟨t, ht⟩ := hpre
          rw [← ht]
          rfl
        rw [List.head?_drop, wireBytes_cons, List.getElem?_append_left hlt, ← List.getElem?_tail]
          at hhead
        exact absurd (List.mem_of_getElem? hhead) (hfree c (by simp))
    · rw [wireBytes_cons, List.drop_append, List.drop_of_length_le hge, List.nil_append] at hpre
      obtain ⟨k, hk, heq⟩ := ih (fun d hd => hfree d (by simp [hd])) hpre
      refine ⟨k + 1, by simpa using hk, ?_⟩
      rw [wireOffset, List.take_succ_cons, wireBytes_cons, List.length_append, ← wireOffset, ← heq]
      omega

/-- A chunk of two bytes. -/
def pairChunk : Chunk where
  hdr :=
    { magic := chunkMagic
      frameSeq := 1
      chunkIdx := 0
      chunkCount := 1
      payloadLen := 2
      flags := 0
      codec := chunkCodecCtrl
      framePts := 0
      checksum := 0x0E7C
      reserved := 0 }
  payload := [1, 2]

/-- An empty chunk. -/
def emptyChunk : Chunk where
  hdr := { pairChunk.hdr with payloadLen := 0, checksum := 0xFFFF }
  payload := []

/-- What is left of the first of `n + 1` chunks that has lost a byte of its payload, and the
chunks behind it. -/
def cutWire (n : ℕ) : List Chunk := { pairChunk with payload := [2] } :: List.replicate n emptyChunk

/-- The hole. -/
def byteHole (n : ℕ) : Hole (pairChunk :: List.replicate n emptyChunk) where
  i := 0
  j := 0
  a := 22
  b := 23
  i_le_j := le_rfl
  j_lt := Nat.zero_lt_succ _
  four_le := by decide
  a_lt := (by decide : 22 < pairChunk.bytes.length)
  b_pos := by decide
  b_le := (by decide : 23 ≤ pairChunk.bytes.length)
  ordered := fun _ => by decide

theorem i_byteHole (n : ℕ) : (byteHole n).i = 0 := rfl

theorem j_byteHole (n : ℕ) : (byteHole n).j = 0 := rfl

theorem a_byteHole (n : ℕ) : (byteHole n).a = 22 := rfl

theorem b_byteHole (n : ℕ) : (byteHole n).b = 23 := rfl

theorem isSealed_byteHole (n : ℕ) : ∀ c ∈ pairChunk :: List.replicate n emptyChunk, c.Sealed := by
  intro c hc
  rcases List.mem_cons.mp hc with rfl | hc
  · exact ⟨rfl, rfl, by decide +kernel⟩
  · rw [List.eq_of_mem_replicate hc]
    exact ⟨rfl, rfl, rfl⟩

theorem stream_byteHole (n : ℕ) : (byteHole n).stream = wireBytes (cutWire n) := by
  rw [Hole.stream, Hole.take_start, Hole.drop_stop]
  rfl

theorem length_wireBytes_replicate (n : ℕ) (c : Chunk) :
    (wireBytes (List.replicate n c)).length = n * c.bytes.length := by
  induction n with
  | zero => simp [wireBytes]
  | succ n ih =>
    rw [List.replicate_succ, wireBytes_cons, List.length_append, ih, Nat.succ_mul, Nat.add_comm]

theorem byteHole_recoverable {n : ℕ} (hn : 3000 ≤ n) : (byteHole n).Recoverable where
  magic := by
    intro p hpre
    rw [stream_byteHole] at hpre
    have hfree : ∀ c ∈ cutWire n, 0x41 ∉ c.bytes.tail := by
      intro c hc
      rcases List.mem_cons.mp hc with rfl | hc
      · decide
      · rw [List.eq_of_mem_replicate hc]
        decide
    obtain ⟨k, hk, rfl⟩ := exists_offset_of_magic hfree hpre
    rcases k with _ | k
    · exact .inl ⟨0, le_rfl, rfl⟩
    · refine .inr ⟨k + 1, Nat.succ_pos k, hk, ?_⟩
      have hgap : (byteHole n).stop - (byteHole n).start = 1 := by
        rw [Hole.stop, Hole.start, i_byteHole, j_byteHole, a_byteHole, b_byteHole]
        omega
      have hcut : ({ pairChunk with payload := [2] } : Chunk).bytes.length = 23 := rfl
      have hpair : pairChunk.bytes.length = 24 := rfl
      rw [hgap, cutWire, wireOffset, wireOffset, List.take_succ_cons, List.take_succ_cons,
        wireBytes_cons, wireBytes_cons, List.length_append, List.length_append, hcut, hpair]
      omega
  checksum := by
    -- the claimed payload reaches into the next chunk's magic
    obtain ⟨m, rfl⟩ : ∃ m, n = m + 1 := ⟨n - 1, by omega⟩
    have hfront : (byteHole (m + 1)).front = ({ pairChunk with payload := [2] } : Chunk).bytes ++
        emptyChunk.bytes ++ wireBytes (List.replicate m emptyChunk) := by
      have hzero : (byteHole (m + 1)).front = wireBytes (cutWire (m + 1)) :=
        stream_byteHole (m + 1)
      rw [hzero, cutWire, List.replicate_succ, wireBytes_cons, wireBytes_cons, List.append_assoc]
    rw [hfront, frontPayload_append _ (by decide) (by decide), frontHdr_append _ (by decide)]
    decide +kernel
  room := by
    have hrest : (wireBytes (List.replicate n emptyChunk)).length = n * 22 :=
      length_wireBytes_replicate n emptyChunk
    rw [Hole.drop_stop, List.length_append]
    show 22 + 65535 ≤ _ + (wireBytes (List.replicate n emptyChunk)).length
    omega

theorem enough_bytewise (bytes : List UInt8) :
    ReadSource.Enough ⟨bytes, List.replicate bytes.length 1⟩ := by
  simp [ReadSource.Enough]

/-- That stream read byte by byte. -/
def byteHoleRun (n : ℕ) : ReaderRun :=
  readerRun 65557 65535 (byteHole n).stream (List.replicate (byteHole n).stream.length 1)
    (2 * (byteHole n).stream.length + 1)

theorem reader_skips_hole_byte :
    (byteHoleRun 3000).returned = (byteHole 3000).undamaged.map (fun c => (c.hdr, c.payload)) ∧
      (byteHoleRun 3000).stream.checksumFails = 1 ∧
      (byteHoleRun 3000).stream.resyncDroppedBytes = (byteHole 3000).remains := by
  generalize hn : 3000 = n
  have hlen : (byteHole n).stream.length + (List.replicate (byteHole n).stream.length 1).length <
      2 * (byteHole n).stream.length + 1 := by
    rw [List.length_replicate]
    omega
  obtain ⟨-, hall, henough⟩ := @reader_skips_hole 65557 65535 (by decide) (by decide) _
    (isSealed_byteHole n) _ (byteHole_recoverable hn.le)
    (List.replicate (byteHole n).stream.length 1) (2 * (byteHole n).stream.length + 1)
  obtain ⟨hrest, hlast⟩ := henough (enough_bytewise _) hlen
  exact hall hrest hlast

end Ar8030
