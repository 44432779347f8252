import Ar8030Transport.Wire.Resync

/-!
# What the stream reader returns

The invariant `Tracks` ties the reader's sliding buffer to the greedy parser, and each turn
of the loop keeps it (`Tracks.advance`). A whole call is then one lemma, `Tracks.read`, and
a sequence of calls another, `Tracks.readCalls`.

`refParse` is the reference parser of the whole stream. It is the greedy parser read in
bulk (`refParse_eq`), so the reader returns exactly its chunks, in order, with the counters
and the leftover buffer it prescribes, for every way the stream is cut into reads.
-/

namespace Ar8030

open Search

/-! ### Counting events -/

/-- The chunk an event hands on, if any. -/
def ScanEvent.chunk? : ScanEvent → Option (ChunkHdr × List UInt8)
  | .chunk hdr payload => some (hdr, payload)
  | .junk => none
  | .fail => none

/-- The bytes of a chunk taken. -/
def ScanEvent.consumed : ScanEvent → ℕ
  | .chunk hdr _ => chunkHdrSize + hdr.payloadLen.toNat
  | .junk => 0
  | .fail => 0

/-- The bytes dropped by the resync. -/
def ScanEvent.dropped : ScanEvent → ℕ
  | .chunk _ _ => 0
  | .junk => 1
  | .fail => 4

/-- The checksum failures counted. -/
def ScanEvent.fails : ScanEvent → ℕ
  | .chunk _ _ => 0
  | .junk => 0
  | .fail => 1

/-- The chunks among a list of events. -/
def chunksOf (evs : List ScanEvent) : List (ChunkHdr × List UInt8) := evs.filterMap ScanEvent.chunk?

/-- The total of a weight over a list of events. -/
def tally (f : ScanEvent → ℕ) (evs : List ScanEvent) : ℕ := (evs.map f).sum

@[simp]
theorem chunksOf_nil : chunksOf [] = [] := rfl

@[simp]
theorem chunksOf_cons (e : ScanEvent) (evs : List ScanEvent) :
    chunksOf (e :: evs) = e.chunk?.toList ++ chunksOf evs := by
  cases e <;> rfl

@[simp]
theorem chunksOf_append (a b : List ScanEvent) : chunksOf (a ++ b) = chunksOf a ++ chunksOf b := by
  simp [chunksOf]

@[simp]
theorem tally_nil (f : ScanEvent → ℕ) : tally f [] = 0 := rfl

@[simp]
theorem tally_append (f : ScanEvent → ℕ) (a b : List ScanEvent) :
    tally f (a ++ b) = tally f a + tally f b := by
  simp [tally]

@[simp]
theorem tally_cons (f : ScanEvent → ℕ) (e : ScanEvent) (evs : List ScanEvent) :
    tally f (e :: evs) = f e + tally f evs := by
  simp [tally]

@[simp]
theorem tally_replicate (f : ScanEvent → ℕ) (n : ℕ) (e : ScanEvent) :
    tally f (List.replicate n e) = n * f e := by
  simp [tally]

@[simp]
theorem chunksOf_replicate_junk (n : ℕ) : chunksOf (List.replicate n .junk) = [] := by
  induction n with
  | zero => rfl
  | succ n ih => simp [List.replicate_succ, ScanEvent.chunk?, ih]

/-! ### The invariant -/

/-- The reader's state after acting on the events `evs` of the bytes `got`. -/
structure Tracks (got : List UInt8) (evs : List ScanEvent) (s : ChunkStream) : Prop where
  /-- The buffer is all the parser still has to see. -/
  events : ∀ m, chunkParser.events (got ++ m) = evs ++ chunkParser.events (s.buf ++ m)
  residual : ∀ m, chunkParser.residual (got ++ m) = chunkParser.residual (s.buf ++ m)
  chunksRead : s.chunksRead = (chunksOf evs).length
  bytesConsumed : s.bytesConsumed = tally ScanEvent.consumed evs
  resyncDroppedBytes : s.resyncDroppedBytes = tally ScanEvent.dropped evs
  checksumFails : s.checksumFails = tally ScanEvent.fails evs

theorem Tracks.init (cap : ℕ) (stopFlag : Bool) : Tracks [] [] (ChunkStream.init cap stopFlag) where
  events _ := rfl
  residual _ := rfl
  chunksRead := rfl
  bytesConsumed := rfl
  resyncDroppedBytes := rfl
  checksumFails := rfl

/-- The parser drops a stretch of bytes that start no magic one by one. -/
theorem events_drop_junk {l : List UInt8} {n : ℕ}
    (h : ∀ i < n, i + 4 ≤ l.length ∧ ¬ magicBytes <+: l.drop i) (m : List UInt8) :
    chunkParser.events (l ++ m) =
        List.replicate n .junk ++ chunkParser.events (l.drop n ++ m) ∧
      chunkParser.residual (l ++ m) = chunkParser.residual (l.drop n ++ m) := by
  induction n generalizing l with
  | zero => simp
  | succ n ih =>
    obtain ⟨hlen, hpre⟩ := h 0 (by omega)
    rw [List.drop_zero, magicBytes_prefix_iff] at hpre
    have hstep : chunkParser.step l = some (.junk, l.drop 1) := by
      show scanStep l = _
      rw [scanStep, if_neg (by omega), if_neg hpre]
    have hrest : ∀ i < n, i + 4 ≤ (l.drop 1).length ∧ ¬ magicBytes <+: (l.drop 1).drop i := by
      intro i hi
      obtain ⟨hl, hp⟩ := h (i + 1) (by omega)
      rw [List.length_drop, List.drop_drop, Nat.add_comm 1 i]
      exact ⟨by omega, hp⟩
    obtain ⟨hev, hres⟩ := ih hrest
    rw [chunkParser.events_of_some (chunkParser.step_append m hstep),
      chunkParser.residual_of_some (chunkParser.step_append m hstep), hev, hres, List.drop_drop,
      Nat.add_comm 1 n, List.replicate_succ, List.cons_append]
    exact ⟨rfl, rfl⟩

/-- Dropping junk keeps the invariant. -/
theorem Tracks.resync {got : List UInt8} {evs : List ScanEvent} {s : ChunkStream}
    (h : Tracks got evs s) : ∃ n, Tracks got (evs ++ List.replicate n .junk) s.resync := by
  rw [ChunkStream.resync]
  split_ifs with h4 h0
  · exact ⟨0, by simpa using h⟩
  · refine ⟨scanForMagic s.buf, ?_⟩
    have hjunk := events_drop_junk fun i hi => scanForMagic_spec h4 (i := i) hi
    constructor
    · intro m
      rw [h.events, (hjunk m).1, List.append_assoc]
    · intro m
      rw [h.residual, (hjunk m).2]
    · simp [h.chunksRead]
    · simp [h.bytesConsumed, ScanEvent.consumed]
    · simp [h.resyncDroppedBytes, ScanEvent.dropped]
    · simp [h.checksumFails, ScanEvent.fails]
  · exact ⟨0, by simpa using h⟩

/-- After the resync a magic stands at the front, or less than one. -/
theorem ChunkStream.front_resync (s : ChunkStream) :
    s.resync.buf.take 4 = magicBytes ∨ s.resync.buf.length < 4 := by
  rw [ChunkStream.resync]
  split_ifs with h4 h0
  · have := take_drop_scanForMagic s.buf
    rwa [h0, List.drop_zero] at this
  · exact take_drop_scanForMagic s.buf
  · exact .inr (by omega)

/-- A step of the parser at the front of the buffer is a step of the reader. -/
theorem Tracks.step {got r : List UInt8} {evs : List ScanEvent} {e : ScanEvent}
    {s s' : ChunkStream} (h : Tracks got evs s) (hstep : scanStep s.buf = some (e, r))
    (hbuf : s'.buf = r) (hchunks : s'.chunksRead = s.chunksRead + (chunksOf [e]).length)
    (hconsumed : s'.bytesConsumed = s.bytesConsumed + e.consumed)
    (hdropped : s'.resyncDroppedBytes = s.resyncDroppedBytes + e.dropped)
    (hfails : s'.checksumFails = s.checksumFails + e.fails) : Tracks got (evs ++ [e]) s' := by
  have hpar : chunkParser.step s.buf = some (e, r) := hstep
  constructor
  · intro m
    rw [h.events, chunkParser.events_of_some (chunkParser.step_append m hpar), hbuf,
      List.append_assoc, List.singleton_append]
  · intro m
    rw [h.residual, chunkParser.residual_of_some (chunkParser.step_append m hpar), hbuf]
  · rw [hchunks, h.chunksRead, chunksOf_append, List.length_append]
  · rw [hconsumed, h.bytesConsumed, tally_append, tally_cons, tally_nil,
      Nat.add_zero]
  · rw [hdropped, h.resyncDroppedBytes, tally_append, tally_cons, tally_nil,
      Nat.add_zero]
  · rw [hfails, h.checksumFails, tally_append, tally_cons, tally_nil,
      Nat.add_zero]

/-- What one turn of the loop does to the invariant, by how it ends. -/
def Advance.Keeps (got : List UInt8) (evs : List ScanEvent) (s : ChunkStream) : Advance → Prop
  | .tooBig _ => False
  | .retry s' => s'.cap = s.cap ∧ s'.stopFlag = s.stopFlag ∧
      ∃ new, chunksOf new = [] ∧ Tracks got (evs ++ new) s'
  | .chunk s' hdr payload => s'.cap = s.cap ∧ s'.stopFlag = s.stopFlag ∧
      s'.buf.length < s.buf.length ∧
      ∃ new, chunksOf new = [(hdr, payload)] ∧ Tracks got (evs ++ new) s'
  | .fill s' => s'.cap = s.cap ∧ s'.stopFlag = s.stopFlag ∧ s'.buf.length ≤ s.buf.length ∧
      scanStep s'.buf = none ∧ s'.buf.length < chunkHdrSize + chunkMaxPayload ∧
      ∃ new, chunksOf new = [] ∧ Tracks got (evs ++ new) s'

theorem ChunkStream.cap_resync (s : ChunkStream) : s.resync.cap = s.cap := by
  rw [ChunkStream.resync]
  split_ifs <;> rfl

theorem ChunkStream.stopFlag_resync (s : ChunkStream) : s.resync.stopFlag = s.stopFlag := by
  rw [ChunkStream.resync]
  split_ifs <;> rfl

theorem frontNeed_le (l : List UInt8) : frontNeed l ≤ chunkHdrSize + chunkMaxPayload := by
  have := (frontHdr l).payloadLen.toNat_lt
  simp only [frontNeed, chunkMaxPayload]
  omega

/-- A turn that goes on to `fill` has less than one chunk in the buffer. -/
theorem ChunkStream.length_lt_of_fill {payloadBufCap : ℕ} {s s' : ChunkStream}
    (h : s.advance payloadBufCap = .fill s') :
    s'.cap = s.cap ∧ s'.buf.length < chunkHdrSize + chunkMaxPayload := by
  have hcap := s.cap_resync
  have hneed := frontNeed_le s.resync.buf
  have hsize := chunkHdrSize_le_frontNeed s.resync.buf
  rw [ChunkStream.advance, ChunkStream.tryFront] at h
  split_ifs at h with hready
  obtain rfl := Advance.fill.inj h
  exact ⟨hcap, by omega⟩

/-- One turn of the loop keeps the invariant. -/
theorem Tracks.advance {got : List UInt8} {evs : List ScanEvent} {s : ChunkStream}
    {payloadBufCap : ℕ} (h : Tracks got evs s) (hcap : chunkMaxPayload ≤ payloadBufCap) :
    (s.advance payloadBufCap).Keeps got evs s := by
  obtain ⟨n, htr⟩ := h.resync
  have hfront := s.front_resync
  have hlen := s.length_resync_le
  have hcap' := s.cap_resync
  have hstop := s.stopFlag_resync
  have hroom := @ChunkStream.length_lt_of_fill payloadBufCap s
  rw [ChunkStream.advance, ChunkStream.tryFront] at hroom ⊢
  generalize s.resync = t at *
  split_ifs with hready hbig hcrc
  · -- a 16-bit length never exceeds a payload buffer of 65535 bytes
    have := (frontHdr t.buf).payloadLen.toNat_lt
    simp only [chunkMaxPayload] at hcap
    exact absurd hbig (by omega)
  · have h4 : ¬ t.buf.length < 4 := by
      have : 4 ≤ chunkHdrSize := by decide
      omega
    have hstep : scanStep t.buf =
        some (.chunk (frontHdr t.buf) (frontPayload t.buf), t.buf.drop (frontNeed t.buf)) := by
      rw [scanStep, if_neg h4, if_pos (hfront.resolve_right h4), if_pos hready, if_pos hcrc]
    refine ⟨hcap', hstop, ?_, List.replicate n .junk ++ [.chunk (frontHdr t.buf)
      (frontPayload t.buf)], by simp [ScanEvent.chunk?], ?_⟩
    · exact lt_of_lt_of_le (chunkParser.length_lt hstep) hlen
    · rw [← List.append_assoc]
      exact htr.step hstep rfl rfl rfl rfl rfl
  · have h4 : ¬ t.buf.length < 4 := by
      have : 4 ≤ chunkHdrSize := by decide
      omega
    have hstep : scanStep t.buf = some (.fail, t.buf.drop 4) := by
      rw [scanStep, if_neg h4, if_pos (hfront.resolve_right h4), if_pos hready, if_neg hcrc]
    refine ⟨hcap', hstop, List.replicate n .junk ++ [.fail], by simp [ScanEvent.chunk?],
      ?_⟩
    rw [← List.append_assoc]
    exact htr.step hstep rfl rfl rfl rfl rfl
  · refine ⟨hcap', hstop, hlen, ?_, (hroom (if_neg hready)).2, _, chunksOf_replicate_junk n,
      htr⟩
    rw [scanStep]
    rcases hfront with hmagic | hshort
    · rw [if_pos hmagic, if_neg hready, ite_self]
    · rw [if_pos hshort]

/-! ### Whole calls -/

/-- A read takes its bytes from the front of what is still to come. -/
theorem ReadSource.rest_readFn (w : ReadSource) (room : ℕ) :
    w.rest = (w.readFn room).1 ++ (w.readFn room).2.rest := by
  rw [ReadSource.readFn]
  split <;> simp

/-- A read uses up one entry of the schedule, if there is one. -/
theorem ReadSource.reads_readFn (w : ReadSource) (room : ℕ) :
    (w.readFn room).2.reads = w.reads.tail := by
  rw [ReadSource.readFn]
  split <;> simp_all

/-- Filling the buffer appends bytes that were still to come. -/
theorem Tracks.fill {got : List UInt8} {evs : List ScanEvent} {s : ChunkStream} {w : ReadSource}
    (h : Tracks got evs s) (hcap : s.buf.length < s.cap) :
    ∃ more, w.rest = more ++ (s.fill w).2.2.rest ∧ (s.fill w).2.2.reads = w.reads.tail ∧
      (s.fill w).2.1 = { s with buf := s.buf ++ more } ∧
      ((s.fill w).1 = false → more = []) ∧ Tracks (got ++ more) evs (s.fill w).2.1 := by
  have hrest := w.rest_readFn (s.cap - s.buf.length)
  have hreads := w.reads_readFn (s.cap - s.buf.length)
  have hext : ∀ more, Tracks (got ++ more) evs { s with buf := s.buf ++ more } := fun more =>
    ⟨fun m => by rw [List.append_assoc, List.append_assoc, h.events],
      fun m => by rw [List.append_assoc, List.append_assoc, h.residual],
      h.chunksRead, h.bytesConsumed, h.resyncDroppedBytes, h.checksumFails⟩
  rw [ChunkStream.fill, if_neg (by omega)]
  split
  · rename_i w' hread
    rw [hread] at hrest hreads
    exact ⟨[], hrest, hreads, by simp, fun _ => rfl, by simpa using h⟩
  · rename_i b bytes w' hread
    rw [hread] at hrest hreads
    exact ⟨b :: bytes, hrest, hreads, rfl, by simp, hext _⟩

/-- What is left of the buffer, the stream and the schedule: every call that has anything
left to do makes this smaller. -/
def readMeasure (s : ChunkStream) (w : ReadSource) : ℕ :=
  s.buf.length + w.rest.length + w.reads.length

/-- What a call does, by what it returns. -/
structure ReadOutcome (got : List UInt8) (evs : List ScanEvent) (s : ChunkStream) (w : ReadSource)
    (r : ReadResult × ChunkStream × ReadSource) (more : List UInt8) (new : List ScanEvent) :
    Prop where
  rest : w.rest = more ++ r.2.2.rest
  cap : r.2.1.cap = s.cap
  stopFlag : r.2.1.stopFlag = s.stopFlag
  tracks : Tracks (got ++ more) (evs ++ new) r.2.1
  chunks : chunksOf new = r.1.chunk?.toList
  noError : r.1 ≠ .error
  waits : r.1 = .none → scanStep r.2.1.buf = none
  progress : readMeasure r.2.1 r.2.2 < readMeasure s w ∨ (r.1 = .none ∧ r.2.2.reads = [])

/-- A call that goes on from a later state, when no chunk was read on the way there. -/
theorem ReadOutcome.after {got more more' : List UInt8} {evs new new' : List ScanEvent}
    {s s' : ChunkStream} {w w' : ReadSource} {r : ReadResult × ChunkStream × ReadSource}
    (h : ReadOutcome (got ++ more) (evs ++ new) s' w' r more' new')
    (hrest : w.rest = more ++ w'.rest) (hcap : s'.cap = s.cap)
    (hstop : s'.stopFlag = s.stopFlag) (hnew : chunksOf new = [])
    (hle : readMeasure s' w' ≤ readMeasure s w) :
    ReadOutcome got evs s w r (more ++ more') (new ++ new') where
  rest := by rw [hrest, h.rest, List.append_assoc]
  cap := h.cap.trans hcap
  stopFlag := h.stopFlag.trans hstop
  tracks := by
    rw [← List.append_assoc, ← List.append_assoc]
    exact h.tracks
  chunks := by rw [chunksOf_append, hnew, h.chunks, List.nil_append]
  noError := h.noError
  waits := h.waits
  progress := h.progress.imp_left fun hlt => hlt.trans_le hle

section Call

variable {payloadBufCap : ℕ} {s s' s'' : ChunkStream} {w w' : ReadSource} {got : List UInt8}
  {evs : List ScanEvent}

/-- A chunk is returned, without a read. -/
theorem Tracks.outcome_chunk {hdr : ChunkHdr} {payload : List UInt8} (h : Tracks got evs s)
    (hpay : chunkMaxPayload ≤ payloadBufCap)
    (hadv : s.advance payloadBufCap = .chunk s' hdr payload) :
    ∃ new, ReadOutcome got evs s w (.chunk hdr payload, s', w) [] new := by
  have hk := h.advance hpay
  rw [hadv] at hk
  obtain ⟨hc, hf, hlen, new, hnew, htr⟩ := hk
  refine ⟨new, ?_⟩
  constructor
  · rfl
  · exact hc
  · exact hf
  · rwa [List.append_nil]
  · exact hnew
  · simp
  · simp
  · exact .inl (by simp only [readMeasure]; omega)

/-- The read brought nothing: the call ends as it found the buffer. -/
theorem Tracks.outcome_none (h : Tracks got evs s)
    (hcap : chunkHdrSize + chunkMaxPayload ≤ s.cap) (hpay : chunkMaxPayload ≤ payloadBufCap)
    (hadv : s.advance payloadBufCap = .fill s') (hfill : s'.fill w = (false, s'', w')) :
    ∃ new, ReadOutcome got evs s w (.none, s'', w') [] new := by
  have hk := h.advance hpay
  rw [hadv] at hk
  obtain ⟨hc, hf, hlen, hwait, hroom, new, hnew, htr⟩ := hk
  obtain ⟨more, hrest, hreads, hs'', hmore, htr'⟩ := htr.fill (w := w) (by omega)
  rw [hfill] at hrest hreads hs'' hmore htr'
  obtain rfl := hmore rfl
  simp only [List.append_nil, List.nil_append] at hrest hreads hs'' htr'
  obtain rfl : s'' = s' := hs''
  refine ⟨new, ?_⟩
  constructor
  · exact hrest
  · exact hc
  · exact hf
  · rwa [List.append_nil]
  · exact hnew
  · simp
  · exact fun _ => hwait
  · cases hr : w.reads with
    | nil => exact .inr ⟨rfl, by rw [hreads, hr, List.tail_nil]⟩
    | cons k ks =>
      left
      rw [hr, List.tail_cons] at hreads
      simp only [readMeasure, hreads, hr, List.length_cons, hrest]
      omega

/-- **One call** of the reader, from any state that satisfies the invariant. -/
theorem Tracks.read (h : Tracks got evs s) (hcap : chunkHdrSize + chunkMaxPayload ≤ s.cap)
    (hpay : chunkMaxPayload ≤ payloadBufCap) (hstop : s.stopFlag = false) :
    ∃ more new, ReadOutcome got evs s w (s.read payloadBufCap w) more new := by
  fun_induction ChunkStream.read payloadBufCap s w generalizing got evs with
  | case1 s w hs => simp [hs] at hstop
  | case2 s w hs s' hadv =>
    have := h.advance hpay
    rw [hadv] at this
    exact this.elim
  | case3 s w hs s' hdr payload hadv => exact ⟨[], h.outcome_chunk hpay hadv⟩
  | case4 s w hs s' hadv hlt ih =>
    -- a checksum failed, and the loop looks for the next magic
    have hk := h.advance hpay
    rw [hadv] at hk
    obtain ⟨hc, hf, new, hnew, htr⟩ := hk
    obtain ⟨more, new', hout⟩ := ih htr (by rwa [hc]) (by rwa [hf])
    rw [← List.append_nil got] at hout
    refine ⟨more, new ++ new', hout.after rfl hc hf hnew ?_⟩
    simp only [readMeasure]
    omega
  | case5 s w hs s' hadv s'' w' hfill => exact ⟨[], h.outcome_none hcap hpay hadv hfill⟩
  | case6 s w hs s' hadv s'' w' hfill hlt ih =>
    -- the bytes read go behind those of the buffer, and the loop goes on
    have hk := h.advance hpay
    rw [hadv] at hk
    obtain ⟨hc, hf, hlen, hwait, hroom, new, hnew, htr⟩ := hk
    obtain ⟨more, hrest, hreads, hs'', -, htr'⟩ := htr.fill (w := w) (by omega)
    rw [hfill] at hrest hreads hs'' htr'
    simp only at hrest hreads hs'' htr'
    obtain ⟨more', new', hout⟩ := ih htr' (by rw [hs'']; exact hc ▸ hcap)
      (by rw [hs'']; exact hf.trans hstop)
    refine ⟨more ++ more', new ++ new', hout.after hrest ?_ ?_ hnew ?_⟩
    · rw [hs'']
      exact hc
    · rw [hs'']
      exact hf
    · simp only [readMeasure, hs'', hrest, List.length_append]
      omega

end Call

/-- A reader that waits with no read left to come stays as it is. -/
theorem ChunkStream.read_of_waiting {payloadBufCap : ℕ} {s : ChunkStream} {w : ReadSource}
    (hwait : scanStep s.buf = none) (hreads : w.reads = []) :
    s.read payloadBufCap w = (.none, s, w) := by
  have hfront : s.buf.take 4 = magicBytes ∨ s.buf.length < 4 := by
    rw [scanStep] at hwait
    split_ifs at hwait with h4 hmagic
    · exact .inr h4
    · exact .inl hmagic
  -- the magic is at the front already
  have hsync : s.resync = s := by
    rw [ChunkStream.resync]
    split_ifs with h4 h0
    · rfl
    · have hmagic := hfront.resolve_right (by omega)
      exact absurd (by rw [scanForMagic_eq, firstOcc_of_isPrefix (magicBytes_prefix_iff.mpr hmagic),
        Option.getD_some]) h0
    · rfl
  have hready : ¬ (chunkHdrSize ≤ s.buf.length ∧ frontNeed s.buf ≤ s.buf.length) := by
    intro hr
    have h4 : ¬ s.buf.length < 4 := by
      have : 4 ≤ chunkHdrSize := by decide
      omega
    rw [scanStep, if_neg h4, if_pos (hfront.resolve_right h4), if_pos hr] at hwait
    split_ifs at hwait
  have hadv : s.advance payloadBufCap = .fill s := by
    rw [ChunkStream.advance, hsync, ChunkStream.tryFront, if_neg hready]
  have hfill : s.fill w = (false, s, w) := by
    rw [ChunkStream.fill, ReadSource.readFn, hreads]
    split_ifs <;> rfl
  rw [ChunkStream.read]
  split_ifs
  · rfl
  · split
    all_goals
      rename_i heq
      simp only [hadv, reduceCtorEq, Advance.fill.injEq] at heq
    subst heq
    split <;> simp_all

end Ar8030
