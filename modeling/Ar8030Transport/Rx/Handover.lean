import Ar8030Transport.Library.Trace
import Ar8030Transport.Rx.Forward

/-!
# Each frame is handed on once

What `rx/main.c` hands on of a frame since the frame's first chunk, over any run with any
chunk headers. The offsets `fwdOff` and `fwdVcl` live outside the reassembler; `Forwarded`
is the invariant that keeps them in step with it: while a frame is being collected, the
calls made since its first chunk cover the buffer from 0 up to `fwdOff` without a gap, and
end where a slice ends.
-/

namespace Ar8030

open Trace

/-! ### What was handed on -/

/-- The first chunk of a frame was taken. -/
def RxEvent.isStart : RxEvent → Bool
  | .taken c _ => c.hdr.chunkIdx == 0
  | .call _ => false
  | .complete _ _ _ => false

/-- The events since the last first chunk. -/
def sinceStart (tr : List RxEvent) : List RxEvent := sinceLast RxEvent.isStart tr

/-- The call an event is. -/
def RxEvent.call? : RxEvent → Option RtpCall
  | .taken _ _ => none
  | .call c => some c
  | .complete _ _ _ => none

/-- The calls among some events. -/
def callsOf (es : List RxEvent) : List RtpCall := es.filterMap RxEvent.call?

/-- The range of the reassembly buffer a call was made for. -/
def RtpCall.range? (c : RtpCall) : Option (ℕ × ℕ) :=
  match c.kind with
  | .range off len => some (off, len)
  | .whole len => some (0, len)
  | .sei => none

/-- The ranges some calls were made for, in order. -/
def rangesOf (cs : List RtpCall) : List (ℕ × ℕ) := cs.filterMap RtpCall.range?

/-- The ranges go from `a` to `b` without a gap or an overlap. -/
def Consecutive : ℕ → List (ℕ × ℕ) → ℕ → Prop
  | a, [], b => a = b
  | a, (off, len) :: rs, b => off = a ∧ Consecutive (a + len) rs b

/-- A call for a slice: no marker, and the bytes of its range. -/
def SliceCall (buf : List UInt8) (c : RtpCall) : Prop :=
  c.auEnd = false ∧ ∃ off len, c.kind = .range off len ∧ 0 < len ∧ off + len ≤ buf.length ∧
    c.data = (buf.drop off).take len

/-- The slice ends with this chunk. -/
def endsSlice (c : Chunk) : Bool := hasFlag c.hdr.flags chunkFlagSliceEnd

/-- What was handed on of the frame being collected: `buf[0..p)`, slice by slice. -/
structure Forwarded (seg : List RxEvent) (buf : List UInt8) (p : ℕ) (vcl : Bool) : Prop where
  calls : ∀ c ∈ callsOf seg, SliceCall buf c
  consecutive : Consecutive 0 (rangesOf (callsOf seg)) p
  le_length : p ≤ buf.length
  ends : p = 0 ∨ ∃ c, .taken c p ∈ seg ∧ endsSlice c = true
  vcl : vcl = (callsOf seg).any fun c => hasVcl c.data

/-! ### Small facts -/

theorem callsOf_append (es fs : List RxEvent) : callsOf (es ++ fs) = callsOf es ++ callsOf fs :=
  List.filterMap_append

@[simp]
theorem callsOf_taken (c : Chunk) (w : ℕ) : callsOf [.taken c w] = [] := rfl

@[simp]
theorem callsOf_call (c : RtpCall) : callsOf [.call c] = [c] := rfl

theorem rangesOf_append (cs ds : List RtpCall) : rangesOf (cs ++ ds) = rangesOf cs ++ rangesOf ds :=
  List.filterMap_append

theorem Consecutive.append {a b c : ℕ} {rs ss : List (ℕ × ℕ)} (h : Consecutive a rs b)
    (h' : Consecutive b ss c) : Consecutive a (rs ++ ss) c := by
  induction rs generalizing a with
  | nil =>
    obtain rfl : a = b := h
    exact h'
  | cons r rs ih =>
    obtain ⟨hoff, hrest⟩ := h
    exact ⟨hoff, ih hrest⟩

theorem Consecutive.start_le {a b : ℕ} {rs : List (ℕ × ℕ)} (h : Consecutive a rs b) : a ≤ b := by
  induction rs generalizing a with
  | nil => exact Nat.le_of_eq h
  | cons r rs ih =>
    have := ih h.2
    omega

theorem consecutive_singleton {a len b : ℕ} (h : a + len = b) : Consecutive a [(a, len)] b :=
  ⟨rfl, h⟩

/-- A slice call stays one when the buffer grows. -/
theorem SliceCall.append {buf : List UInt8} {c : RtpCall} (h : SliceCall buf c)
    (more : List UInt8) : SliceCall (buf ++ more) c := by
  obtain ⟨hend, off, len, hkind, hpos, hle, hdata⟩ := h
  refine ⟨hend, off, len, hkind, hpos, by rw [List.length_append]; omega, ?_⟩
  rw [hdata, List.drop_append_of_le_length (by omega), List.take_append_of_le_length]
  rw [List.length_drop]
  omega

/-- Nothing was handed on yet of a frame that has just started. -/
theorem forwarded_start (c : Chunk) (w : ℕ) (buf : List UInt8) :
    Forwarded [.taken c w] buf 0 false where
  calls := by simp
  consecutive := rfl
  le_length := Nat.zero_le _
  ends := Or.inl rfl
  vcl := rfl

/-- One more chunk taken. -/
theorem Forwarded.taken {seg : List RxEvent} {buf : List UInt8} {p : ℕ} {vcl : Bool}
    (h : Forwarded seg buf p vcl) (c : Chunk) (w : ℕ) (more : List UInt8) :
    Forwarded (seg ++ [.taken c w]) (buf ++ more) p vcl where
  calls := by
    intro d hd
    rw [callsOf_append, callsOf_taken, List.append_nil] at hd
    exact (h.calls d hd).append more
  consecutive := by
    rw [callsOf_append, callsOf_taken, List.append_nil]
    exact h.consecutive
  le_length := by
    have := h.le_length
    rw [List.length_append]
    omega
  ends := h.ends.imp_right fun ⟨d, hd, hs⟩ => ⟨d, by simp [hd], hs⟩
  vcl := by
    rw [callsOf_append, callsOf_taken, List.append_nil]
    exact h.vcl

/-- A slice handed on. -/
theorem Forwarded.slice {seg : List RxEvent} {buf : List UInt8} {p : ℕ} {vcl : Bool}
    (h : Forwarded seg buf p vcl) (ts : UInt32) {c : Chunk} (hc : .taken c buf.length ∈ seg)
    (hs : endsSlice c = true) (hp : p < buf.length) :
    Forwarded (seg ++ [.call (rangeCall buf p ts false)]) buf buf.length
      (vcl || hasVcl (buf.drop p)) where
  calls := by
    intro d hd
    rw [callsOf_append, callsOf_call, List.mem_append, List.mem_singleton] at hd
    rcases hd with hd | rfl
    · exact h.calls d hd
    · refine ⟨rfl, p, buf.length - p, rfl, by omega, by omega, ?_⟩
      rw [rangeCall, List.take_of_length_le (by simp)]
  consecutive := by
    rw [callsOf_append, callsOf_call, rangesOf_append]
    exact h.consecutive.append (consecutive_singleton (by omega))
  le_length := le_rfl
  ends := Or.inr ⟨c, by simp [hc], hs⟩
  vcl := by
    rw [callsOf_append, callsOf_call, List.any_append, ← h.vcl]
    simp [rangeCall]

/-! ### One chunk -/

/-- A refused chunk does nothing. -/
theorem rxStep_refused {timingSei : Bool} {s : RxState} {c : Chunk} {env : RxEnv}
    (hdone : (s.reasm.feed c.hdr c.payload).1 = false)
    (hactive : (s.reasm.feed c.hdr c.payload).2.active = false)
    (hcodec : c.hdr.codec = chunkCodecH265) :
    rxStep timingSei s (c, env) = ({ s with reasm := (s.reasm.feed c.hdr c.payload).2 }, []) := by
  simp [rxStep, hcodec, hdone, isTaken, hactive, RxState.restart, RxState.forwardSlice]

/-- A chunk is taken exactly when the code says so. -/
theorem isTaken_of_accepted {r : Reassembly} {hdr : ChunkHdr} (hactive : r.active = true)
    (hseq : r.frameSeq = hdr.frameSeq) (hnext : r.nextChunkIdx = hdr.chunkIdx + 1) :
    isTaken r hdr = true := by
  simp [isTaken, hactive, hseq, hnext]

/-! ### A complete frame -/

/-- How a complete frame was handed on: `before` is what happened from its first chunk up to
its last, with `p` bytes handed on slice by slice, and `finals` are the calls made when it was
complete. -/
structure HandedOn (timingSei : Bool) (cap : ℕ) (before : List RxEvent) (finals : List RtpCall)
    (p : ℕ) (frame : Completed) (sei : List UInt8) (env : RxEnv) : Prop where
  /-- The slices handed on before the last chunk. -/
  slices : (∀ c ∈ callsOf before, SliceCall frame.data c) ∧
    Consecutive 0 (rangesOf (callsOf before)) p
  /-- All calls together cover the frame, each with the bytes of its range. -/
  covers : Consecutive 0 (rangesOf (callsOf before ++ finals)) frame.data.length
  data : ∀ c ∈ callsOf before ++ finals, ∀ off len, c.kind = .range off len →
    c.data = (frame.data.drop off).take len
  /-- The last call and no other has the marker, unless nothing was left to hand on. -/
  marker : p = 0 ∨ p < frame.data.length ∨ sei ≠ [] →
    finals ≠ [] ∧ LastOnly true ((callsOf before ++ finals).map RtpCall.auEnd)
  /-- There is an SEI with the option on and an estimate: a suffix SEI once a slice went
  out, and a prefix SEI before that. -/
  sei_eq : match timingSei, env.estimate with
    | true, some _ => ∃ t : TimingSeiV1, t.frameSeq = frame.frameSeq ∧
        sei = if (callsOf before).any (fun c => hasVcl c.data) then timingSeiBuildSuffix t
          else timingSeiBuild t
    | _, _ => sei = []
  /-- A frame handed on whole has the SEI ahead of its first slice, if it has a slice and
  the buffer has room; otherwise it goes out as it is. -/
  whole : p = 0 → callsOf before = [] ∧ ∃ c, finals = [c] ∧ c.kind = .whole frame.data.length ∧
    ((sei ≠ [] ∧ ∃ pos, VclAt frame.data pos ∧ (∀ q < pos, ¬ VclAt frame.data q) ∧
        c.data = frame.data.take pos ++ sei ++ frame.data.drop pos) ∨
      ((sei = [] ∨ cap < frame.data.length + sei.length ∨ ∀ q, ¬ VclAt frame.data q) ∧
        c.data = frame.data))
  /-- One handed on slice by slice has it ahead of the rest. -/
  alone : 0 < p → sei ≠ [] → ∃ c rest, finals = c :: rest ∧ c.kind = .sei ∧ c.data = sei ∧
    ∀ d ∈ rest, d.kind ≠ .sei

section Finish

variable {s : RxState} {sei : List UInt8}

theorem rangesOf_seiCalls : rangesOf (s.seiCalls sei) = [] := by
  rw [RxState.seiCalls]
  split_ifs <;> rfl

/-- The calls at the end cover what was left. -/
theorem consecutive_finishCalls (hle : s.fwdOff ≤ s.reasm.buf.length) :
    Consecutive s.fwdOff (rangesOf (s.finishCalls sei)) s.reasm.buf.length := by
  rw [RxState.finishCalls]
  split_ifs with h0
  · rw [h0]
    exact consecutive_singleton (Nat.zero_add _)
  · rw [rangesOf_append, rangesOf_seiCalls, List.nil_append, RxState.restCalls]
    split_ifs with hrest
    · exact consecutive_singleton (by omega)
    · exact (by omega : s.fwdOff = s.reasm.buf.length)

theorem data_finishCalls {c : RtpCall} (hc : c ∈ s.finishCalls sei) {off len : ℕ}
    (hkind : c.kind = .range off len) : c.data = (s.reasm.buf.drop off).take len := by
  rw [RxState.finishCalls] at hc
  split_ifs at hc with h0
  · rw [List.mem_singleton.mp hc, RxState.wholeCall] at hkind
    simp at hkind
  · rcases List.mem_append.mp hc with hc | hc
    · rw [RxState.seiCalls] at hc
      split_ifs at hc
      · rw [List.mem_singleton.mp hc] at hkind
        simp at hkind
      · simp at hc
    · rw [RxState.restCalls] at hc
      split_ifs at hc
      · rw [List.mem_singleton.mp hc] at hkind ⊢
        obtain ⟨rfl, rfl⟩ : s.fwdOff = off ∧ s.reasm.buf.length - s.fwdOff = len := by
          simpa [rangeCall] using hkind
        rw [rangeCall, List.take_of_length_le (by simp)]
      · simp at hc

/-- The marker is on the last of them. -/
theorem lastOnly_finishCalls
    (hleft : s.fwdOff = 0 ∨ s.fwdOff < s.reasm.buf.length ∨ sei ≠ []) :
    s.finishCalls sei ≠ [] ∧ LastOnly true ((s.finishCalls sei).map RtpCall.auEnd) := by
  rw [RxState.finishCalls]
  split_ifs with h0
  · exact ⟨by simp, lastOnly_cons rfl lastOnly_nil⟩
  by_cases hrest : s.reasm.buf.length - s.fwdOff = 0
  · -- nothing left: the SEI carries the marker
    have hs : sei ≠ [] := hleft.resolve_left h0 |>.resolve_left (by omega)
    rw [RxState.seiCalls, if_pos hs, RxState.restCalls, if_neg (not_not.mpr hrest)]
    exact ⟨by simp, lastOnly_cons (by simp [hrest]) lastOnly_nil⟩
  · rw [RxState.restCalls, if_pos hrest, List.map_append]
    have hlast : LastOnly true ([rangeCall s.reasm.buf s.fwdOff (rtpTs s.reasm.framePts) true].map
        RtpCall.auEnd) := lastOnly_cons rfl lastOnly_nil
    have hfirst : LastOnly false ((s.seiCalls sei).map RtpCall.auEnd) := by
      rw [RxState.seiCalls]
      split_ifs
      · exact lastOnly_cons (by simpa using hrest) lastOnly_nil
      · exact lastOnly_nil
    exact ⟨by simp, hfirst.append hlast (by simp)⟩

theorem finishCalls_whole (h0 : s.fwdOff = 0) :
    ∃ c, s.finishCalls sei = [c] ∧ c.kind = .whole s.reasm.buf.length ∧
      ((sei ≠ [] ∧ ∃ pos, VclAt s.reasm.buf pos ∧ (∀ q < pos, ¬ VclAt s.reasm.buf q) ∧
          c.data = s.reasm.buf.take pos ++ sei ++ s.reasm.buf.drop pos) ∨
        ((sei = [] ∨ s.reasm.cap < s.reasm.buf.length + sei.length ∨
          ∀ q, ¬ VclAt s.reasm.buf q) ∧ c.data = s.reasm.buf)) := by
  refine ⟨s.wholeCall sei, by rw [RxState.finishCalls, if_pos h0], rfl, ?_⟩
  by_cases hs : sei = []
  · exact Or.inr ⟨Or.inl hs, if_neg (not_not.mpr hs)⟩
  · have hdata : (s.wholeCall sei).data =
        (timingSeiInsert s.reasm.buf s.reasm.cap sei).getD s.reasm.buf := if_pos hs
    have hspec := timingSeiInsert_spec s.reasm.buf s.reasm.cap sei
    rw [hdata]
    revert hspec
    cases timingSeiInsert s.reasm.buf s.reasm.cap sei with
    | none => exact fun hspec => Or.inr ⟨Or.inr hspec, rfl⟩
    | some out =>
      rintro ⟨-, pos, hv, hfirst, rfl⟩
      exact Or.inl ⟨hs, pos, hv, hfirst, rfl⟩

theorem finishCalls_alone (hpos : 0 < s.fwdOff) (hs : sei ≠ []) :
    ∃ c rest, s.finishCalls sei = c :: rest ∧ c.kind = .sei ∧ c.data = sei ∧
      ∀ d ∈ rest, d.kind ≠ .sei := by
  rw [RxState.finishCalls, if_neg (by omega), RxState.seiCalls, if_pos hs]
  refine ⟨_, s.restCalls, rfl, rfl, rfl, fun d hd => ?_⟩
  rw [RxState.restCalls] at hd
  split_ifs at hd
  · rw [List.mem_singleton.mp hd]
    simp [rangeCall]
  · simp at hd

end Finish

/-- Nothing was handed on as long as the offset is at the start. -/
theorem Forwarded.callsOf_eq_nil {seg : List RxEvent} {buf : List UInt8} {vcl : Bool}
    (h : Forwarded seg buf 0 vcl) : callsOf seg = [] := by
  have hcons := h.consecutive
  have hcalls := h.calls
  revert hcons hcalls
  cases callsOf seg with
  | nil => exact fun _ _ => rfl
  | cons c cs =>
    intro hcons hcalls
    obtain ⟨-, off, len, hkind, hpos, -, -⟩ := hcalls c (List.mem_cons_self ..)
    have hrange : rangesOf (c :: cs) = (off, len) :: rangesOf cs :=
      List.filterMap_cons_some (by rw [RtpCall.range?, hkind])
    rw [hrange] at hcons
    have := hcons.2.start_le
    omega

/-- The marker is on no slice handed on before the frame was complete. -/
theorem Forwarded.lastOnly {seg : List RxEvent} {buf : List UInt8} {p : ℕ} {vcl : Bool}
    (h : Forwarded seg buf p vcl) : LastOnly false ((callsOf seg).map RtpCall.auEnd) := by
  intro i hi
  rw [List.getElem_map, (h.calls _ (List.getElem_mem _)).1, Bool.false_and]

/-- **A complete frame**: with the slices handed on before, the calls made now are what
`HandedOn` says. -/
theorem Forwarded.handedOn {seg : List RxEvent} {s : RxState}
    (h : Forwarded seg s.reasm.buf s.fwdOff s.fwdVcl) (timingSei : Bool) (env : RxEnv) :
    HandedOn timingSei s.reasm.cap seg (s.finishCalls (s.buildSei timingSei env)) s.fwdOff
      s.reasm.completed (s.buildSei timingSei env) env where
  slices := ⟨h.calls, h.consecutive⟩
  covers := by
    rw [rangesOf_append]
    exact h.consecutive.append (consecutive_finishCalls h.le_length)
  data := by
    intro c hc off len hkind
    rcases List.mem_append.mp hc with hc | hc
    · obtain ⟨-, off', len', hkind', -, -, hdata⟩ := h.calls c hc
      obtain ⟨rfl, rfl⟩ : off' = off ∧ len' = len := by simpa using hkind'.symm.trans hkind
      exact hdata
    · exact data_finishCalls hc hkind
  marker := by
    intro hleft
    obtain ⟨hne, hlast⟩ := lastOnly_finishCalls hleft
    refine ⟨hne, ?_⟩
    rw [List.map_append]
    exact h.lastOnly.append hlast (by simpa using hne)
  sei_eq := by
    rw [RxState.buildSei]
    cases timingSei <;> rcases env.estimate with _ | ⟨offset, uncertainty⟩
    · rfl
    · rfl
    · rfl
    · refine ⟨s.timing env offset uncertainty, rfl, ?_⟩
      rw [← h.vcl]
      rfl
  whole := by
    intro h0
    rw [h0] at h
    exact ⟨h.callsOf_eq_nil, finishCalls_whole h0⟩
  alone := finishCalls_alone

/-! ### Runs -/

/-- When a frame is complete, everything since its first chunk is its last chunk, what came
before that, and the calls that hand it on. -/
def Closes (timingSei : Bool) (cap : ℕ) (past : List RxEvent) : RxEvent → Prop
  | .taken _ _ => True
  | .call _ => True
  | .complete frame sei env => ∃ before last finals p,
      sinceStart past = (before ++ [.taken last frame.data.length]) ++ finals.map .call ∧
      HandedOn timingSei cap (before ++ [.taken last frame.data.length]) finals p frame sei env

/-- The frame last started is complete. -/
def RxEvent.isComplete : RxEvent → Bool
  | .taken _ _ => false
  | .call _ => false
  | .complete _ _ _ => true

/-- What holds after every step of the loop. -/
structure Handing (timingSei : Bool) (cap : ℕ) (s : RxState) (tr : List RxEvent) : Prop where
  cap_eq : s.reasm.cap = cap
  collecting : s.reasm.active = true → Forwarded (sinceStart tr) s.reasm.buf s.fwdOff s.fwdVcl
  unfinished : (sinceStart tr).any RxEvent.isComplete = true ∨
    ∃ buf p vcl, Forwarded (sinceStart tr) buf p vcl
  closes : Always (Closes timingSei cap) tr

theorem handing_init (timingSei : Bool) (cap : ℕ) :
    Handing timingSei cap (RxState.init cap) [] where
  cap_eq := rfl
  collecting := by simp [RxState.init, Reassembly.init]
  unfinished :=
    Or.inr ⟨[], 0, false, by simp [callsOf, sinceStart], rfl, le_rfl, Or.inl rfl, rfl⟩
  closes := always_nil

/-- The loop's state while a frame is collected: the chunk just taken is the last event. -/
theorem sinceStart_taken (tr : List RxEvent) (c : Chunk) (w : ℕ) :
    ∃ before, sinceStart (tr ++ [.taken c w]) = before ++ [.taken c w] := by
  rw [sinceStart, sinceLast_concat]
  split_ifs
  · exact ⟨[], rfl⟩
  · exact ⟨_, rfl⟩

theorem sinceStart_calls (tr : List RxEvent) (cs : List RtpCall) :
    sinceStart (tr ++ cs.map .call) = sinceStart tr ++ cs.map .call :=
  sinceLast_append fun e he => by
    obtain ⟨c, -, rfl⟩ := List.mem_map.mp he
    rfl

/-- A chunk that is taken: a first chunk starts the forwarding anew, any other leaves what
was handed on as it is. -/
theorem Handing.restart {timingSei : Bool} {cap : ℕ} {s : RxState} {tr : List RxEvent}
    (h : Handing timingSei cap s tr) {r : Reassembly} {c : Chunk} {base : List UInt8}
    (hbuf : r.buf = base ++ c.payload)
    (hbase : (base = [] ∧ c.hdr.chunkIdx = 0) ∨ (base = s.reasm.buf ∧ s.reasm.active = true)) :
    Forwarded (sinceStart (tr ++ [.taken c r.buf.length])) r.buf
      (RxState.restart { s with reasm := r } true c.hdr).fwdOff
      (RxState.restart { s with reasm := r } true c.hdr).fwdVcl := by
  by_cases h0 : c.hdr.chunkIdx = 0
  · -- also where the index of a very long frame has come round to 0
    rw [sinceStart, sinceLast_concat, if_pos (by simp [RxEvent.isStart, h0]), RxState.restart,
      if_pos (by simp [h0])]
    exact forwarded_start c _ _
  · obtain ⟨rfl, hactive⟩ := hbase.resolve_left fun hb => h0 hb.2
    rw [sinceStart, sinceLast_concat, if_neg (by simp [RxEvent.isStart, h0]), RxState.restart,
      if_neg (by simp [h0])]
    have := (h.collecting hactive).taken c r.buf.length c.payload
    rwa [← hbuf] at this

@[simp]
theorem reasm_restart (s : RxState) (taken : Bool) (hdr : ChunkHdr) :
    (s.restart taken hdr).reasm = s.reasm := by
  rw [RxState.restart]
  split_ifs <;> rfl

@[simp]
theorem reasm_forwardSlice (s : RxState) (taken : Bool) (hdr : ChunkHdr) :
    (s.forwardSlice taken hdr).1.reasm = s.reasm := by
  rw [RxState.forwardSlice]
  split_ifs <;> rfl

/-- The events of a chunk that completes no frame are calls. -/
theorem Forwarded.forwardSlice {s : RxState} {tr : List RxEvent} {c : Chunk}
    (h : Forwarded (sinceStart (tr ++ [.taken c s.reasm.buf.length])) s.reasm.buf s.fwdOff
      s.fwdVcl) :
    ∃ cs : List RtpCall, (s.forwardSlice true c.hdr).2 = cs.map .call ∧
      Forwarded (sinceStart (tr ++ [.taken c s.reasm.buf.length] ++ cs.map .call)) s.reasm.buf
        (s.forwardSlice true c.hdr).1.fwdOff (s.forwardSlice true c.hdr).1.fwdVcl := by
  rw [RxState.forwardSlice]
  split_ifs with hslice
  · obtain ⟨⟨-, hend⟩, hlt⟩ : (s.reasm.chunkCount = 0 ∧
        hasFlag c.hdr.flags chunkFlagSliceEnd = true) ∧ s.fwdOff < s.reasm.buf.length := by
      simpa using hslice
    refine ⟨[rangeCall s.reasm.buf s.fwdOff (rtpTs s.reasm.framePts) false], rfl, ?_⟩
    rw [sinceStart_calls]
    obtain ⟨before, hbefore⟩ := sinceStart_taken tr c s.reasm.buf.length
    exact h.slice _ (by rw [hbefore]; simp) hend hlt
  · exact ⟨[], rfl, by simpa using h⟩

theorem always_closes_calls {timingSei : Bool} {cap : ℕ} {tr : List RxEvent}
    (h : Always (Closes timingSei cap) tr) (cs : List RtpCall) :
    Always (Closes timingSei cap) (tr ++ cs.map .call) := by
  refine h.append fun pre e post heq => ?_
  have he : e ∈ cs.map RxEvent.call := by
    rw [heq]
    simp
  obtain ⟨c, -, rfl⟩ := List.mem_map.mp he
  trivial

section Taken

variable {timingSei : Bool} {cap : ℕ} {s : RxState} {tr : List RxEvent} {c : Chunk}

/-- A chunk that was taken and completes no frame. -/
theorem handing_forwardSlice (hcap : s.reasm.cap = cap)
    (hfwd : Forwarded (sinceStart (tr ++ [.taken c s.reasm.buf.length])) s.reasm.buf s.fwdOff
      s.fwdVcl)
    (hcl : Always (Closes timingSei cap) (tr ++ [.taken c s.reasm.buf.length])) :
    Handing timingSei cap (s.forwardSlice true c.hdr).1
      (tr ++ [.taken c s.reasm.buf.length] ++ (s.forwardSlice true c.hdr).2) := by
  obtain ⟨cs, hcs, hfwd'⟩ := hfwd.forwardSlice
  rw [hcs]
  refine ⟨by rw [reasm_forwardSlice, hcap], fun _ => ?_, Or.inr ⟨_, _, _, hfwd'⟩,
    always_closes_calls hcl cs⟩
  rw [reasm_forwardSlice]
  exact hfwd'

/-- A chunk that completes a frame. -/
theorem handing_finishFrame (hcap : s.reasm.cap = cap)
    (hfwd : Forwarded (sinceStart (tr ++ [.taken c s.reasm.buf.length])) s.reasm.buf s.fwdOff
      s.fwdVcl)
    (hcl : Always (Closes timingSei cap) (tr ++ [.taken c s.reasm.buf.length])) (env : RxEnv) :
    Handing timingSei cap (s.finishFrame timingSei env).1
      (tr ++ [.taken c s.reasm.buf.length] ++ (s.finishFrame timingSei env).2) := by
  have hon := Forwarded.handedOn (s := s.countLost) hfwd timingSei env
  obtain ⟨before, hbefore⟩ := sinceStart_taken tr c s.reasm.buf.length
  rw [RxState.finishFrame]
  dsimp only
  rw [← List.append_assoc]
  refine ⟨hcap, fun ha => by simp [Reassembly.reset] at ha, Or.inl ?_, ?_⟩
  · rw [sinceStart, sinceLast_concat, if_neg (by simp [RxEvent.isStart])]
    simp [RxEvent.isComplete]
  · refine (always_closes_calls hcl _).concat
      ⟨before, c, s.countLost.finishCalls (s.countLost.buildSei timingSei env), s.fwdOff, ?_, ?_⟩
    · rw [sinceStart_calls, hbefore]
      rfl
    · rw [hbefore] at hon
      exact hcap ▸ hon

end Taken

/-- **One chunk** keeps the invariant. -/
theorem Handing.step {timingSei : Bool} {cap : ℕ} {s : RxState} {tr : List RxEvent}
    (h : Handing timingSei cap s tr) (input : Chunk × RxEnv) :
    Handing timingSei cap (rxStep timingSei s input).1 (tr ++ (rxStep timingSei s input).2) := by
  obtain ⟨c, env⟩ := input
  by_cases hcodec : c.hdr.codec = chunkCodecH265
  swap
  · simpa [rxStep, hcodec] using h
  rcases s.reasm.feed_cases c.hdr c.payload with ⟨hdone, hactive⟩ | ⟨hactive, hseq, hnext, base,
    hbuf, hbase⟩
  · rw [rxStep_refused hdone hactive hcodec, List.append_nil]
    exact ⟨(Reassembly.cap_feed ..).trans h.cap_eq, fun ha => by simp [hactive] at ha,
      h.unfinished, h.closes⟩
  have hcap := (Reassembly.cap_feed s.reasm c.hdr c.payload).trans h.cap_eq
  have htaken := isTaken_of_accepted hactive hseq hnext
  have hfwd := h.restart hbuf hbase
  have hcl : Always (Closes timingSei cap)
      (tr ++ [.taken c (s.reasm.feed c.hdr c.payload).2.buf.length]) := h.closes.concat trivial
  -- from here on only the reassembly with the chunk matters
  rw [rxStep]
  simp only [hcodec, if_true, htaken]
  revert hfwd hcl hcap
  generalize (s.reasm.feed c.hdr c.payload).2 = r
  have hr : (RxState.restart { s with reasm := r } true c.hdr).reasm = r := reasm_restart ..
  revert hr
  generalize RxState.restart { s with reasm := r } true c.hdr = s'
  rintro rfl hcap hfwd hcl
  rw [← List.append_assoc]
  split_ifs with hdone
  · exact handing_finishFrame hcap hfwd hcl env
  · exact handing_forwardSlice hcap hfwd hcl

theorem handing_rxRun (timingSei : Bool) (cap : ℕ) (inputs : List (Chunk × RxEnv)) :
    Handing timingSei cap (rxRun timingSei cap inputs).1 (rxRun timingSei cap inputs).2 :=
  Mealy.run_induction (rxStep timingSei)
    (motive := fun _ s tr => Handing timingSei cap s tr)
    (handing_init timingSei cap) (fun _ input _ _ h => h.step input) inputs

/-- The frame an event completes. -/
def RxEvent.frame? : RxEvent → Option Completed
  | .taken _ _ => none
  | .call _ => none
  | .complete frame _ _ => some frame

/-- The frames completed, in order. -/
def framesOf (tr : List RxEvent) : List Completed := tr.filterMap RxEvent.frame?

theorem framesOf_append (es fs : List RxEvent) : framesOf (es ++ fs) = framesOf es ++ framesOf fs :=
  List.filterMap_append

theorem framesOf_map_call (cs : List RtpCall) : framesOf (cs.map .call) = [] := by
  rw [framesOf, List.filterMap_map]
  exact List.filterMap_none _

theorem framesOf_forwardSlice (s : RxState) (taken : Bool) (hdr : ChunkHdr) :
    framesOf (s.forwardSlice taken hdr).2 = [] := by
  rw [RxState.forwardSlice]
  split_ifs <;> rfl

/-- The loop drives the reassembler as `videoStep` does. -/
theorem rxStep_videoStep (timingSei : Bool) (s : RxState) (input : Chunk × RxEnv) :
    (rxStep timingSei s input).1.reasm = (videoStep s.reasm input.1).1 ∧
      framesOf (rxStep timingSei s input).2 = (videoStep s.reasm input.1).2 := by
  rw [rxStep, videoStep]
  by_cases hcodec : input.1.hdr.codec = chunkCodecH265
  swap
  · simp [hcodec, framesOf]
  simp only [hcodec, if_true]
  have htaken : framesOf (if isTaken (s.reasm.feed input.1.hdr input.1.payload).2 input.1.hdr then
      [.taken input.1 (s.reasm.feed input.1.hdr input.1.payload).2.buf.length] else []) = [] := by
    split_ifs <;> rfl
  rw [framesOf_append, htaken, List.nil_append]
  rcases hfed : s.reasm.feed input.1.hdr input.1.payload with ⟨done, r⟩
  cases done with
  | true =>
    rw [if_pos rfl, RxState.finishFrame]
    dsimp only
    rw [framesOf_append, framesOf_map_call]
    simp [handOn, RxState.countLost, framesOf, RxEvent.frame?]
  | false =>
    rw [if_neg (by simp), framesOf_forwardSlice, reasm_forwardSlice, reasm_restart]
    exact ⟨rfl, rfl⟩

/-- The frames handed on are those of the reassembler. -/
theorem framesOf_rxRun (timingSei : Bool) (cap : ℕ) (inputs : List (Chunk × RxEnv)) :
    framesOf (rxRun timingSei cap inputs).2 =
      (Mealy.run videoStep (Reassembly.init cap) (inputs.map Prod.fst)).2 := by
  refine (Mealy.run_induction (rxStep timingSei) (s := RxState.init cap)
    (motive := fun is s tr =>
      s.reasm = (Mealy.run videoStep (Reassembly.init cap) (is.map Prod.fst)).1 ∧
        framesOf tr = (Mealy.run videoStep (Reassembly.init cap) (is.map Prod.fst)).2)
    ⟨rfl, rfl⟩ (fun is i s tr ⟨hs, htr⟩ => ?_) inputs).2
  obtain ⟨hreasm, hframes⟩ := rxStep_videoStep timingSei s i
  rw [List.map_append, List.map_singleton, Mealy.run_concat, framesOf_append, hreasm, hframes, ← hs,
    htr]
  exact ⟨rfl, rfl⟩

/-- **Each frame is handed on once**, whatever chunks come: the frames handed on are those the
reassembler completes; the calls made for each since its first chunk cover it in order and
end with the marker, with the timing SEI once; and a frame that is not complete was handed on
up to the end of a slice, without a marker. -/
theorem frames_forwarded_once (timingSei : Bool) (cap : ℕ) (inputs : List (Chunk × RxEnv)) :
    framesOf (rxRun timingSei cap inputs).2 =
        (Mealy.run videoStep (Reassembly.init cap) (inputs.map Prod.fst)).2 ∧
      Always (Closes timingSei cap) (rxRun timingSei cap inputs).2 ∧
      ((sinceStart (rxRun timingSei cap inputs).2).any RxEvent.isComplete = true ∨
        ∃ buf p vcl, Forwarded (sinceStart (rxRun timingSei cap inputs).2) buf p vcl) :=
  ⟨framesOf_rxRun timingSei cap inputs, (handing_rxRun timingSei cap inputs).closes,
    (handing_rxRun timingSei cap inputs).unfinished⟩

/-- A chunk of frame 7 for the runs below. -/
def sampleChunk (idx count : UInt16) (flags : UInt8) (payload : List UInt8) : Chunk where
  hdr :=
    { magic := chunkMagic
      frameSeq := 7
      chunkIdx := idx
      chunkCount := count
      payloadLen := UInt16.ofNat payload.length
      flags := flags
      codec := chunkCodecH265
      framePts := 0
      checksum := 0
      reserved := 0 }
  payload := payload

/-- A parameter set has no slice for the SEI to go ahead of. -/
theorem timingSeiInsert_parameterSet (cap : ℕ) (sei : List UInt8) :
    timingSeiInsert [0, 0, 1, 0x40, 1] cap sei = none := by
  have hspec := timingSeiInsert_spec [0, 0, 1, 0x40, 1] cap sei
  revert hspec
  cases timingSeiInsert [0, 0, 1, 0x40, 1] cap sei with
  | none => exact fun _ => rfl
  | some out =>
    rintro ⟨-, pos, hv, -, -⟩
    have hpos : pos < 5 := lt_of_le_of_lt (Nat.le_add_right ..) hv.2.1
    exact absurd hv ((by decide : ∀ q < 5, ¬ VclAt [0, 0, 1, 0x40, 1] q) pos hpos)

/-- Two frames that are not handed on as the others are: one whose last chunk is empty, with
all of it handed on and no SEI, ends without a marker; and a parameter set on its own goes out
without the SEI. -/
theorem frames_without_marker_or_sei :
    (let tr := (rxRun true 4096 [(sampleChunk 0 0 chunkFlagSliceEnd [0, 0, 1, 2, 1], ⟨0, none, 0⟩),
        (sampleChunk 1 2 chunkFlagFrameEnd [], ⟨0, none, 0⟩)]).2
     framesOf tr = [⟨7, 0, 0, [0, 0, 1, 2, 1]⟩] ∧
      callsOf tr = [⟨.range 0 5, [0, 0, 1, 2, 1], 0, false⟩]) ∧
    (let tr := (rxRun true 4096 [(sampleChunk 0 1 0 [0, 0, 1, 0x40, 1], ⟨0, some (0, 0), 0⟩)]).2
     framesOf tr = [⟨7, 0, 0, [0, 0, 1, 0x40, 1]⟩] ∧
      callsOf tr = [⟨.whole 5, [0, 0, 1, 0x40, 1], 0, true⟩]) := by
  refine ⟨⟨rfl, rfl⟩, rfl, ?_⟩
  have hcalls : ∀ sei : List UInt8, (if sei ≠ [] then
      (timingSeiInsert [0, 0, 1, 0x40, 1] 4096 sei).getD [0, 0, 1, 0x40, 1]
      else [0, 0, 1, 0x40, 1]) = [0, 0, 1, 0x40, 1] := by
    intro sei
    rw [timingSeiInsert_parameterSet, Option.getD_none, ite_self]
  exact congrArg (fun data => ([⟨.whole 5, data, 0, true⟩] : List RtpCall)) (hcalls _)

end Ar8030
