import Ar8030Transport.H265.ScannerAgreement
import Ar8030Transport.Wire.Chunk

/-!
# The timing SEI comes back

`timingSeiParse` is `timing_sei_parse` (`common/timing_sei.c`), the reference parser of the
timing SEI, and `timingSeiInsertInPlace` is `timing_sei_insert` on the memory it works on.
The parser undoes what `build_nal` does, wherever the SEI stands among the NAL units of an
access unit: ahead of the first slice as a prefix SEI, behind it as a suffix SEI.
-/

namespace Ar8030

/-! ### The parser -/

/-- The loop that strips emulation prevention, with the zeros seen so far and the room left
in `rbsp`. -/
def unescapeLoop : ℕ → ℕ → List UInt8 → List UInt8
  | _, _, [] => []
  | _, 0, _ :: _ => []
  | zeros, room + 1, b :: bs =>
    if 2 ≤ zeros ∧ b = 3 then unescapeLoop 0 (room + 1) bs
    else b :: unescapeLoop (if b = 0 then zeros + 1 else 0) room bs

/-- `memcpy(out, rbsp + 2 + 16, sizeof(*out))`. -/
def TimingSeiV1.ofBytes (buf : List UInt8) : TimingSeiV1 where
  version := UInt8.ofNat (fieldAt 0 1 buf)
  flags := UInt8.ofNat (fieldAt 1 1 buf)
  frameSeq := UInt16.ofNat (fieldAt 2 2 buf)
  captureGroundUs := UInt64.ofNat (fieldAt 4 8 buf)
  rxDoneGroundUs := UInt64.ofNat (fieldAt 12 8 buf)
  syncUncertaintyUs := UInt32.ofNat (fieldAt 20 4 buf)
  encodeUs := UInt32.ofNat (fieldAt 24 4 buf)
  framesLost := UInt32.ofNat (fieldAt 28 4 buf)

/-- What the parser asks of the stripped message. -/
def timingMessage (rbsp : List UInt8) : Option TimingSeiV1 :=
  if rbsp.length = 2 + timingSeiPayloadSize ∧ rbsp.getD 0 0 = 5 ∧
      timingSeiPayloadSize ≤ (rbsp.getD 1 0).toNat ∧ (rbsp.drop 2).take 16 = timingSeiUuid ∧
      rbsp.getD (2 + 16) 0 = timingSeiVersion then
    some (TimingSeiV1.ofBytes (rbsp.drop (2 + 16)))
  else none

/-- The timing SEI in one NAL unit: a prefix SEI ahead of the first slice, a suffix SEI
behind it. -/
def nalTiming (seenSlice : Bool) (nal : List UInt8) : Option TimingSeiV1 :=
  if 2 < nal.length ∧ nalType (nal.getD 0 0) = (if seenSlice then 40 else 39) then
    timingMessage (unescapeLoop 0 (2 + timingSeiPayloadSize) (nal.drop 2))
  else none

/-- The loop of `timing_sei_parse`. Its next `pos` and `sc_len` are those of the search from
`nal` on. -/
def timingSeiParseFrom (au : List UInt8) (seenSlice : Bool) (i : ℕ) : Option TimingSeiV1 :=
  if (findStartCode au i).1 < au.length then
    let nal := (findStartCode au i).1 + (findStartCode au i).2
    let next := (findStartCode au nal).1
    if au.length ≤ nal then none
    else
      let seenSlice := seenSlice || isVcl (au.getD nal 0)
      match nalTiming seenSlice ((au.drop nal).take (next - nal)) with
      | some t => some t
      | none => timingSeiParseFrom au seenSlice nal
  else none
termination_by au.length - i
decreasing_by
  have hin : (findStartCode au i).1 < au.length := by assumption
  rcases findStartCode_spec au i with ⟨heq, -⟩ | ⟨hle, -, -, hpos, -⟩
  · rw [heq] at hin
    exact absurd hin (lt_irrefl _)
  · omega

/-- `timing_sei_parse`. -/
def timingSeiParse (au : List UInt8) : Option TimingSeiV1 := timingSeiParseFrom au false 0

/-! ### Inserting in place -/

/-- `bytes` stored at `off`. -/
def overwrite (mem : List UInt8) (off : ℕ) (bytes : List UInt8) : List UInt8 :=
  mem.take off ++ bytes ++ mem.drop (off + bytes.length)

/-- `timing_sei_insert` on the memory behind `buf`, with the access unit in its first `len`
bytes: the return value, the memory and the new length. -/
def timingSeiInsertInPlace (mem : List UInt8) (len cap : ℕ) (sei : List UInt8) :
    ℤ × List UInt8 × ℕ :=
  if cap < (len + sei.length) % 2 ^ 32 then (-1, mem, len)
  else
    match firstVcl (mem.take len) 0 with
    | none => (-1, mem, len)
    | some pos =>
      (0, overwrite (overwrite mem (pos + sei.length) ((mem.take len).drop pos)) pos sei,
        (len + sei.length) % 2 ^ 32)

/-! ### The message -/

/-- **Stripping undoes escaping**, as far as there is room. -/
theorem unescapeLoop_escapeLoop (zeros room : ℕ) (bs : List UInt8) :
    unescapeLoop zeros room (escapeLoop zeros bs) = bs.take room := by
  induction bs generalizing zeros room with
  | nil => simp [escapeLoop, unescapeLoop]
  | cons b bs ih =>
    cases room with
    | zero =>
      rw [escapeLoop_cons]
      split_ifs <;> rfl
    | succ room =>
      rw [escapeLoop_cons, List.take_succ_cons]
      split_ifs with hesc hb hb
      · rw [unescapeLoop, if_pos ⟨hesc.1, rfl⟩, unescapeLoop, if_neg (by omega), if_pos hb, ih]
      · rw [unescapeLoop, if_pos ⟨hesc.1, rfl⟩, unescapeLoop, if_neg (by omega), if_neg hb, ih]
      · have hplain : ¬ (2 ≤ zeros ∧ b = 3) := fun h => hesc ⟨h.1, h.2 ▸ UInt8.le_rfl⟩
        rw [unescapeLoop, if_neg hplain, if_pos hb, ih]
      · have hplain : ¬ (2 ≤ zeros ∧ b = 3) := fun h => hesc ⟨h.1, h.2 ▸ UInt8.le_rfl⟩
        rw [unescapeLoop, if_neg hplain, if_neg hb, ih]

/-- The struct is read back from its bytes. -/
theorem TimingSeiV1.ofBytes_toBytes (t : TimingSeiV1) : TimingSeiV1.ofBytes t.toBytes = t := by
  have hlast := uint32_fieldAt t.framesLost []
  rw [List.append_nil] at hlast
  simp (disch := decide) only [TimingSeiV1.ofBytes, TimingSeiV1.toBytes, List.append_assoc,
    fieldAt_skip, Nat.reduceSub, uint8_fieldAt, uint16_fieldAt, uint32_fieldAt, uint64_fieldAt,
    hlast]

/-- The parser accepts the message of version 1. -/
theorem timingMessage_rbsp {t : TimingSeiV1} (hversion : t.version = timingSeiVersion) :
    timingMessage (t.rbsp.take (2 + timingSeiPayloadSize)) = some t := by
  have hlen : t.toBytes.length = 32 := by simp [TimingSeiV1.toBytes]
  have htake : t.rbsp.take (2 + timingSeiPayloadSize) =
      [5, UInt8.ofNat timingSeiPayloadSize] ++ timingSeiUuid ++ t.toBytes := by
    rw [TimingSeiV1.rbsp]
    refine List.take_left' ?_
    simp [hlen, timingSeiUuid, timingSeiPayloadSize]
  have hdrop : ([5, UInt8.ofNat timingSeiPayloadSize] ++ timingSeiUuid ++ t.toBytes).drop (2 + 16) =
      t.toBytes := List.drop_left' rfl
  have hfirst : t.toBytes.getD 0 0 = timingSeiVersion := by
    rw [← hversion]
    simp [TimingSeiV1.toBytes, LittleEndian.encode]
  have hat : ([5, UInt8.ofNat timingSeiPayloadSize] ++ timingSeiUuid ++ t.toBytes).getD
      (2 + 16) 0 = timingSeiVersion := by
    rw [List.getD_append_right _ _ _ _ (by decide)]
    exact hfirst
  rw [htake, timingMessage, hdrop, TimingSeiV1.ofBytes_toBytes, if_pos]
  have hsize : timingSeiPayloadSize ≤ (UInt8.ofNat timingSeiPayloadSize).toNat := by decide
  refine ⟨?_, rfl, hsize, rfl, hat⟩
  simp [hlen, timingSeiUuid, timingSeiPayloadSize]

/-- **The NAL unit is decoded** where its type is asked for. -/
theorem nalTiming_seiBody {t : TimingSeiV1} (hversion : t.version = timingSeiVersion)
    {seenSlice : Bool} {type : UInt8} (htype : type = if seenSlice then 40 else 39) :
    nalTiming seenSlice (seiBody t type) = some t := by
  have hlen : 2 < (seiBody t type).length := by
    rw [seiBody, TimingSeiV1.rbsp]
    simp [escapeLoop_cons]
  have hnalType : nalType ((seiBody t type).getD 0 0) = if seenSlice then 40 else 39 := by
    have hhead : (seiBody t type).getD 0 0 = type <<< (1 : UInt8) := rfl
    rw [hhead, htype]
    clear htype
    revert seenSlice
    decide
  have hdrop : (seiBody t type).drop 2 = escapeLoop 0 t.rbsp := rfl
  rw [nalTiming, if_pos ⟨hlen, hnalType⟩, hdrop, unescapeLoop_escapeLoop,
    timingMessage_rbsp hversion]

/-! ### The parser over the NAL units -/

/-- What the parser finds in NAL units of an access unit. -/
def parseNals (au : List UInt8) : Bool → List NalSpan → Option TimingSeiV1
  | _, [] => none
  | seenSlice, s :: ss =>
    if au.length ≤ s.start then none
    else
      match nalTiming (seenSlice || isVcl (au.getD s.start 0)) (s.bytes au) with
      | some t => some t
      | none => parseNals au (seenSlice || isVcl (au.getD s.start 0)) ss

theorem timingSeiParseFrom_eq (au : List UInt8) (seenSlice : Bool) (i : ℕ) :
    timingSeiParseFrom au seenSlice i = parseNals au seenSlice (scNals au i) := by
  induction i using scan_induction au generalizing seenSlice with
  | none i hnone =>
    rw [timingSeiParseFrom, hnone.findStartCode, if_neg (lt_irrefl _), hnone.scNals, parseNals]
  | code i pos hfirst ih =>
    have hlt := two_lt_of_codeAt hfirst.code
    rw [timingSeiParseFrom, hfirst.findStartCode, if_pos (by simp only; omega), hfirst.scNals,
      parseNals]
    simp only [ih]
    rfl

theorem timingSeiParse_eq (au : List UInt8) :
    timingSeiParse au = parseNals au false (scNals au 0) := timingSeiParseFrom_eq au false 0

/-- Whether a slice has been seen behind some NAL units. -/
def seenAfter (au : List UInt8) (seenSlice : Bool) (ss : List NalSpan) : Bool :=
  seenSlice || ss.any fun s => isVcl (au.getD s.start 0)

theorem parseNals_append {au : List UInt8} {seenSlice : Bool} {before ss : List NalSpan}
    (hin : ∀ s ∈ before, s.start < au.length) (hnone : parseNals au seenSlice before = none) :
    parseNals au seenSlice (before ++ ss) = parseNals au (seenAfter au seenSlice before) ss := by
  induction before generalizing seenSlice with
  | nil => simp [seenAfter]
  | cons s before ih =>
    have hs : ¬ au.length ≤ s.start := not_le.mpr (hin s List.mem_cons_self)
    have hrest : ∀ s ∈ before, s.start < au.length := fun s hs =>
      hin s (List.mem_cons_of_mem _ hs)
    have hseen : seenAfter au seenSlice (s :: before) =
        seenAfter au (seenSlice || isVcl (au.getD s.start 0)) before := by
      simp [seenAfter, Bool.or_assoc]
    rw [parseNals, if_neg hs] at hnone
    rw [List.cons_append, parseNals, if_neg hs, hseen]
    cases hnal : nalTiming (seenSlice || isVcl (au.getD s.start 0)) (s.bytes au) with
    | some t =>
      rw [hnal] at hnone
      exact absurd hnone (Option.some_ne_none t)
    | none =>
      rw [hnal] at hnone
      exact ih hrest hnone

theorem getD_bytes {data : List UInt8} {s : NalSpan} (h : 0 < s.len) :
    (s.bytes data).getD 0 0 = data.getD s.start 0 := by
  simp [NalSpan.bytes, List.getD_eq_getElem?_getD, h]

/-- Cutting a buffer at the end of a NAL unit leaves its bytes. -/
theorem bytes_eq_of_take {a b : List UInt8} {q : ℕ} {s : NalSpan} (hle : s.cursor ≤ q)
    (h : a.take q = b.take q) : s.bytes a = s.bytes b := by
  have hcut : ∀ l : List UInt8, s.bytes l = ((l.take q).drop s.start).take s.len := by
    intro l
    rw [NalSpan.cursor] at hle
    rw [NalSpan.bytes, List.drop_take, List.take_take, Nat.min_eq_left (by omega)]
  rw [hcut a, hcut b, h]

theorem getD_eq_of_take {a b : List UInt8} {q k : ℕ} (hk : k < q) (h : a.take q = b.take q) :
    a.getD k 0 = b.getD k 0 := by
  have hcut : ∀ l : List UInt8, l.getD k 0 = (l.take q).getD k 0 := fun l => by
    simp [List.getD_eq_getElem?_getD, hk]
  rw [hcut a, hcut b, h]

/-- Where the buffer cut off at a boundary has no timing SEI, none is found in its NAL units
with more behind them. -/
theorem parseNals_of_take {out : List UInt8} {q : ℕ} {seenSlice : Bool} {before : List NalSpan}
    (hq : q < out.length) (hle : ∀ s ∈ before, s.cursor ≤ q)
    (hsorted : before.Pairwise fun s s' => s.start < s'.start)
    (hnone : parseNals (out.take q) seenSlice before = none) :
    parseNals out seenSlice before = none := by
  induction before generalizing seenSlice with
  | nil => rfl
  | cons s before ih =>
    obtain ⟨hfirst, hrest⟩ := List.pairwise_cons.mp hsorted
    have hs := hle s List.mem_cons_self
    have htake : (out.take q).take q = out.take q := by rw [List.take_take, Nat.min_self]
    have hlen : (out.take q).length = q := by rw [List.length_take, Nat.min_eq_left hq.le]
    rw [NalSpan.cursor] at hs
    rw [parseNals, if_neg (by omega)]
    rcases Nat.lt_or_ge s.start q with hin | hend
    · rw [parseNals, if_neg (by omega), bytes_eq_of_take hs htake, getD_eq_of_take hin htake]
        at hnone
      cases hnal : nalTiming (seenSlice || isVcl (out.getD s.start 0)) (s.bytes out) with
      | some t =>
        rw [hnal] at hnone
        exact absurd hnone (Option.some_ne_none t)
      | none =>
        rw [hnal] at hnone
        exact ih (fun s' hs' => hle s' (List.mem_cons_of_mem _ hs')) hrest hnone
    · -- an empty NAL unit at the cut is the last one
      have hempty : nalTiming (seenSlice || isVcl (out.getD s.start 0)) (s.bytes out) = none := by
        have hzero : s.len = 0 := by omega
        rw [nalTiming, if_neg]
        simp [NalSpan.bytes, hzero]
      have hlast : before = [] := by
        refine List.eq_nil_iff_forall_not_mem.mpr fun s' hs' => ?_
        have h1 := hfirst s' hs'
        have h2 := hle s' (List.mem_cons_of_mem _ hs')
        rw [NalSpan.cursor] at h2
        omega
      rw [hempty, hlast]
      rfl

/-! ### The SEI among the NAL units -/

section Place

variable {buf : List UInt8} {q : ℕ} {t : TimingSeiV1}

/-- The access unit has a slice and `pos` is the start code of the first one. -/
def FirstSlice (buf : List UInt8) (pos : ℕ) : Prop := VclAt buf pos ∧ ∀ p < pos, ¬ VclAt buf p

/-- The SEI is found at a boundary if nothing in front of the boundary passes for one and it
has the type for its place. -/
theorem NalBoundary.parse_insertAt (h : NalBoundary buf q)
    (hversion : t.version = timingSeiVersion) {type : UInt8}
    (hheader : type <<< (1 : UInt8) ≠ 0) (hvcl : isVcl (type <<< (1 : UInt8)) = false)
    (hnone : timingSeiParse (buf.take q) = none)
    (htype : type = if seenAfter (insertAt buf q (buildNal t type)) false (scNals (buf.take q) 0)
      then 40 else 39) :
    timingSeiParse (insertAt buf q (buildNal t type)) = some t := by
  have hlen : (buf.take q).length = q := by rw [List.length_take, Nat.min_eq_left h.le]
  have hbuild : StartCode.long.bytes ++ (seiUnit t type hheader).bytes = buildNal t type := rfl
  have hbody : (seiUnit t type hheader).bytes = seiBody t type := rfl
  have hle := h.scNals_take.1
  have hnew := h.scNals_insert (seiUnit t type hheader)
  have hbytes := h.bytes_insertAt (seiUnit t type hheader)
  rw [hbuild] at hnew hbytes
  have hcut := take_insertAt h.le (buildNal t type)
  have hq : q + 4 < (insertAt buf q (buildNal t type)).length := by
    rw [insertAt, List.append_assoc, List.length_append, hlen, buildNal_eq, List.length_append,
      List.length_append, seiBody, List.length_append]
    simp [StartCode.bytes]
    omega
  rw [timingSeiParse_eq] at hnone
  -- in front of the SEI nothing is found, so the walk reaches it
  have hnone' : parseNals ((insertAt buf q (buildNal t type)).take q) false
      (scNals (buf.take q) 0) = none := by rw [hcut, hnone]
  have hfree := parseNals_of_take (by omega) hle (pairwise_scNals (buf.take q) 0) hnone'
  have hin : ∀ s ∈ scNals (buf.take q) 0, s.start < (insertAt buf q (buildNal t type)).length := by
    intro s hs
    have hcursor := hle s hs
    rw [NalSpan.cursor] at hcursor
    omega
  rw [timingSeiParse_eq, hnew, parseNals_append hin hfree, parseNals, if_neg (by simp only; omega),
    hbytes, hbody]
  -- its header says that it is no slice
  have hhead : (insertAt buf q (buildNal t type)).getD (q + 4) 0 = type <<< (1 : UInt8) := by
    have hpos : 0 < (⟨q + 4, (seiBody t type).length⟩ : NalSpan).len := by simp [seiBody]
    rw [← getD_bytes hpos]
    rw [hbody] at hbytes
    rw [hbytes]
    rfl
  simp only [hhead, hvcl, Bool.or_false]
  rw [nalTiming_seiBody hversion htype]

/-- In front of the first slice no slice has been seen. -/
theorem seenAfter_of_first (hfirst : FirstSlice buf q) {out : List UInt8}
    (hcut : out.take q = buf.take q) :
    seenAfter out false (scNals (buf.take q) 0) = false := by
  obtain ⟨hle, hbuf⟩ := (nalBoundary_of_first hfirst.1 hfirst.2).scNals_take
  rw [seenAfter, Bool.false_or, List.any_eq_false]
  intro s hs hvcl
  have hmem : s ∈ scNals buf 0 := by rw [hbuf]; exact List.mem_append_left _ hs
  have hfull := nonempty_of_before hfirst.1 hfirst.2 hmem (hle s hs)
  have hcursor := hle s hs
  rw [NalSpan.nonempty, bne_iff_ne] at hfull
  rw [NalSpan.cursor] at hcursor
  rw [getD_eq_of_take (by omega) hcut] at hvcl
  obtain ⟨p, -, hcode, rfl⟩ := exists_of_mem_scNals hmem
  have hlt := two_lt_of_codeAt hfirst.1.1
  have h3 := three_le_codeAt hcode
  simp only [spanAt] at hcursor hfull hvcl
  exact hfirst.2 p (by omega) ⟨hcode, by omega, hvcl⟩

/-- Behind a slice one has been seen. -/
theorem seenAfter_of_slice (h : NalBoundary buf q) {v : ℕ} (hv : VclAt buf v) (hlt : v < q)
    {out : List UInt8} (hcut : out.take q = buf.take q) (hzero : out.getD q 0 = 0) :
    seenAfter out false (scNals (buf.take q) 0) = true := by
  have hbuf := h.scNals_take.2
  have hmem := spanAt_mem_scNals (Nat.zero_le v) hv.1
  have hreach := h.reach v hlt
  rw [hbuf] at hmem
  rcases List.mem_append.mp hmem with hmem | hmem
  · rw [seenAfter, Bool.false_or, List.any_eq_true]
    refine ⟨spanAt buf v, hmem, ?_⟩
    rcases Nat.eq_or_lt_of_le hreach with hend | hin
    · -- an empty NAL unit: its header would be the first zero of what follows
      simp only [spanAt, hend, hzero]
      decide
    · simp only [spanAt]
      rw [getD_eq_of_take hin hcut]
      exact hv.2.2
  · -- behind the boundary every NAL unit starts later
    obtain ⟨s, hs, heq⟩ := List.mem_map.mp hmem
    have hpos := lt_of_mem_scNals hs
    have hstart := congrArg NalSpan.start heq
    simp only [NalSpan.shift, spanAt] at hstart
    omega

end Place

/-! ### Building, inserting, parsing -/

theorem FirstSlice.firstVcl_eq {buf : List UInt8} {pos : ℕ} (h : FirstSlice buf pos) :
    firstVcl buf 0 = some pos := by
  have hspec := firstVcl_spec buf 0
  cases hfirst : firstVcl buf 0 with
  | none =>
    rw [hfirst] at hspec
    exact absurd h.1 (hspec pos (Nat.zero_le pos))
  | some p =>
    rw [hfirst] at hspec
    obtain ⟨-, hv, hbefore⟩ := hspec
    rcases Nat.lt_trichotomy p pos with hlt | rfl | hgt
    · exact absurd hv (h.2 p hlt)
    · rfl
    · exact absurd h.1 (hbefore pos (Nat.zero_le pos) hgt)

/-- The memory move and copy make room for the SEI and put it there. -/
theorem overwrite_overwrite {mem sei : List UInt8} {len pos : ℕ} (hpos : pos ≤ len)
    (hlen : len + sei.length ≤ mem.length) :
    overwrite (overwrite mem (pos + sei.length) ((mem.take len).drop pos)) pos sei =
      insertAt (mem.take len) pos sei ++ mem.drop (len + sei.length) := by
  have htail : ((mem.take len).drop pos).length = len - pos := by
    rw [List.length_drop, List.length_take, Nat.min_eq_left (by omega)]
  have hmoved : overwrite mem (pos + sei.length) ((mem.take len).drop pos) =
      mem.take (pos + sei.length) ++ ((mem.take len).drop pos ++ mem.drop (len + sei.length)) := by
    have hend : pos + sei.length + (len - pos) = len + sei.length := by omega
    rw [overwrite, htail, hend, List.append_assoc]
  have hfront : (mem.take (pos + sei.length)).length = pos + sei.length := by
    rw [List.length_take, Nat.min_eq_left (by omega)]
  rw [hmoved, overwrite, List.drop_left' hfront, List.take_append_of_le_length (by omega),
    List.take_take, Nat.min_eq_left (Nat.le_add_right _ _), insertAt, List.take_take,
    Nat.min_eq_left hpos]
  simp only [List.append_assoc]

/-- In memory the SEI goes where it goes in the access unit, as long as the lengths stay
below `2 ^ 32`. -/
theorem timingSeiInsertInPlace_eq {mem : List UInt8} {len cap : ℕ} {sei : List UInt8}
    (hcap : cap ≤ mem.length) (hlen : len ≤ mem.length) (hsum : len + sei.length < 2 ^ 32) :
    timingSeiInsertInPlace mem len cap sei =
      match timingSeiInsert (mem.take len) cap sei with
      | none => (-1, mem, len)
      | some out => (0, out ++ mem.drop (len + sei.length), len + sei.length) := by
  have hbuf : (mem.take len).length = len := by rw [List.length_take, Nat.min_eq_left hlen]
  have hspec := firstVcl_spec (mem.take len) 0
  rw [timingSeiInsertInPlace, timingSeiInsert, Nat.mod_eq_of_lt hsum, hbuf]
  split_ifs with hroom
  · rfl
  · cases hfirst : firstVcl (mem.take len) 0 with
    | none => rfl
    | some pos =>
      rw [hfirst] at hspec
      have hlt := two_lt_of_codeAt hspec.2.1.1
      have hmove := @overwrite_overwrite mem sei len pos (by omega) (by omega)
      simp only [hmove, Option.map_some]
      rfl

/-- What a built SEI looks like. -/
structure WellBuilt (nal : List UInt8) : Prop where
  length_le : nal.length ≤ timingSeiNalMax
  code : nal.take 4 = StartCode.long.bytes
  free : ∀ x ≤ 2, ¬ [0, 0, x] <:+: nal.drop 4
  last_ne : nal.getLast? ≠ some 0

theorem wellBuilt_buildNal (t : TimingSeiV1) {type : UInt8} (htype : type <<< (1 : UInt8) ≠ 0) :
    WellBuilt (buildNal t type) where
  length_le := length_buildNal_le t type
  code := rfl
  free := fun _ hx => not_infix_seiBody t htype hx
  last_ne := by
    rw [buildNal_eq, List.getLast?_append, getLast?_seiBody]
    decide

/-- With room the prefix SEI goes in front of the first slice, and is found there. -/
theorem parse_insertInPlace {t : TimingSeiV1} (hversion : t.version = timingSeiVersion)
    {mem : List UInt8} {len cap pos : ℕ} (hcap : cap ≤ mem.length) (hmax : cap < 2 ^ 32)
    (hroom : len + (timingSeiBuild t).length ≤ cap) (hfirst : FirstSlice (mem.take len) pos)
    (hnone : timingSeiParse ((mem.take len).take pos) = none) :
    ∃ mem', timingSeiInsertInPlace mem len cap (timingSeiBuild t) =
        (0, mem', len + (timingSeiBuild t).length) ∧
      mem' = insertAt (mem.take len) pos (timingSeiBuild t) ++
        mem.drop (len + (timingSeiBuild t).length) ∧
      timingSeiParse (mem'.take (len + (timingSeiBuild t).length)) = some t := by
  have hbuf : (mem.take len).length = len := by rw [List.length_take, Nat.min_eq_left (by omega)]
  have hboundary := nalBoundary_of_first hfirst.1 hfirst.2
  have hinsert : timingSeiInsert (mem.take len) cap (timingSeiBuild t) =
      some (insertAt (mem.take len) pos (timingSeiBuild t)) := by
    rw [timingSeiInsert, if_neg (by omega), hfirst.firstVcl_eq]
    rfl
  have hlen : (insertAt (mem.take len) pos (timingSeiBuild t)).length =
      len + (timingSeiBuild t).length := by
    have hle := hboundary.le
    simp only [insertAt, List.length_append, List.length_drop, List.length_take] at *
    omega
  have hplace := timingSeiInsertInPlace_eq hcap (by omega) (lt_of_le_of_lt hroom hmax)
  rw [hinsert] at hplace
  refine ⟨_, hplace, rfl, ?_⟩
  rw [List.take_left' hlen]
  refine hboundary.parse_insertAt hversion (by decide) (by decide) hnone ?_
  have hseen := seenAfter_of_first hfirst (take_insertAt hboundary.le (timingSeiBuild t))
  rw [timingSeiBuild] at hseen
  rw [hseen]
  rfl

/-- The suffix SEI is found at any boundary behind a slice. -/
theorem parse_insertSuffix {t : TimingSeiV1} (hversion : t.version = timingSeiVersion)
    {buf : List UInt8} {q : ℕ} (hboundary : NalBoundary buf q) (hslice : ∃ v < q, VclAt buf v)
    (hnone : timingSeiParse (buf.take q) = none) :
    timingSeiParse (insertAt buf q (timingSeiBuildSuffix t)) = some t := by
  obtain ⟨v, hlt, hv⟩ := hslice
  refine hboundary.parse_insertAt hversion (by decide) (by decide) hnone ?_
  have hseen := seenAfter_of_slice hboundary hv hlt
    (take_insertAt hboundary.le (timingSeiBuildSuffix t)) (getD_insertAt hboundary.le 0 _)
  rw [timingSeiBuildSuffix] at hseen
  rw [hseen]
  rfl

/-- Nothing is changed when there is no room, or no slice. -/
theorem insertInPlace_refused (mem : List UInt8) (len cap : ℕ) (sei : List UInt8) :
    ((cap < (len + sei.length) % 2 ^ 32 ∨ ∀ p, ¬ VclAt (mem.take len) p) →
      (timingSeiInsertInPlace mem len cap sei).1 = -1) ∧
    ((timingSeiInsertInPlace mem len cap sei).1 = -1 →
      (timingSeiInsertInPlace mem len cap sei).2 = (mem, len)) := by
  rw [timingSeiInsertInPlace]
  split_ifs with hroom
  · exact ⟨fun _ => rfl, fun _ => rfl⟩
  · cases hfirst : firstVcl (mem.take len) 0 with
    | none => exact ⟨fun _ => rfl, fun _ => rfl⟩
    | some pos =>
      have hspec := firstVcl_spec (mem.take len) 0
      rw [hfirst] at hspec
      refine ⟨?_, fun h => absurd (show (0 : ℤ) = -1 from h) (by decide)⟩
      rintro (hno | hno)
      · exact absurd hno hroom
      · exact absurd hspec.2.1 (hno pos)

/-- **Build, insert and parse are inverse.** The built NAL units are short enough, free of
start codes and do not end in zero. With room, `timing_sei_insert` puts the prefix SEI right
ahead of the first slice, moves what follows and leaves the rest of the memory, and the
parser then finds the struct it was built from, unless it finds an earlier timing SEI; the
same holds of a suffix SEI at any boundary behind a slice. Where `timing_sei_insert` returns
-1, for want of room or of a slice, memory and length are as before. -/
theorem timing_sei_inverse {t : TimingSeiV1} (hversion : t.version = timingSeiVersion) :
    WellBuilt (timingSeiBuild t) ∧ WellBuilt (timingSeiBuildSuffix t) ∧
    (∀ (mem : List UInt8) (len cap pos : ℕ), cap ≤ mem.length → cap < 2 ^ 32 →
      len + (timingSeiBuild t).length ≤ cap → FirstSlice (mem.take len) pos →
      timingSeiParse ((mem.take len).take pos) = none →
      ∃ mem', timingSeiInsertInPlace mem len cap (timingSeiBuild t) =
          (0, mem', len + (timingSeiBuild t).length) ∧
        mem' = insertAt (mem.take len) pos (timingSeiBuild t) ++
          mem.drop (len + (timingSeiBuild t).length) ∧
        timingSeiParse (mem'.take (len + (timingSeiBuild t).length)) = some t) ∧
    (∀ (buf : List UInt8) (q : ℕ), NalBoundary buf q → (∃ v < q, VclAt buf v) →
      timingSeiParse (buf.take q) = none →
      timingSeiParse (insertAt buf q (timingSeiBuildSuffix t)) = some t) ∧
    ∀ (mem : List UInt8) (len cap : ℕ) (sei : List UInt8),
      ((cap < (len + sei.length) % 2 ^ 32 ∨ ∀ p, ¬ VclAt (mem.take len) p) →
        (timingSeiInsertInPlace mem len cap sei).1 = -1) ∧
      ((timingSeiInsertInPlace mem len cap sei).1 = -1 →
        (timingSeiInsertInPlace mem len cap sei).2 = (mem, len)) := by
  refine ⟨wellBuilt_buildNal t (by decide), wellBuilt_buildNal t (by decide), ?_, ?_, ?_⟩
  · intro mem len cap pos hcap hmax hroom hfirst hnone
    exact parse_insertInPlace hversion hcap hmax hroom hfirst hnone
  · intro buf q hboundary hslice hnone
    exact parse_insertSuffix hversion hboundary hslice hnone
  · exact insertInPlace_refused

/-- A slice of four bytes, in a buffer of 100. -/
def sliceMem : List UInt8 := [0, 0, 1, 0x26, 0x01, 0xAF, 0x80] ++ List.replicate 93 0

/-- Timing with runs of zeros in it. -/
def zeroTiming : TimingSeiV1 where
  version := timingSeiVersion
  flags := 0
  frameSeq := 0
  captureGroundUs := 0x0100000000000003
  rxDoneGroundUs := 2
  syncUncertaintyUs := 0
  encodeUs := 0
  framesLost := 1

theorem timing_sei_inverse_zeros :
    ∃ mem', timingSeiInsertInPlace sliceMem 7 100 (timingSeiBuild zeroTiming) =
        (0, mem', 7 + (timingSeiBuild zeroTiming).length) ∧
      timingSeiParse (mem'.take (7 + (timingSeiBuild zeroTiming).length)) = some zeroTiming := by
  have hlen : (timingSeiBuild zeroTiming).length ≤ 82 := by decide +kernel
  have hnone : timingSeiParse ((sliceMem.take 7).take 0) = none := by
    rw [List.take_zero, timingSeiParse, timingSeiParseFrom, findStartCode]
    rfl
  obtain ⟨mem', hins, -, hparse⟩ := (timing_sei_inverse (t := zeroTiming) rfl).2.2.1 sliceMem 7 100
    0 (by decide) (by decide) (by omega) ⟨by decide, by omega⟩ hnone
  exact ⟨mem', hins, hparse⟩

end Ar8030
