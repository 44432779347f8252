import Ar8030Transport.Library.GreedyParser
import Ar8030Transport.Library.Search
import Ar8030Transport.Wire.ChunkStream

/-!
# The resyncing reader refines a whole-stream parser

Three views of the same byte stream, each connected to the next:

* `refParse` is the reference: find the first magic, take the chunk behind it if its
  checksum matches, else go on behind the magic.
* `chunkParser` is a greedy parser that looks at no more than the front of the buffer and
  drops junk one byte at a time. Its steps do not depend on what follows, so it is
  indifferent to fragmentation (`GreedyParser.events_append`).
* `ChunkStream.read` is the code, with its bulk scan and its sliding buffer.

`Tracks got evs s` is the invariant of the code: whatever bytes still follow, the parser
run on everything read so far emits the events `evs` the reader has already acted on and
then behaves as on the reader's buffer. Every turn of the loop keeps it, and where the
reader waits the parser waits too.
-/

namespace Ar8030

open Search

/-! ### The greedy parser -/

/-- What one step of the byte-level parser comes to. -/
inductive ScanEvent where
  /-- One byte of junk dropped. -/
  | junk
  /-- A magic dropped because the checksum behind it failed. -/
  | fail
  /-- A chunk taken. -/
  | chunk (hdr : ChunkHdr) (payload : List UInt8)
  deriving DecidableEq, Repr

/-- One step: a chunk or a failed magic at the front, else one byte of junk; wait while the
front is still undecided. -/
def scanStep (l : List UInt8) : Option (ScanEvent × List UInt8) :=
  if l.length < 4 then none
  else if l.take 4 = magicBytes then
    if chunkHdrSize ≤ l.length ∧ frontNeed l ≤ l.length then
      if crc16 (frontPayload l) = (frontHdr l).checksum then
        some (.chunk (frontHdr l) (frontPayload l), l.drop (frontNeed l))
      else some (.fail, l.drop 4)
    else none
  else some (.junk, l.drop 1)

/-- A complete header at the front does not depend on what follows. -/
theorem frontHdr_append {l : List UInt8} (m : List UInt8) (h : chunkHdrSize ≤ l.length) :
    frontHdr (l ++ m) = frontHdr l := by
  have hfield : ∀ off n, off + n ≤ chunkHdrSize → fieldAt off n (l ++ m) = fieldAt off n l := by
    intro off n hoff
    rw [fieldAt, fieldAt, List.drop_append_of_le_length (by omega),
      List.take_append_of_le_length (by rw [List.length_drop]; omega)]
  simp only [chunkHdrSize] at hfield
  simp [frontHdr, ChunkHdr.ofBytes, hfield]

theorem frontNeed_append {l : List UInt8} (m : List UInt8) (h : chunkHdrSize ≤ l.length) :
    frontNeed (l ++ m) = frontNeed l := by
  rw [frontNeed, frontNeed, frontHdr_append m h]

theorem frontPayload_append {l : List UInt8} (m : List UInt8) (h : chunkHdrSize ≤ l.length)
    (hneed : frontNeed l ≤ l.length) : frontPayload (l ++ m) = frontPayload l := by
  rw [frontNeed] at hneed
  rw [frontPayload, frontPayload, frontHdr_append m h, List.drop_append_of_le_length h,
    List.take_append_of_le_length (by rw [List.length_drop]; omega)]

theorem chunkHdrSize_le_frontNeed (l : List UInt8) : chunkHdrSize ≤ frontNeed l :=
  Nat.le_add_right _ _

/-- The byte-level parser of the chunk stream. -/
def chunkParser : GreedyParser UInt8 ScanEvent where
  step := scanStep
  length_lt := by
    intro l o r h
    rw [scanStep] at h
    split_ifs at h with h4 hmagic hfront
    all_goals
      simp only [Option.some.injEq, Prod.mk.injEq] at h
      obtain ⟨-, rfl⟩ := h
    · have hsize : 0 < chunkHdrSize := by decide
      have := chunkHdrSize_le_frontNeed l
      simp only [List.length_drop]
      omega
    · simp only [List.length_drop]
      omega
    · simp only [List.length_drop]
      omega
  step_append := by
    intro l o r m h
    rw [scanStep] at h
    split_ifs at h with h4 hmagic hfront hcrc
    all_goals
      simp only [Option.some.injEq, Prod.mk.injEq] at h
      obtain ⟨rfl, rfl⟩ := h
      have htake : (l ++ m).take 4 = l.take 4 := List.take_append_of_le_length (by omega)
      have hlong : ¬ (l ++ m).length < 4 := by rw [List.length_append]; omega
      rw [scanStep, if_neg hlong, htake]
    · obtain ⟨hhdr, hneed⟩ := hfront
      have hfront' : chunkHdrSize ≤ (l ++ m).length ∧ frontNeed (l ++ m) ≤ (l ++ m).length := by
        rw [frontNeed_append m hhdr, List.length_append]
        omega
      rw [if_pos hmagic, if_pos hfront', frontPayload_append m hhdr hneed, frontHdr_append m hhdr,
        if_pos hcrc, frontNeed_append m hhdr, List.drop_append_of_le_length hneed]
    · obtain ⟨hhdr, hneed⟩ := hfront
      have hfront' : chunkHdrSize ≤ (l ++ m).length ∧ frontNeed (l ++ m) ≤ (l ++ m).length := by
        rw [frontNeed_append m hhdr, List.length_append]
        omega
      rw [if_pos hmagic, if_pos hfront', frontPayload_append m hhdr hneed, frontHdr_append m hhdr,
        if_neg hcrc, List.drop_append_of_le_length (by omega)]
    · rw [if_neg hmagic, List.drop_append_of_le_length (by omega)]

theorem step_chunkParser (l : List UInt8) : chunkParser.step l = scanStep l := rfl

/-! ### The bulk scan -/

/-- `magicBytes` stands at the front exactly when the first four bytes are the magic. -/
theorem magicBytes_prefix_iff {l : List UInt8} : magicBytes <+: l ↔ l.take 4 = magicBytes := by
  rw [List.prefix_iff_eq_take, length_magicBytes, eq_comm]

/-- No magic starts at a byte other than its first. -/
theorem not_magicBytes_isPrefix {l : List UInt8} (h : l.head? ≠ some (magicBytes.headD 0)) :
    ¬ magicBytes <+: l := by
  rintro ⟨t, rfl⟩
  exact h rfl

/-- `memchr` skips bytes that cannot start a magic. -/
theorem not_prefix_of_memchr_some {l : List UInt8} {n p : ℕ}
    (h : memchr l (magicBytes.headD 0) n = some p) {i : ℕ} (hi : i < p) :
    ¬ magicBytes <+: l.drop i := by
  apply not_magicBytes_isPrefix
  rw [List.head?_drop]
  intro hget
  rw [memchr, List.findIdx?_eq_some_iff_getElem] at h
  obtain ⟨hlt, -, hbefore⟩ := h
  have hlen : i < (l.take n).length := hi.trans hlt
  obtain ⟨hil, hval⟩ := List.getElem?_eq_some_iff.mp hget
  exact hbefore i hi (by rw [List.getElem_take]; simpa using hval)

/-- `memchr` finding nothing rules out a magic in the whole stretch. -/
theorem not_prefix_of_memchr_none {l : List UInt8} (h : memchr l (magicBytes.headD 0)
    (l.length - 3) = none) (i : ℕ) : ¬ magicBytes <+: l.drop i := by
  intro hpre
  have hlen := hpre.length_le
  rw [length_magicBytes, List.length_drop] at hlen
  rw [memchr, List.findIdx?_eq_none_iff] at h
  have hi : i < (l.take (l.length - 3)).length := by rw [List.length_take]; omega
  have hne := h _ (List.getElem_mem hi)
  apply not_magicBytes_isPrefix _ hpre
  rw [List.head?_drop, List.getElem?_eq_getElem (by omega)]
  rw [List.getElem_take] at hne
  simpa using hne

/-- Where the loop of the scan ends up, from an offset in front of which no magic starts. -/
theorem scanLoop_eq (buf : List UInt8) (i : ℕ) (hi : i ≤ buf.length) :
    scanLoop buf i =
      match firstOcc magicBytes (buf.drop i) with
      | some p => i + p
      | none => buf.length - 3 := by
  fun_induction scanLoop buf i with
  | case1 i h4 hchr h3 =>
    have hlen : buf.length - i - 3 = (buf.drop i).length - 3 := by rw [List.length_drop]
    rw [hlen] at hchr
    rw [firstOcc_eq_none (not_prefix_of_memchr_none hchr)]
  | case2 i h4 hchr h3 => omega
  | case3 i h4 p hchr hmagic =>
    -- the first byte found begins a magic
    have hpre : magicBytes <+: (buf.drop i).drop p := by
      rwa [List.drop_drop, magicBytes_prefix_iff]
    have hp : p ≤ (buf.drop i).length := by
      have := hpre.length_le
      rw [length_magicBytes, List.length_drop] at this
      omega
    rw [firstOcc_drop hp fun j hj => not_prefix_of_memchr_some hchr hj, firstOcc_of_isPrefix hpre]
    simp
  | case4 i h4 p hchr hmagic ih =>
    -- the first byte found does not, and the search goes on behind it
    have hp : p < buf.length - i - 3 := by
      rw [memchr, List.findIdx?_eq_some_iff_getElem] at hchr
      obtain ⟨hlt, -⟩ := hchr
      rw [List.length_take, List.length_drop] at hlt
      omega
    have hskip : ∀ j < p + 1, ¬ magicBytes <+: (buf.drop i).drop j := by
      intro j hj
      rcases Nat.lt_succ_iff_lt_or_eq.mp hj with hlt | rfl
      · exact not_prefix_of_memchr_some hchr hlt
      · rwa [List.drop_drop, magicBytes_prefix_iff]
    rw [ih (by omega), firstOcc_drop (n := p + 1) (by rw [List.length_drop]; omega) hskip,
      List.drop_drop, ← Nat.add_assoc]
    cases firstOcc magicBytes (buf.drop (i + p + 1)) with
    | none => rfl
    | some q =>
      show i + p + 1 + q = i + (q + (p + 1))
      omega
  | case5 i h4 h3 =>
    rw [firstOcc_eq_none_of_length_lt (by rw [List.length_drop, length_magicBytes]; omega)]
  | case6 i h4 h3 =>
    rw [firstOcc_eq_none_of_length_lt (by rw [List.length_drop, length_magicBytes]; omega)]
    simp only
    omega

/-- What `scan_for_magic` computes: the offset of the first magic, or everything but the
last three bytes. -/
theorem scanForMagic_eq (buf : List UInt8) :
    scanForMagic buf = (firstOcc magicBytes buf).getD (buf.length - 3) := by
  rw [scanForMagic, scanLoop_eq buf 0 (Nat.zero_le _), List.drop_zero]
  cases firstOcc magicBytes buf <;> simp

/-- Every byte the scan drops has a full magic's length behind it and starts no magic. -/
theorem scanForMagic_spec {buf : List UInt8} {i : ℕ} (h4 : 4 ≤ buf.length)
    (hi : i < scanForMagic buf) : i + 4 ≤ buf.length ∧ ¬ magicBytes <+: buf.drop i := by
  rw [scanForMagic_eq] at hi
  cases hocc : firstOcc magicBytes buf with
  | none =>
    rw [hocc, Option.getD_none] at hi
    exact ⟨by omega, not_prefix_drop_of_firstOcc_none hocc i⟩
  | some p =>
    rw [hocc, Option.getD_some] at hi
    have hlen := (prefix_drop_of_firstOcc hocc).length_le
    rw [length_magicBytes, List.length_drop] at hlen
    exact ⟨by omega, not_prefix_drop_of_lt_firstOcc hocc hi⟩

/-- Behind the scan stands a magic, or fewer bytes than one. -/
theorem take_drop_scanForMagic (buf : List UInt8) :
    (buf.drop (scanForMagic buf)).take 4 = magicBytes ∨
      (buf.drop (scanForMagic buf)).length < 4 := by
  rw [scanForMagic_eq]
  cases hocc : firstOcc magicBytes buf with
  | none =>
    right
    rw [Option.getD_none, List.length_drop]
    omega
  | some p => exact .inl (magicBytes_prefix_iff.mp (prefix_drop_of_firstOcc hocc))

end Ar8030
