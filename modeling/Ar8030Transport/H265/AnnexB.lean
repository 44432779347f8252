import Mathlib.Data.List.GetD
import Mathlib.Data.List.Infix
import Mathlib.Tactic.SplitIfs

/-!
# Annex-B streams

An H.265 access unit is a sequence of NAL units, each behind a start code `00 00 01` or
`00 00 00 01`. Two scanners walk it: `next_nal` in `rx/rtp_h265.c` (`nextNal`) and
`find_start_code` in `common/timing_sei.c` (`findStartCode`). Both try the same test at one
offset after another; the test is `codeAt`.

Offsets are 32-bit in the source and natural numbers here: they differ from `len` by at
most 4, and no buffer comes within 4 bytes of `2 ^ 32`.

`nextNal_unit` is what the scanner finds in front of a well-formed NAL unit, and
`collectNals_annexB` what it finds in a whole buffer of them.
-/

namespace Ar8030

/-- The length of the start code at offset `i`, or 0. -/
def codeAt (data : List UInt8) (i : ℕ) : ℕ :=
  if i + 2 < data.length ∧ data.getD i 0 = 0 ∧ data.getD (i + 1) 0 = 0 then
    if data.getD (i + 2) 0 = 1 then 3
    else if i + 3 < data.length ∧ data.getD (i + 2) 0 = 0 ∧ data.getD (i + 3) 0 = 1 then 4
    else 0
  else 0

/-! ### `next_nal` -/

/-- The first loop of `next_nal`: the offset behind the next start code. -/
def nalStart (data : List UInt8) (i : ℕ) : Option ℕ :=
  if i + 2 < data.length then
    if codeAt data i ≠ 0 then some (i + codeAt data i) else nalStart data (i + 1)
  else none
termination_by data.length - i

/-- The second loop of `next_nal`: where the NAL unit ends. -/
def nalEnd (data : List UInt8) (j : ℕ) : ℕ :=
  if j + 2 < data.length then
    if codeAt data j ≠ 0 then j else nalEnd data (j + 1)
  else data.length
termination_by data.length - j

/-- A NAL unit inside a buffer, start code excluded. -/
structure NalSpan where
  start : ℕ
  len : ℕ
  deriving DecidableEq, Repr

/-- Where the next search goes on. -/
def NalSpan.cursor (s : NalSpan) : ℕ := s.start + s.len

/-- The bytes of the NAL unit. -/
def NalSpan.bytes (s : NalSpan) (data : List UInt8) : List UInt8 := (data.drop s.start).take s.len

/-- `next_nal`. -/
def nextNal (data : List UInt8) (cursor : ℕ) : Option NalSpan :=
  match nalStart data cursor with
  | none => none
  | some start =>
    if nalEnd data start ≤ start then none else some ⟨start, nalEnd data start - start⟩

/-- The type in the first byte of a NAL unit. -/
def nalType (b : UInt8) : UInt8 := (b >>> 1) &&& 0x3F

/-- A NAL unit type of coded slices. -/
def isVcl (b : UInt8) : Bool := nalType b ≤ 31

/-! ### `find_start_code` -/

/-- `find_start_code`: the offset of the next start code and its length, or the length of
the buffer and 0. -/
def findStartCode (buf : List UInt8) (i : ℕ) : ℕ × ℕ :=
  if i + 2 < buf.length then
    if codeAt buf i ≠ 0 then (i, codeAt buf i) else findStartCode buf (i + 1)
  else (buf.length, 0)
termination_by buf.length - i

/-! ### Scanning a suffix -/

section Suffix

variable (pre l : List UInt8)

theorem codeAt_append (i : ℕ) : codeAt (pre ++ l) (pre.length + i) = codeAt l i := by
  have hget : ∀ k, (pre ++ l).getD (pre.length + i + k) 0 = l.getD (i + k) 0 := fun k => by
    rw [Nat.add_assoc, List.getD_append_right _ _ _ _ (by omega), Nat.add_sub_cancel_left]
  have hlen : ∀ k, pre.length + i + k < (pre ++ l).length ↔ i + k < l.length := fun k => by
    rw [List.length_append]
    omega
  have hget0 := hget 0
  rw [Nat.add_zero, Nat.add_zero] at hget0
  simp only [codeAt, hlen, hget, hget0]

theorem nalStart_append (i : ℕ) :
    nalStart (pre ++ l) (pre.length + i) = (nalStart l i).map (pre.length + ·) := by
  fun_induction nalStart l i with
  | case1 i hi hcode =>
    rw [nalStart, codeAt_append, if_pos (by rw [List.length_append]; omega), if_pos hcode]
    simp [Nat.add_assoc]
  | case2 i hi hcode ih =>
    rw [nalStart, codeAt_append, if_pos (by rw [List.length_append]; omega), if_neg hcode]
    exact ih
  | case3 i hi =>
    rw [nalStart, if_neg (by rw [List.length_append]; omega)]
    rfl

theorem nalEnd_append (j : ℕ) :
    nalEnd (pre ++ l) (pre.length + j) = pre.length + nalEnd l j := by
  fun_induction nalEnd l j with
  | case1 j hj hcode =>
    rw [nalEnd, codeAt_append, if_pos (by rw [List.length_append]; omega), if_pos hcode]
  | case2 j hj hcode ih =>
    rw [nalEnd, codeAt_append, if_pos (by rw [List.length_append]; omega), if_neg hcode]
    exact ih
  | case3 j hj =>
    rw [nalEnd, if_neg (by rw [List.length_append]; omega), List.length_append]

/-- The scanner does not look back. -/
theorem nextNal_append :
    nextNal (pre ++ l) pre.length =
      (nextNal l 0).map fun s => ⟨pre.length + s.start, s.len⟩ := by
  have hstart := nalStart_append pre l 0
  rw [Nat.add_zero] at hstart
  rw [nextNal, nextNal, hstart]
  cases nalStart l 0 with
  | none => rfl
  | some start =>
    simp only [Option.map_some, nalEnd_append]
    split_ifs with h1 h2 h2
    · rfl
    · omega
    · omega
    · rw [Option.map_some, Nat.add_sub_add_left]

end Suffix

/-! ### Well-formed NAL units -/

/-- A NAL unit that can be delimited by start codes: a two-byte header and no start code
inside or at its end. -/
structure NalUnit where
  bytes : List UInt8
  two_le_length : 2 ≤ bytes.length
  /-- `00 00 00 01` has `00 00 01` in it. -/
  no_code : ¬ [0, 0, 1] <:+: bytes
  last_ne : bytes.getLast? ≠ some 0

/-- The two start codes. -/
inductive StartCode where
  | short
  | long
  deriving DecidableEq, Repr

/-- The bytes of a start code. -/
def StartCode.bytes : StartCode → List UInt8
  | short => [0, 0, 1]
  | long => [0, 0, 0, 1]

/-- A buffer of NAL units, each behind its start code. -/
def annexB (units : List (StartCode × NalUnit)) : List UInt8 :=
  units.flatMap fun u => u.1.bytes ++ u.2.bytes

theorem codeAt_startCode (sc : StartCode) (l : List UInt8) :
    codeAt (sc.bytes ++ l) 0 = sc.bytes.length := by
  cases sc <;> simp [StartCode.bytes, codeAt]

theorem three_le_length_startCode (sc : StartCode) : 3 ≤ sc.bytes.length := by
  cases sc <;> decide

/-- What may follow a NAL unit: nothing, or a start code. -/
def EndsNal (rest : List UInt8) : Prop := rest = [] ∨ (codeAt rest 0 ≠ 0 ∧ 3 ≤ rest.length)

theorem endsNal_annexB (units : List (StartCode × NalUnit)) : EndsNal (annexB units) := by
  cases units with
  | nil => exact Or.inl rfl
  | cons u us =>
    right
    have hsc := three_le_length_startCode u.1
    rw [annexB, List.flatMap_cons, List.append_assoc, codeAt_startCode, List.length_append]
    omega

namespace NalUnit

variable (u : NalUnit)

/-- Three bytes `00 00 01` inside a list are an infix. -/
theorem infix_of_getElem {l : List UInt8} {i : ℕ} (hi : i + 2 < l.length) (h0 : l[i] = 0)
    (h1 : l[i + 1] = 0) (h2 : l[i + 2] = 1) : [0, 0, 1] <:+: l := by
  have hdrop : l.drop i = 0 :: 0 :: 1 :: l.drop (i + 3) := by
    rw [List.drop_eq_getElem_cons (by omega), List.drop_eq_getElem_cons (by omega),
      List.drop_eq_getElem_cons hi, h0, h1, h2]
  have hprefix : [0, 0, 1] <+: l.drop i := by
    rw [hdrop]
    exact ⟨l.drop (i + 3), rfl⟩
  exact hprefix.isInfix.trans (List.drop_suffix i l).isInfix

/-- No start code begins inside a NAL unit, whatever follows it. -/
theorem codeAt_eq_zero (rest : List UInt8) {j : ℕ} (hj : j < u.bytes.length) :
    codeAt (u.bytes ++ rest) j = 0 := by
  have hin : ∀ k, k < u.bytes.length → (u.bytes ++ rest).getD k 0 = u.bytes.getD k 0 :=
    fun k hk => List.getD_append _ _ _ _ hk
  have hlast : u.bytes.getD (u.bytes.length - 1) 0 ≠ 0 := by
    intro h
    apply u.last_ne
    rw [List.getLast?_eq_getElem?, List.getElem?_eq_getElem (by omega)]
    rw [List.getD_eq_getElem _ _ (by omega)] at h
    rw [h]
  have hcode : ∀ k, k + 2 < u.bytes.length → u.bytes.getD k 0 = 0 → u.bytes.getD (k + 1) 0 = 0 →
      u.bytes.getD (k + 2) 0 ≠ 1 := by
    intro k hk h0 h1 h2
    rw [List.getD_eq_getElem _ _ (by omega)] at h0 h1 h2
    exact u.no_code (infix_of_getElem hk h0 h1 h2)
  have hzero : ∀ k, k + 1 = u.bytes.length → (u.bytes ++ rest).getD k 0 ≠ 0 := by
    intro k hk h
    rw [hin k (by omega)] at h
    exact hlast (by rwa [← hk, Nat.add_sub_cancel])
  rw [codeAt]
  split_ifs with hzeros h3 h4
  · -- `00 00 01` inside, or the last byte is one of the zeros
    obtain ⟨-, h0, h1⟩ := hzeros
    by_cases hj2 : j + 2 < u.bytes.length
    · rw [hin j (by omega)] at h0
      rw [hin (j + 1) (by omega)] at h1
      rw [hin (j + 2) hj2] at h3
      exact absurd h3 (hcode j hj2 h0 h1)
    · by_cases hj1 : j + 1 = u.bytes.length
      · exact absurd h0 (hzero j hj1)
      · exact absurd h1 (hzero (j + 1) (by omega))
  · -- the same for `00 00 00 01`
    obtain ⟨-, h0, h1⟩ := hzeros
    obtain ⟨-, h2, h3'⟩ := h4
    by_cases hj3 : j + 3 < u.bytes.length
    · rw [hin (j + 1) (by omega)] at h1
      rw [hin (j + 2) (by omega)] at h2
      rw [hin (j + 3) hj3] at h3'
      exact absurd h3' (hcode (j + 1) hj3 h1 h2)
    · by_cases hj1 : j + 1 = u.bytes.length
      · exact absurd h0 (hzero j hj1)
      by_cases hj2 : j + 2 = u.bytes.length
      · exact absurd h1 (hzero (j + 1) hj2)
      · exact absurd h2 (hzero (j + 2) (by omega))
  · rfl
  · rfl

/-- The scanner runs to the end of the NAL unit. -/
theorem nalEnd_eq {rest : List UInt8} (hrest : EndsNal rest) {j : ℕ} (hj : j ≤ u.bytes.length) :
    nalEnd (u.bytes ++ rest) j = u.bytes.length := by
  induction hn : u.bytes.length - j generalizing j with
  | zero =>
    obtain rfl : j = u.bytes.length := by omega
    have hend := nalEnd_append u.bytes rest 0
    rw [Nat.add_zero] at hend
    rw [hend]
    rcases hrest with rfl | ⟨hcode, hlen⟩
    · rw [nalEnd, if_neg (by simp)]
      rfl
    · rw [nalEnd, if_pos (by omega), if_pos hcode, Nat.add_zero]
  | succ n ih =>
    rw [nalEnd, u.codeAt_eq_zero rest (by omega), List.length_append]
    split_ifs with hmore h0
    · exact absurd rfl h0
    · exact ih (by omega) (by omega)
    · -- too short for a start code to follow
      rcases hrest with rfl | ⟨-, hlen⟩
      · simp
      · omega

end NalUnit

/-- **One NAL unit**: the scanner finds it behind its start code. -/
theorem nextNal_unit (sc : StartCode) (u : NalUnit) {rest : List UInt8} (hrest : EndsNal rest) :
    nextNal (sc.bytes ++ u.bytes ++ rest) 0 = some ⟨sc.bytes.length, u.bytes.length⟩ := by
  have hsc := three_le_length_startCode sc
  have hu := u.two_le_length
  have hcode := codeAt_startCode sc (u.bytes ++ rest)
  have hend := nalEnd_append sc.bytes (u.bytes ++ rest) 0
  rw [Nat.add_zero, u.nalEnd_eq hrest (Nat.zero_le _)] at hend
  have hstart : nalStart (sc.bytes ++ (u.bytes ++ rest)) 0 = some sc.bytes.length := by
    rw [nalStart, hcode, if_pos (by rw [List.length_append]; omega), if_pos (by omega),
      Nat.zero_add]
  rw [List.append_assoc, nextNal, hstart]
  simp only [hend]
  rw [if_neg (by omega), Nat.add_sub_cancel_left]

/-! ### All NAL units of a buffer -/

/-- The table of `rtp_h265_send_nals`: at most `n` NAL units from the cursor on. -/
def collectNals (data : List UInt8) : ℕ → ℕ → List NalSpan
  | 0, _ => []
  | n + 1, cursor =>
    match nextNal data cursor with
    | none => []
    | some s => s :: collectNals data n s.cursor

/-- The scanner finds nothing behind the last NAL unit. -/
theorem nextNal_nil : nextNal [] 0 = none := by
  rw [nextNal, nalStart]
  rfl

/-- **The NAL units of a buffer** are found in order, as many as the table holds. -/
theorem collectNals_annexB (pre : List UInt8) (units : List (StartCode × NalUnit)) {n : ℕ}
    (hn : units.length ≤ n) :
    (collectNals (pre ++ annexB units) n pre.length).map
      (fun s => s.bytes (pre ++ annexB units)) = units.map fun u => u.2.bytes := by
  induction units generalizing pre n with
  | nil =>
    cases n with
    | zero => rfl
    | succ n =>
      rw [collectNals, nextNal_append, show annexB [] = [] from rfl, nextNal_nil]
      rfl
  | cons u us ih =>
    obtain ⟨n, rfl⟩ : ∃ m, n = m + 1 := ⟨n - 1, by simp at hn; omega⟩
    have hcons : annexB (u :: us) = u.1.bytes ++ u.2.bytes ++ annexB us := List.flatMap_cons
    have hnext := nextNal_unit u.1 u.2 (endsNal_annexB us)
    have hcursor : (⟨pre.length + u.1.bytes.length, u.2.bytes.length⟩ : NalSpan).cursor =
        (pre ++ (u.1.bytes ++ u.2.bytes)).length := by
      simp [NalSpan.cursor, Nat.add_assoc]
    have hbytes : NalSpan.bytes ⟨pre.length + u.1.bytes.length, u.2.bytes.length⟩
        (pre ++ (u.1.bytes ++ u.2.bytes ++ annexB us)) = u.2.bytes := by
      rw [NalSpan.bytes, ← List.length_append, ← List.append_assoc, ← List.append_assoc,
        List.append_assoc (pre ++ u.1.bytes), List.drop_left, List.take_left]
    rw [collectNals, nextNal_append, hcons, hnext]
    simp only [Option.map_some, List.map_cons, hbytes, hcursor]
    rw [← List.append_assoc pre, ih (pre ++ (u.1.bytes ++ u.2.bytes)) (by simpa using hn)]

/-! ### Looking for a slice -/

theorem lt_of_nalStart {data : List UInt8} {i start : ℕ} (h : nalStart data i = some start) :
    i < start := by
  fun_induction nalStart data i with
  | case1 i hi hcode =>
    obtain rfl := Option.some.inj h
    omega
  | case2 i hi hcode ih => exact Nat.lt_of_succ_lt (ih h)
  | case3 i hi => simp at h

theorem nalEnd_le {data : List UInt8} (j : ℕ) : nalEnd data j ≤ data.length := by
  fun_induction nalEnd data j with
  | case1 j hj hcode => omega
  | case2 j hj hcode ih => exact ih
  | case3 j hj => exact le_rfl

/-- Every NAL unit found moves the cursor on, and stays inside the buffer. -/
theorem cursor_of_nextNal {data : List UInt8} {cursor : ℕ} {s : NalSpan}
    (h : nextNal data cursor = some s) : cursor < s.cursor ∧ s.cursor ≤ data.length := by
  rw [nextNal] at h
  split at h
  · simp at h
  · rename_i start hstart
    have hlt := lt_of_nalStart hstart
    have hle := @nalEnd_le data start
    split_ifs at h with hend
    obtain rfl := Option.some.inj h
    simp only [NalSpan.cursor]
    omega

/-- The loop of `rtp_h265_has_vcl`. -/
def hasVclFrom (data : List UInt8) (cursor : ℕ) : Bool :=
  match h : nextNal data cursor with
  | none => false
  | some s =>
    if isVcl (data.getD s.start 0) then true
    else
      have := cursor_of_nextNal h
      hasVclFrom data s.cursor
termination_by data.length - cursor

/-- `rtp_h265_has_vcl`. -/
def hasVcl (data : List UInt8) : Bool := hasVclFrom data 0

end Ar8030
