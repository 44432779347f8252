import Ar8030Transport.H265.SeiNal

/-!
# The NAL units of a buffer

What the two scanners find in a buffer with any bytes in it. `scNals` are the NAL units
`find_start_code` delimits, from the end of one start code to the next or to the end of the
buffer; `visitNals` are the ones `next_nal` visits. `next_nal` takes an empty NAL unit for
the end, so it visits what `scNals` has in front of the first empty one.

`scNals_insert` says what becomes of the NAL units when one is put in at a boundary.
-/

namespace Ar8030

/-! ### Both scans -/

/-- The NAL units `find_start_code` delimits from `i` on. -/
def scNals (buf : List UInt8) (i : ℕ) : List NalSpan :=
  if (findStartCode buf i).1 < buf.length then
    ⟨(findStartCode buf i).1 + (findStartCode buf i).2,
      (findStartCode buf ((findStartCode buf i).1 + (findStartCode buf i).2)).1 -
        ((findStartCode buf i).1 + (findStartCode buf i).2)⟩ ::
      scNals buf ((findStartCode buf i).1 + (findStartCode buf i).2)
  else []
termination_by buf.length - i
decreasing_by
  rename_i hin
  rcases findStartCode_spec buf i with ⟨heq, -⟩ | ⟨hle, hlt, -, hpos, -⟩
  · rw [heq] at hin
    exact absurd hin (lt_irrefl _)
  · omega

/-- The NAL units `next_nal` visits from the cursor on. -/
def visitNals (data : List UInt8) (cursor : ℕ) : List NalSpan :=
  match h : nextNal data cursor with
  | none => []
  | some s =>
    have := cursor_of_nextNal h
    s :: visitNals data s.cursor
termination_by data.length - cursor

/-! ### The next start code -/

section Scan

variable {buf : List UInt8} {i j p pos : ℕ}

/-- No start code from `i` on. -/
def NoCode (buf : List UInt8) (i : ℕ) : Prop := ∀ p, i ≤ p → codeAt buf p = 0

/-- The first start code from `i` on is at `pos`. -/
structure FirstCode (buf : List UInt8) (i pos : ℕ) : Prop where
  le : i ≤ pos
  code : codeAt buf pos ≠ 0
  before : ∀ p, i ≤ p → p < pos → codeAt buf p = 0

theorem codeAt_add_le (h : codeAt buf p ≠ 0) : p + codeAt buf p ≤ buf.length := by
  rw [codeAt] at h ⊢
  split_ifs at h ⊢ <;> omega

theorem two_lt_of_codeAt (h : codeAt buf p ≠ 0) : p + 2 < buf.length := by
  by_contra hge
  exact h (by rw [codeAt, if_neg (by omega)])

theorem three_le_codeAt (h : codeAt buf p ≠ 0) : 3 ≤ codeAt buf p := by
  obtain ⟨-, -, ⟨heq, -⟩ | ⟨heq, -⟩⟩ := bytes_of_codeAt h
  all_goals omega

theorem noCode_or_firstCode (buf : List UInt8) (i : ℕ) :
    NoCode buf i ∨ ∃ pos, FirstCode buf i pos := by
  rcases findStartCode_spec buf i with ⟨-, hnone⟩ | ⟨hle, -, hlen, hpos, hnone⟩
  · exact .inl hnone
  · exact .inr ⟨_, hle, by omega, hnone⟩

theorem NoCode.findStartCode (h : NoCode buf i) : findStartCode buf i = (buf.length, 0) := by
  rcases findStartCode_spec buf i with ⟨heq, -⟩ | ⟨hle, -, hlen, hpos, -⟩
  · exact heq
  · have hzero := h _ hle
    omega

theorem FirstCode.findStartCode (h : FirstCode buf i pos) :
    findStartCode buf i = (pos, codeAt buf pos) := by
  rcases findStartCode_spec buf i with ⟨-, hnone⟩ | ⟨hle, -, hlen, hpos, hnone⟩
  · exact absurd (hnone pos h.le) h.code
  · have hsame : (Ar8030.findStartCode buf i).1 = pos := by
      rcases Nat.lt_trichotomy (Ar8030.findStartCode buf i).1 pos with hlt | heq | hgt
      · have hzero := h.before _ hle hlt
        omega
      · exact heq
      · exact absurd (hnone pos h.le hgt) h.code
    exact Prod.ext hsame (by rw [hlen, hsame])

/-- Scanning goes from one start code to the next. -/
theorem scan_induction (buf : List UInt8) {motive : ℕ → Prop}
    (none : ∀ i, NoCode buf i → motive i)
    (code : ∀ i pos, FirstCode buf i pos → motive (pos + codeAt buf pos) → motive i) (i : ℕ) :
    motive i := by
  induction hn : buf.length - i using Nat.strong_induction_on generalizing i with
  | _ n ih =>
    rcases noCode_or_firstCode buf i with hnone | ⟨pos, hfirst⟩
    · exact none i hnone
    · have hlt := two_lt_of_codeAt hfirst.code
      have h3 := three_le_codeAt hfirst.code
      have hle := hfirst.le
      exact code i pos hfirst (ih _ (by omega) _ rfl)

/-- Nothing is lost by starting behind a stretch without a start code. -/
theorem findStartCode_skip (hle : i ≤ j) (h : ∀ p, i ≤ p → p < j → codeAt buf p = 0) :
    findStartCode buf i = findStartCode buf j := by
  rcases noCode_or_firstCode buf j with hnone | ⟨pos, hfirst⟩
  · have hnone' : NoCode buf i := by
      intro p hp
      rcases Nat.lt_or_ge p j with hlt | hge
      · exact h p hp hlt
      · exact hnone p hge
    rw [hnone.findStartCode, hnone'.findStartCode]
  · have hfirst' : FirstCode buf i pos := by
      refine ⟨hle.trans hfirst.le, hfirst.code, fun p hp hlt => ?_⟩
      rcases Nat.lt_or_ge p j with hlt' | hge
      · exact h p hp hlt'
      · exact hfirst.before p hge hlt
    rw [hfirst.findStartCode, hfirst'.findStartCode]

/-! ### The NAL unit behind a start code -/

/-- The NAL unit behind the start code at `p`. -/
def spanAt (buf : List UInt8) (p : ℕ) : NalSpan :=
  ⟨p + codeAt buf p, (findStartCode buf (p + codeAt buf p)).1 - (p + codeAt buf p)⟩

theorem NoCode.scNals (h : NoCode buf i) : scNals buf i = [] := by
  rw [Ar8030.scNals, h.findStartCode, if_neg (lt_irrefl _)]

theorem FirstCode.scNals (h : FirstCode buf i pos) :
    scNals buf i = spanAt buf pos :: scNals buf (pos + codeAt buf pos) := by
  have hlt := two_lt_of_codeAt h.code
  rw [Ar8030.scNals, h.findStartCode, if_pos (by omega)]
  rfl

theorem scNals_skip (hle : i ≤ j) (h : ∀ p, i ≤ p → p < j → codeAt buf p = 0) :
    scNals buf i = scNals buf j := by
  rw [scNals.eq_def buf i, scNals.eq_def buf j, findStartCode_skip hle h]

/-- Every NAL unit found stands behind a start code. -/
theorem exists_of_mem_scNals {s : NalSpan} (h : s ∈ scNals buf i) :
    ∃ p, i ≤ p ∧ codeAt buf p ≠ 0 ∧ s = spanAt buf p := by
  induction i using scan_induction buf with
  | none i hnone => simp [hnone.scNals] at h
  | code i pos hfirst ih =>
    rw [hfirst.scNals] at h
    rcases List.mem_cons.mp h with rfl | h
    · exact ⟨pos, hfirst.le, hfirst.code, rfl⟩
    · obtain ⟨p, hp, hcode, hs⟩ := ih h
      have hle := hfirst.le
      exact ⟨p, by omega, hcode, hs⟩

/-- Behind every start code stands a NAL unit that is found. -/
theorem spanAt_mem_scNals (hle : i ≤ p) (hcode : codeAt buf p ≠ 0) :
    spanAt buf p ∈ scNals buf i := by
  induction i using scan_induction buf with
  | none i hnone => exact absurd (hnone p hle) hcode
  | code i pos hfirst ih =>
    rw [hfirst.scNals]
    rcases Nat.lt_or_ge p pos with hlt | hge
    · exact absurd (hfirst.before p hle hlt) hcode
    rcases Nat.lt_or_ge p (pos + codeAt buf pos) with hlt | hge'
    · -- inside the start code, or at it: the same NAL unit
      have hsame : p + codeAt buf p = pos + codeAt buf pos := by
        rcases Nat.eq_or_lt_of_le hge with rfl | hlt'
        · rfl
        · exact codeAt_inside hfirst.code hlt' hlt hcode
      have hspan : spanAt buf p = spanAt buf pos := by simp only [spanAt, hsame]
      rw [hspan]
      exact List.mem_cons_self
    · exact List.mem_cons_of_mem _ (ih hge')

theorem lt_of_mem_scNals {s : NalSpan} (h : s ∈ scNals buf i) : i < s.start := by
  obtain ⟨p, hp, hcode, rfl⟩ := exists_of_mem_scNals h
  exact Nat.lt_of_le_of_lt hp (Nat.lt_add_of_pos_right (Nat.pos_of_ne_zero hcode))

/-- The NAL units are found in order. -/
theorem pairwise_scNals (buf : List UInt8) (i : ℕ) :
    (scNals buf i).Pairwise fun s s' => s.start < s'.start := by
  induction i using scan_induction buf with
  | none i hnone => simp [hnone.scNals]
  | code i pos hfirst ih =>
    rw [hfirst.scNals]
    exact List.pairwise_cons.mpr ⟨fun s hs => lt_of_mem_scNals hs, ih⟩

/-- The NAL unit is empty: the next start code follows at once, or nothing does. -/
theorem len_spanAt_eq_zero_iff (hcode : codeAt buf p ≠ 0) : (spanAt buf p).len = 0 ↔
    p + codeAt buf p = buf.length ∨ codeAt buf (p + codeAt buf p) ≠ 0 := by
  have hin := codeAt_add_le hcode
  simp only [spanAt]
  rcases noCode_or_firstCode buf (p + codeAt buf p) with hnone | ⟨pos, hfirst⟩
  · rw [hnone.findStartCode, hnone _ le_rfl]
    omega
  · have hlt := two_lt_of_codeAt hfirst.code
    have hle := hfirst.le
    rw [hfirst.findStartCode]
    constructor
    · intro hzero
      have hsame : p + codeAt buf p = pos := by omega
      exact .inr (hsame ▸ hfirst.code)
    · rintro (hend | hadj)
      · omega
      · have hsame : ¬ p + codeAt buf p < pos := fun h => hadj (hfirst.before _ le_rfl h)
        omega

/-! ### What `next_nal` visits -/

theorem nalEnd_eq_findStartCode (buf : List UInt8) (j : ℕ) :
    nalEnd buf j = (findStartCode buf j).1 := by
  fun_induction nalEnd buf j with
  | case1 j hj hcode => rw [findStartCode, if_pos hj, if_pos hcode]
  | case2 j hj hcode ih => rw [findStartCode, if_pos hj, if_neg hcode, ih]
  | case3 j hj => rw [findStartCode, if_neg hj]

theorem nalStart_eq_findStartCode (buf : List UInt8) (i : ℕ) :
    nalStart buf i = if (findStartCode buf i).1 < buf.length then
      some ((findStartCode buf i).1 + (findStartCode buf i).2) else none := by
  fun_induction nalStart buf i with
  | case1 i hi hcode =>
    rw [findStartCode, if_pos hi, if_pos hcode, if_pos (by simp only; omega)]
  | case2 i hi hcode ih =>
    rw [findStartCode, if_pos hi, if_neg hcode, ih]
  | case3 i hi => rw [findStartCode, if_neg hi, if_neg (lt_irrefl _)]

theorem NoCode.nextNal (h : NoCode buf i) : nextNal buf i = none := by
  rw [Ar8030.nextNal, nalStart_eq_findStartCode, h.findStartCode, if_neg (lt_irrefl _)]

theorem FirstCode.nextNal (h : FirstCode buf i pos) :
    nextNal buf i = if (spanAt buf pos).len = 0 then none else some (spanAt buf pos) := by
  have hlt := two_lt_of_codeAt h.code
  rw [Ar8030.nextNal, nalStart_eq_findStartCode, h.findStartCode, if_pos (by simp only; omega)]
  simp only [nalEnd_eq_findStartCode, spanAt, Nat.sub_eq_zero_iff_le]

theorem start_lt_of_nextNal {cursor : ℕ} {s : NalSpan} (h : nextNal buf cursor = some s) :
    s.start < buf.length := by
  rcases noCode_or_firstCode buf cursor with hnone | ⟨pos, hfirst⟩
  · simp [hnone.nextNal] at h
  · rw [hfirst.nextNal] at h
    split_ifs at h with hempty
    obtain rfl := Option.some.inj h
    rw [len_spanAt_eq_zero_iff hfirst.code, not_or] at hempty
    exact lt_of_le_of_ne (codeAt_add_le hfirst.code) hempty.1

theorem visitNals_of_none {cursor : ℕ} (h : nextNal buf cursor = none) :
    visitNals buf cursor = [] := by
  rw [visitNals]
  split
  · rfl
  · rename_i s hs
    rw [h] at hs
    simp at hs

theorem visitNals_of_some {cursor : ℕ} {s : NalSpan} (h : nextNal buf cursor = some s) :
    visitNals buf cursor = s :: visitNals buf s.cursor := by
  rw [visitNals]
  split
  · rename_i hs
    rw [h] at hs
    simp at hs
  · rename_i s' hs
    rw [h] at hs
    obtain rfl := Option.some.inj hs
    rfl

/-- The cursor may stand anywhere in front of the next start code. -/
theorem visitNals_skip (hle : i ≤ j) (h : ∀ p, i ≤ p → p < j → codeAt buf p = 0) :
    visitNals buf i = visitNals buf j := by
  have hnext : nextNal buf i = nextNal buf j := by
    rw [nextNal, nextNal, nalStart_eq_findStartCode, nalStart_eq_findStartCode,
      findStartCode_skip hle h]
  cases hj : nextNal buf j with
  | none => rw [visitNals_of_none hj, visitNals_of_none (hnext.trans hj)]
  | some s => rw [visitNals_of_some hj, visitNals_of_some (hnext.trans hj)]

/-- A NAL unit is not empty. -/
def NalSpan.nonempty (s : NalSpan) : Bool := s.len != 0

/-- **`next_nal` stops at the first empty NAL unit.** -/
theorem visitNals_eq_takeWhile (buf : List UInt8) (i : ℕ) :
    visitNals buf i = (scNals buf i).takeWhile NalSpan.nonempty := by
  induction i using scan_induction buf with
  | none i hnone => rw [hnone.scNals, visitNals_of_none hnone.nextNal, List.takeWhile_nil]
  | code i pos hfirst ih =>
    have hnext := hfirst.nextNal
    rw [hfirst.scNals, List.takeWhile_cons]
    by_cases hempty : (spanAt buf pos).len = 0
    · rw [if_pos hempty] at hnext
      rw [visitNals_of_none hnext, if_neg (by simp [NalSpan.nonempty, hempty])]
    · rw [if_neg hempty] at hnext
      rw [visitNals_of_some hnext, if_pos (by simp [NalSpan.nonempty, hempty]), ← ih]
      -- the cursor moves to the end of the NAL unit, over no start code
      refine congrArg _ (visitNals_skip ?_ ?_).symm
      · simp only [NalSpan.cursor, spanAt]
        omega
      · intro p hp hlt
        simp only [NalSpan.cursor, spanAt] at hempty hlt
        rcases findStartCode_spec buf (pos + codeAt buf pos) with ⟨-, hnone⟩ | ⟨-, -, -, -, hnone⟩
        · exact hnone p hp
        · exact hnone p hp (by omega)

/-! ### Looking for a slice -/

/-- The NAL unit's first byte is in the buffer and says it is a slice. -/
def NalSpan.isSlice (buf : List UInt8) (s : NalSpan) : Bool :=
  decide (s.start < buf.length) && isVcl (buf.getD s.start 0)

theorem hasVclFrom_eq_any (buf : List UInt8) (i : ℕ) :
    hasVclFrom buf i = (visitNals buf i).any (NalSpan.isSlice buf) := by
  fun_induction hasVclFrom buf i with
  | case1 i hnext => rw [visitNals_of_none hnext, List.any_nil]
  | case2 i s hnext hvcl =>
    have hcursor := cursor_of_nextNal hnext
    have hstart : s.start < buf.length := start_lt_of_nextNal hnext
    rw [visitNals_of_some hnext, List.any_cons, NalSpan.isSlice, decide_eq_true hstart, hvcl]
    rfl
  | case3 i s hnext hvcl hcursor ih =>
    rw [visitNals_of_some hnext, List.any_cons, NalSpan.isSlice, Bool.eq_false_of_not_eq_true hvcl,
      Bool.and_false, Bool.false_or, ih]

theorem vclAt_iff_isSlice (hcode : codeAt buf p ≠ 0) :
    VclAt buf p ↔ (spanAt buf p).isSlice buf = true := by
  rw [NalSpan.isSlice, Bool.and_eq_true, decide_eq_true_eq]
  exact ⟨fun h => h.2, fun h => ⟨hcode, h⟩⟩

/-- `timing_sei_insert` looks at the NAL units `find_start_code` delimits. -/
theorem isSome_firstVcl (buf : List UInt8) :
    (firstVcl buf 0).isSome = (scNals buf 0).any (NalSpan.isSlice buf) := by
  rw [Bool.eq_iff_iff, List.any_eq_true]
  have hspec := firstVcl_spec buf 0
  constructor
  · intro hsome
    obtain ⟨pos, hpos⟩ := Option.isSome_iff_exists.mp hsome
    rw [hpos] at hspec
    obtain ⟨-, hv, -⟩ := hspec
    exact ⟨spanAt buf pos, spanAt_mem_scNals (Nat.zero_le _) hv.1, (vclAt_iff_isSlice hv.1).mp hv⟩
  · rintro ⟨s, hs, hslice⟩
    obtain ⟨p, -, hcode, rfl⟩ := exists_of_mem_scNals hs
    by_contra hnone
    rw [Option.not_isSome_iff_eq_none] at hnone
    rw [hnone] at hspec
    exact hspec p (Nat.zero_le p) ((vclAt_iff_isSlice hcode).mpr hslice)

end Scan

end Ar8030
