import Ar8030Transport.H265.Scanners

/-!
# Putting in a NAL unit

A NAL unit put in at a boundary, behind a four-byte start code, leaves the NAL units around
it as they are: `scNals_insert`. No byte in front of the boundary becomes part of a start
code that was not there, because what follows the boundary begins with zeros before and
after.
-/

namespace Ar8030

variable {buf out : List UInt8} {q : ℕ}

/-- A place between two NAL units: at a start code or the end of the buffer, with no start
code reaching over it. -/
structure NalBoundary (buf : List UInt8) (q : ℕ) : Prop where
  le : q ≤ buf.length
  at_code : q = buf.length ∨ codeAt buf q ≠ 0
  reach : ∀ p < q, p + codeAt buf p ≤ q

/-- `ins` put in at `q`. -/
def insertAt (buf : List UInt8) (q : ℕ) (ins : List UInt8) : List UInt8 :=
  buf.take q ++ ins ++ buf.drop q

theorem take_insertAt (hq : q ≤ buf.length) (ins : List UInt8) :
    (insertAt buf q ins).take q = buf.take q := by
  rw [insertAt, List.append_assoc]
  exact List.take_left' (by rw [List.length_take, Nat.min_eq_left hq])

/-- What is put in begins at `q`. -/
theorem getD_insertAt (hq : q ≤ buf.length) (b : UInt8) (ins : List UInt8) :
    (insertAt buf q (b :: ins)).getD q 0 = b := by
  have hlen : (buf.take q).length = q := by rw [List.length_take, Nat.min_eq_left hq]
  rw [insertAt, List.append_assoc, List.getD_append_right _ _ _ _ (by omega), hlen, Nat.sub_self]
  rfl

/-! ### Start codes around the boundary -/

theorem NalBoundary.codeAt_eq_zero {p : ℕ} (h : NalBoundary buf q) (hp : p < q)
    (hnear : q < p + 3) : codeAt buf p = 0 := by
  by_contra hcode
  have h3 := three_le_codeAt hcode
  have hreach := h.reach p hp
  omega

/-- At a boundary the buffer has two zeros, or ends. -/
theorem NalBoundary.getD_eq_zero (h : NalBoundary buf q) {k : ℕ} (hk : k < 2) :
    buf.getD (q + k) 0 = 0 := by
  rcases h.at_code with hend | hcode
  · rw [List.getD_eq_default _ _ (by omega)]
  · obtain ⟨h0, h1, -⟩ := bytes_of_codeAt hcode
    obtain rfl | rfl : k = 0 ∨ k = 1 := by omega
    · exact h0
    · exact h1

/-- What is behind the boundary matters for the start codes in front of it only by its first
three bytes. -/
theorem NalBoundary.codeAt_congr {p : ℕ} (h : NalBoundary buf q) (hp : p < q)
    (hle : q ≤ out.length) (hbefore : ∀ k < q, out.getD k 0 = buf.getD k 0)
    (hzeros : ∀ k < 3, out.getD (q + k) 0 = 0) : codeAt out p = codeAt buf p := by
  have hq := h.le
  have hne : (0 : UInt8) ≠ 1 := by decide
  rcases Nat.lt_or_ge (p + 3) q with hfar | hnear
  · simp only [codeAt, hbefore p (by omega), hbefore (p + 1) (by omega),
      hbefore (p + 2) (by omega), hbefore (p + 3) hfar, show p + 2 < out.length by omega,
      show p + 2 < buf.length by omega, show p + 3 < out.length by omega,
      show p + 3 < buf.length by omega]
  rcases Nat.eq_or_lt_of_le hnear with rfl | hnear
  · -- the fourth byte is the first behind the boundary
    have hout := hzeros 0 (by omega)
    have hbuf := h.getD_eq_zero (show 0 < 2 by omega)
    rw [Nat.add_zero] at hout hbuf
    simp only [codeAt, hbefore p (by omega), hbefore (p + 1) (by omega),
      hbefore (p + 2) (by omega), hout, hbuf, hne, and_false, if_false,
      show p + 2 < out.length by omega, show p + 2 < buf.length by omega]
  · rw [h.codeAt_eq_zero hp (by omega)]
    by_contra hcode
    obtain ⟨-, -, hend⟩ := bytes_of_codeAt hcode
    obtain rfl | rfl : q = p + 1 ∨ q = p + 2 := by omega
    · rcases hend with ⟨-, h2⟩ | ⟨-, -, h3⟩
      · exact hne ((hzeros 1 (by omega)).symm.trans h2)
      · exact hne ((hzeros 2 (by omega)).symm.trans h3)
    · rcases hend with ⟨-, h2⟩ | ⟨-, -, h3⟩
      · exact hne ((hzeros 0 (by omega)).symm.trans h2)
      · exact hne ((hzeros 1 (by omega)).symm.trans h3)

theorem getD_append_take {k : ℕ} (hq : q ≤ buf.length) (hk : k < q) (l : List UInt8) :
    (buf.take q ++ l).getD k 0 = buf.getD k 0 := by
  have hlen : k < (buf.take q).length := by
    rw [List.length_take]
    omega
  rw [List.getD_append _ _ _ _ hlen]
  simp [List.getD_eq_getElem?_getD, hk]

theorem NalBoundary.codeAt_take {p : ℕ} (h : NalBoundary buf q) (hp : p < q) :
    codeAt (buf.take q) p = codeAt buf p := by
  have hlen : (buf.take q).length = q := by rw [List.length_take, Nat.min_eq_left h.le]
  refine h.codeAt_congr hp (by omega) (fun k hk => ?_) (fun k hk => ?_)
  · have htake := getD_append_take h.le hk []
    rwa [List.append_nil] at htake
  · rw [List.getD_eq_default _ _ (by omega)]

/-- A four-byte start code, then `body`, put in at the boundary. -/
theorem NalBoundary.codeAt_insertAt {p : ℕ} (h : NalBoundary buf q) (hp : p < q)
    (body : List UInt8) :
    codeAt (insertAt buf q (StartCode.long.bytes ++ body)) p = codeAt buf p := by
  have hlen : (buf.take q).length = q := by rw [List.length_take, Nat.min_eq_left h.le]
  rw [insertAt, List.append_assoc]
  refine h.codeAt_congr hp ?_ (fun k hk => getD_append_take h.le hk _) (fun k hk => ?_)
  · rw [List.length_append]
    omega
  · rw [List.getD_append_right _ _ _ _ (by omega), hlen, Nat.add_sub_cancel_left]
    obtain rfl | rfl | rfl : k = 0 ∨ k = 1 ∨ k = 2 := by omega
    all_goals rfl

/-! ### NAL units in front of the boundary -/

theorem findStartCode_eq_of_boundary (h : NalBoundary buf q) : (findStartCode buf q).1 = q := by
  rcases h.at_code with hend | hcode
  · have hnone : NoCode buf q := by
      intro p hp
      rw [codeAt, if_neg (by omega)]
    rw [hnone.findStartCode]
    exact hend.symm
  · have hfirst : FirstCode buf q q := ⟨le_rfl, hcode, fun p hp hlt => by omega⟩
    rw [hfirst.findStartCode]

theorem FirstCode.of_same {i pos : ℕ} (h : FirstCode buf i pos)
    (hsame : ∀ p < q, codeAt out p = codeAt buf p) (hpos : pos < q) : FirstCode out i pos where
  le := h.le
  code := by
    rw [hsame pos hpos]
    exact h.code
  before := by
    intro p hp hlt
    rw [hsame p (by omega), h.before p hp hlt]

/-- Up to a boundary the search finds the same in both buffers. -/
theorem findStartCode_fst_eq (hsame : ∀ p < q, codeAt out p = codeAt buf p)
    (hbuf : (findStartCode buf q).1 = q) (hout : (findStartCode out q).1 = q) {i : ℕ}
    (hi : i ≤ q) : (findStartCode out i).1 = (findStartCode buf i).1 := by
  have hclear : (∀ p, i ≤ p → p < q → codeAt buf p = 0) →
      (findStartCode out i).1 = (findStartCode buf i).1 := by
    intro h
    have h' : ∀ p, i ≤ p → p < q → codeAt out p = 0 := fun p hp hlt =>
      (hsame p hlt).trans (h p hp hlt)
    rw [findStartCode_skip hi h, findStartCode_skip hi h', hbuf, hout]
  rcases noCode_or_firstCode buf i with hnone | ⟨pos, hfirst⟩
  · exact hclear fun p hp _ => hnone p hp
  · rcases Nat.lt_or_ge pos q with hlt | hge
    · rw [hfirst.findStartCode, (hfirst.of_same hsame hlt).findStartCode]
    · exact hclear fun p hp hlt => hfirst.before p hp (by omega)

theorem NalBoundary.findStartCode_fst_le (h : NalBoundary buf q) {i : ℕ} (hi : i ≤ q) :
    (findStartCode buf i).1 ≤ q := by
  rcases noCode_or_firstCode buf i with hnone | ⟨pos, hfirst⟩
  · rw [hnone.findStartCode]
    rcases h.at_code with hend | hcode
    · omega
    · exact absurd (hnone q hi) hcode
  · have hlt := two_lt_of_codeAt hfirst.code
    rw [hfirst.findStartCode]
    rcases h.at_code with hend | hcode
    · simp only
      omega
    · by_contra hgt
      exact hcode (hfirst.before q hi (by simpa using hgt))

/-- The NAL units in front of a boundary are those of any buffer that agrees up to there. -/
theorem NalBoundary.scNals_before (h : NalBoundary buf q)
    (hsame : ∀ p < q, codeAt out p = codeAt buf p) (hout : (findStartCode out q).1 = q) {i : ℕ}
    (hi : i ≤ q) :
    ∃ before, (∀ s ∈ before, s.cursor ≤ q) ∧ scNals buf i = before ++ scNals buf q ∧
      scNals out i = before ++ scNals out q := by
  have hbuf := findStartCode_eq_of_boundary h
  induction i using scan_induction buf with
  | none i hnone =>
    refine ⟨[], by simp, ?_, ?_⟩
    · exact scNals_skip hi fun p hp _ => hnone p hp
    · exact scNals_skip hi fun p hp hlt => (hsame p hlt).trans (hnone p hp)
  | code i pos hfirst ih =>
    rcases Nat.lt_or_ge pos q with hlt | hge
    · have hreach := h.reach pos hlt
      obtain ⟨before, hle, hb, ho⟩ := ih hreach
      have hfirst' := hfirst.of_same hsame hlt
      have hend := findStartCode_fst_eq hsame hbuf hout hreach
      have hspan : spanAt out pos = spanAt buf pos := by
        simp only [spanAt, hsame pos hlt, hend]
      have hcursor : (spanAt buf pos).cursor ≤ q := by
        have hnext := h.findStartCode_fst_le hreach
        simp only [NalSpan.cursor, spanAt]
        omega
      refine ⟨spanAt buf pos :: before, ?_, ?_, ?_⟩
      · exact List.forall_mem_cons.mpr ⟨hcursor, hle⟩
      · rw [hfirst.scNals, hb, List.cons_append]
      · rw [hfirst'.scNals, hspan, hsame pos hlt, ho, List.cons_append]
    · refine ⟨[], by simp, ?_, ?_⟩
      · exact scNals_skip hi fun p hp hlt => hfirst.before p hp (by omega)
      · exact scNals_skip hi fun p hp hlt =>
          (hsame p hlt).trans (hfirst.before p hp (by omega))

/-! ### NAL units behind it -/

/-- The NAL unit `n` bytes further on. -/
def NalSpan.shift (n : ℕ) (s : NalSpan) : NalSpan := ⟨n + s.start, s.len⟩

section Append

variable {pre l : List UInt8} {i pos : ℕ}

theorem NoCode.append (h : NoCode l i) : NoCode (pre ++ l) (pre.length + i) := by
  intro p hp
  obtain ⟨r, rfl⟩ := Nat.exists_eq_add_of_le (Nat.le_of_add_right_le hp)
  rw [codeAt_append]
  exact h r (by omega)

theorem FirstCode.append (h : FirstCode l i pos) :
    FirstCode (pre ++ l) (pre.length + i) (pre.length + pos) where
  le := Nat.add_le_add_left h.le _
  code := by
    rw [codeAt_append]
    exact h.code
  before := by
    intro p hp hlt
    obtain ⟨r, rfl⟩ := Nat.exists_eq_add_of_le (Nat.le_of_add_right_le hp)
    rw [codeAt_append]
    exact h.before r (by omega) (by omega)

theorem findStartCode_append (pre l : List UInt8) (i : ℕ) :
    (findStartCode (pre ++ l) (pre.length + i)).1 = pre.length + (findStartCode l i).1 := by
  rcases noCode_or_firstCode l i with hnone | ⟨pos, hfirst⟩
  · rw [hnone.findStartCode, hnone.append.findStartCode, List.length_append]
  · rw [hfirst.findStartCode, hfirst.append.findStartCode]

/-- The search does not look back. -/
theorem scNals_append (pre l : List UInt8) (i : ℕ) :
    scNals (pre ++ l) (pre.length + i) = (scNals l i).map (NalSpan.shift pre.length) := by
  induction i using scan_induction l with
  | none i hnone => rw [hnone.scNals, hnone.append.scNals, List.map_nil]
  | code i pos hfirst ih =>
    have hspan : spanAt (pre ++ l) (pre.length + pos) = (spanAt l pos).shift pre.length := by
      simp only [spanAt, NalSpan.shift, codeAt_append, Nat.add_assoc, findStartCode_append,
        Nat.add_sub_add_left]
    rw [hfirst.scNals, hfirst.append.scNals, hspan, codeAt_append, Nat.add_assoc, ih,
      List.map_cons]

end Append

/-! ### The new NAL unit -/

/-- What follows a boundary begins with a start code, or there is nothing. -/
theorem NalBoundary.endsNal (h : NalBoundary buf q) : EndsNal (buf.drop q) := by
  rcases h.at_code with hend | hcode
  · left
    rw [hend, List.drop_length]
  · right
    have hlt := two_lt_of_codeAt hcode
    have hdrop := codeAt_append (buf.take q) (buf.drop q) 0
    rw [List.take_append_drop, List.length_take, Nat.min_eq_left h.le, Nat.add_zero] at hdrop
    refine ⟨by rwa [← hdrop], ?_⟩
    rw [List.length_drop]
    omega

/-- A NAL unit behind its start code, and what follows. -/
theorem scNals_unit (u : NalUnit) {rest : List UInt8} (hrest : EndsNal rest) :
    scNals (StartCode.long.bytes ++ u.bytes ++ rest) 0 =
      ⟨4, u.bytes.length⟩ ::
        (scNals rest 0).map (NalSpan.shift (StartCode.long.bytes ++ u.bytes).length) := by
  have hcode := codeAt_startCode .long (u.bytes ++ rest)
  have hend := nalEnd_append StartCode.long.bytes (u.bytes ++ rest) 0
  rw [Nat.add_zero, u.nalEnd_eq hrest (Nat.zero_le _), nalEnd_eq_findStartCode] at hend
  have hfour : StartCode.long.bytes.length = 4 := rfl
  rw [hfour] at hcode hend
  have hfirst : FirstCode (StartCode.long.bytes ++ (u.bytes ++ rest)) 0 0 :=
    ⟨le_rfl, by rw [hcode]; decide, fun p hp hlt => by omega⟩
  have happend := scNals_append (StartCode.long.bytes ++ u.bytes) rest 0
  rw [List.append_assoc, hfirst.scNals, spanAt, hcode, Nat.zero_add, hend,
    Nat.add_sub_cancel_left, ← happend, List.append_assoc]
  -- no start code begins inside the NAL unit
  refine congrArg _ (scNals_skip ?_ fun p hp hlt => ?_)
  · rw [List.length_append, hfour]
    omega
  · obtain ⟨r, rfl⟩ := Nat.exists_eq_add_of_le hp
    rw [← hfour, codeAt_append]
    refine u.codeAt_eq_zero rest ?_
    rw [List.length_append, hfour] at hlt
    omega

theorem scNals_drop (hq : q ≤ buf.length) :
    scNals buf q = (scNals (buf.drop q) 0).map (NalSpan.shift q) := by
  have happend := scNals_append (buf.take q) (buf.drop q) 0
  rwa [List.take_append_drop, List.length_take, Nat.min_eq_left hq, Nat.add_zero] at happend

/-- The NAL units in front of a boundary, and those behind it. -/
theorem NalBoundary.scNals_take (h : NalBoundary buf q) :
    (∀ s ∈ scNals (buf.take q) 0, s.cursor ≤ q) ∧
      scNals buf 0 = scNals (buf.take q) 0 ++ (scNals (buf.drop q) 0).map (NalSpan.shift q) := by
  have hlen : (buf.take q).length = q := by rw [List.length_take, Nat.min_eq_left h.le]
  have hnone : NoCode (buf.take q) q := fun p hp => by rw [codeAt, if_neg (by omega)]
  have hstop : (findStartCode (buf.take q) q).1 = q := by rw [hnone.findStartCode, hlen]
  obtain ⟨before, hle, hb, ht⟩ :=
    h.scNals_before (fun p hp => h.codeAt_take hp) hstop (Nat.zero_le q)
  rw [hnone.scNals, List.append_nil] at ht
  rw [ht, hb, scNals_drop h.le]
  exact ⟨hle, rfl⟩

/-- **Putting in a NAL unit** at a boundary: the ones in front of it stay, the ones behind
it move. -/
theorem NalBoundary.scNals_insert (h : NalBoundary buf q) (u : NalUnit) :
    scNals (insertAt buf q (StartCode.long.bytes ++ u.bytes)) 0 =
      scNals (buf.take q) 0 ++ ⟨q + 4, u.bytes.length⟩ :: (scNals (buf.drop q) 0).map
        (NalSpan.shift (q + (4 + u.bytes.length))) := by
  have hlen : (buf.take q).length = q := by rw [List.length_take, Nat.min_eq_left h.le]
  have hnew : scNals (insertAt buf q (StartCode.long.bytes ++ u.bytes)) q =
      ⟨q + 4, u.bytes.length⟩ :: (scNals (buf.drop q) 0).map
        (NalSpan.shift (q + (4 + u.bytes.length))) := by
    have happend := scNals_append (buf.take q) (StartCode.long.bytes ++ u.bytes ++ buf.drop q) 0
    rw [hlen, Nat.add_zero, scNals_unit u h.endsNal, ← List.append_assoc, List.map_cons,
      List.map_map] at happend
    rw [insertAt, happend]
    refine congrArg₂ _ rfl (List.map_congr_left fun s _ => ?_)
    simp [NalSpan.shift, StartCode.bytes, Nat.add_left_comm, Nat.add_comm]
  have hstop : (findStartCode (insertAt buf q (StartCode.long.bytes ++ u.bytes)) q).1 = q := by
    have hstart : FirstCode (insertAt buf q (StartCode.long.bytes ++ u.bytes)) q q := by
      refine ⟨le_rfl, ?_, fun p hp hlt => by omega⟩
      have hcode := codeAt_append (buf.take q) (StartCode.long.bytes ++ (u.bytes ++ buf.drop q)) 0
      rw [hlen, Nat.add_zero, codeAt_startCode] at hcode
      rw [insertAt, List.append_assoc, List.append_assoc, hcode]
      decide
    rw [hstart.findStartCode]
  obtain ⟨before, -, hb, ho⟩ :=
    h.scNals_before (fun p hp => h.codeAt_insertAt hp u.bytes) hstop (Nat.zero_le q)
  have htake := h.scNals_take.2
  rw [hb, scNals_drop h.le] at htake
  rw [ho, hnew, List.append_cancel_right htake]

/-- The new NAL unit is read back. -/
theorem NalBoundary.bytes_insertAt (h : NalBoundary buf q) (u : NalUnit) :
    NalSpan.bytes ⟨q + 4, u.bytes.length⟩ (insertAt buf q (StartCode.long.bytes ++ u.bytes)) =
      u.bytes := by
  have hlen : (buf.take q ++ StartCode.long.bytes).length = q + 4 := by
    rw [List.length_append, List.length_take, Nat.min_eq_left h.le]
    rfl
  rw [NalSpan.bytes, insertAt, ← List.append_assoc, List.append_assoc (buf.take q ++ _)]
  simp only
  rw [List.drop_left' hlen, List.take_left]

/-- The start code of the first slice is a boundary. -/
theorem nalBoundary_of_first (hv : VclAt buf q) (hfirst : ∀ p < q, ¬ VclAt buf p) :
    NalBoundary buf q where
  le := by
    have hlt := two_lt_of_codeAt hv.1
    omega
  at_code := .inr hv.1
  reach := by
    intro p hp
    by_contra hover
    -- a start code that reaches over it ends where it ends
    have hcode : codeAt buf p ≠ 0 := by omega
    have hsame := codeAt_inside hcode hp (by omega) hv.1
    exact hfirst p hp ⟨hcode, by rw [← hsame]; exact hv.2⟩

end Ar8030
