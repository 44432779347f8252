import Ar8030Transport.H265.TimingSei

/-!
# The timing SEI as a NAL unit

`build_nal` escapes the message: behind two zeros no byte up to 3 follows but the escape
byte 3. So what comes behind the start code is a NAL unit that start codes can delimit
(`seiUnit`), and at most one byte is added for every two.
-/

namespace Ar8030

/-! ### The escape loop -/

/-- `TIMING_SEI_NAL_MAX`. -/
def timingSeiNalMax : ℕ := 4 + 2 + 2 + timingSeiPayloadSize * 3 / 2 + 2

theorem escapeLoop_cons (zeros : ℕ) (b : UInt8) (bs : List UInt8) :
    escapeLoop zeros (b :: bs) =
      if 2 ≤ zeros ∧ b ≤ 3 then 3 :: b :: escapeLoop (if b = 0 then 1 else 0) bs
      else b :: escapeLoop (if b = 0 then zeros + 1 else 0) bs := by
  rw [escapeLoop]

/-- Two zeros have to be seen for each byte that is added. -/
theorem length_escapeLoop_le (zeros : ℕ) (bs : List UInt8) :
    (escapeLoop zeros bs).length ≤ bs.length + (bs.length + zeros) / 2 := by
  induction bs generalizing zeros with
  | nil => simp [escapeLoop]
  | cons b bs ih =>
    rw [escapeLoop_cons]
    split_ifs with hesc hb hb
    · have h := ih 1
      simp only [List.length_cons]
      omega
    · have h := ih 0
      simp only [List.length_cons]
      omega
    · have h := ih (zeros + 1)
      simp only [List.length_cons]
      omega
    · have h := ih 0
      simp only [List.length_cons]
      omega

/-- The last byte is the message's last byte. -/
theorem getLast?_escapeLoop (zeros : ℕ) (bs : List UInt8) :
    (escapeLoop zeros bs).getLast? = bs.getLast? := by
  induction bs generalizing zeros with
  | nil => rfl
  | cons b bs ih =>
    rw [escapeLoop_cons]
    split_ifs with hesc hb hb
    all_goals simp [List.getLast?_cons, ih]

/-- Up to two of the zeros seen so far. -/
def pendingZeros (zeros : ℕ) : List UInt8 := List.replicate (min zeros 2) 0

theorem pendingZeros_of_le {zeros : ℕ} (h : 2 ≤ zeros) : pendingZeros zeros = [0, 0] := by
  rw [pendingZeros, Nat.min_eq_right h]
  rfl

theorem pendingZeros_concat {zeros : ℕ} (h : zeros < 2) :
    pendingZeros zeros ++ [0] = pendingZeros (zeros + 1) := by
  rw [pendingZeros, pendingZeros, Nat.min_eq_left (by omega), Nat.min_eq_left (by omega),
    List.replicate_succ']

/-- A byte that is not zero ends the zeros. -/
theorem not_infix_pendingZeros {x b : UInt8} {zeros : ℕ} {l : List UInt8} (hb : b ≠ 0)
    (hx : 2 ≤ zeros → x ≠ b) (h : ¬ [0, 0, x] <:+: l) :
    ¬ [0, 0, x] <:+: pendingZeros zeros ++ b :: l := by
  have hb' : ¬ 0 = b := fun h0 => hb h0.symm
  have htail : ¬ [0, 0, x] <:+: b :: l := by simp [List.infix_cons_iff, hb', h]
  rcases zeros with _ | _ | zeros
  · exact htail
  · have hone : pendingZeros 1 = [0] := rfl
    rw [hone, List.singleton_append, List.infix_cons_iff]
    simp [hb', htail]
  · have hxb := hx (by omega)
    rw [pendingZeros_of_le (by omega), List.cons_append, List.singleton_append,
      List.infix_cons_iff, List.infix_cons_iff]
    simp [hb', hxb, htail]

/-- **No start code and no three zeros**, also together with the zeros that came before. -/
theorem not_infix_escapeLoop {x : UInt8} (hx : x ≤ 2) (zeros : ℕ) (bs : List UInt8) :
    ¬ [0, 0, x] <:+: pendingZeros zeros ++ escapeLoop zeros bs := by
  have hx3 : ∀ b : UInt8, 3 ≤ b → x ≠ b := by
    rintro b hb rfl
    exact absurd (UInt8.le_trans hb hx) (by decide)
  induction bs generalizing zeros with
  | nil =>
    intro h
    have hlen := h.length_le
    simp [escapeLoop, pendingZeros] at hlen
  | cons b bs ih =>
    rw [escapeLoop_cons]
    split_ifs with hesc hb hb
    · -- `00 00 03 00`
      refine not_infix_pendingZeros (by decide) (fun _ => hx3 3 UInt8.le_rfl) ?_
      rw [hb]
      exact ih 1
    · refine not_infix_pendingZeros (by decide) (fun _ => hx3 3 UInt8.le_rfl) ?_
      have h : ¬ [0, 0, x] <:+: pendingZeros 0 ++ b :: escapeLoop 0 bs :=
        not_infix_pendingZeros hb (by omega) (ih 0)
      exact h
    · have hlt : zeros < 2 := by
        by_contra hge
        exact hesc ⟨by omega, hb ▸ by decide⟩
      have hsplit : pendingZeros zeros ++ b :: escapeLoop (zeros + 1) bs =
          pendingZeros (zeros + 1) ++ escapeLoop (zeros + 1) bs := by
        rw [← pendingZeros_concat hlt, hb, List.append_assoc, List.singleton_append]
      rw [hsplit]
      exact ih (zeros + 1)
    · refine not_infix_pendingZeros hb (fun hge => hx3 b ?_) (ih 0)
      have hlt : ¬ b ≤ 3 := fun hle => hesc ⟨hge, hle⟩
      exact UInt8.le_of_lt (UInt8.not_le.mp hlt)

/-! ### The NAL unit -/

theorem length_rbsp (t : TimingSeiV1) : t.rbsp.length = timingSeiPayloadSize + 3 := by
  simp [TimingSeiV1.rbsp, TimingSeiV1.toBytes, timingSeiUuid, timingSeiPayloadSize]

/-- The SEI's type and header, and the escaped message. -/
def seiBody (t : TimingSeiV1) (type : UInt8) : List UInt8 :=
  [type <<< (1 : UInt8), 1] ++ escapeLoop 0 t.rbsp

theorem buildNal_eq (t : TimingSeiV1) (type : UInt8) :
    buildNal t type = StartCode.long.bytes ++ seiBody t type := rfl

theorem length_buildNal_le (t : TimingSeiV1) (type : UInt8) :
    (buildNal t type).length ≤ timingSeiNalMax := by
  have hloop := length_escapeLoop_le 0 t.rbsp
  rw [length_rbsp] at hloop
  simp only [buildNal, List.length_append, List.length_cons, List.length_nil, timingSeiNalMax,
    timingSeiPayloadSize] at *
  omega

theorem not_infix_seiBody (t : TimingSeiV1) {type x : UInt8} (htype : type <<< (1 : UInt8) ≠ 0)
    (hx : x ≤ 2) : ¬ [0, 0, x] <:+: seiBody t type := by
  have hloop : ¬ [0, 0, x] <:+: escapeLoop 0 t.rbsp := not_infix_escapeLoop hx 0 t.rbsp
  have h0 : ¬ 0 = type <<< (1 : UInt8) := fun h => htype h.symm
  rw [seiBody, List.cons_append, List.singleton_append, List.infix_cons_iff,
    List.infix_cons_iff]
  simpa [h0] using hloop

theorem getLast?_seiBody (t : TimingSeiV1) (type : UInt8) :
    (seiBody t type).getLast? = some 0x80 := by
  rw [seiBody, List.getLast?_append, getLast?_escapeLoop, TimingSeiV1.rbsp,
    List.getLast?_concat]
  rfl

/-- A built SEI can be delimited by start codes. -/
def seiUnit (t : TimingSeiV1) (type : UInt8) (htype : type <<< (1 : UInt8) ≠ 0) : NalUnit where
  bytes := seiBody t type
  two_le_length := by simp [seiBody]
  no_code := not_infix_seiBody t htype (by decide)
  last_ne := by
    rw [getLast?_seiBody]
    decide

end Ar8030
