import Ar8030Transport.H265.AnnexB
import Ar8030Transport.Library.LittleEndian

/-!
# The timing SEI

`common/timing_sei.c` builds an SEI NAL unit that carries the capture and arrival times of
a frame (`timingSeiBuild`, `timingSeiBuildSuffix`), and puts one into an access unit ahead
of its first slice (`timingSeiInsert`). `timingSeiInsert_spec` says where it goes, and when
it does not go in at all.
-/

namespace Ar8030

/-- `struct timing_sei_v1`. -/
structure TimingSeiV1 where
  version : UInt8
  flags : UInt8
  frameSeq : UInt16
  captureGroundUs : UInt64
  rxDoneGroundUs : UInt64
  syncUncertaintyUs : UInt32
  encodeUs : UInt32
  framesLost : UInt32
  deriving DecidableEq, Repr

/-- `TIMING_SEI_VERSION`. -/
def timingSeiVersion : UInt8 := 1

/-- `TIMING_SEI_FLAG_SYNC_VALID`. -/
def timingSeiFlagSyncValid : UInt8 := 0x01

/-- `TIMING_SEI_FLAG_ENCODE`. -/
def timingSeiFlagEncode : UInt8 := 0x02

/-- `TIMING_SEI_UUID`. -/
def timingSeiUuid : List UInt8 :=
  [0x8a, 0x3f, 0x52, 0xc1, 0x6e, 0x0b, 0x4d, 0x97, 0xb2, 0x14, 0x5a, 0xe3, 0x09, 0x7c, 0xd1, 0x46]

/-- The packed struct, little endian. -/
def TimingSeiV1.toBytes (t : TimingSeiV1) : List UInt8 :=
  LittleEndian.encode 1 t.version.toNat ++ LittleEndian.encode 1 t.flags.toNat ++
    LittleEndian.encode 2 t.frameSeq.toNat ++ LittleEndian.encode 8 t.captureGroundUs.toNat ++
    LittleEndian.encode 8 t.rxDoneGroundUs.toNat ++
    LittleEndian.encode 4 t.syncUncertaintyUs.toNat ++ LittleEndian.encode 4 t.encodeUs.toNat ++
    LittleEndian.encode 4 t.framesLost.toNat

/-- `TIMING_SEI_PAYLOAD_SIZE`. -/
def timingSeiPayloadSize : ℕ := 16 + 32

/-- The RBSP: payload type and size, UUID, data and the trailing bits. -/
def TimingSeiV1.rbsp (t : TimingSeiV1) : List UInt8 :=
  [5, UInt8.ofNat timingSeiPayloadSize] ++ timingSeiUuid ++ t.toBytes ++ [0x80]

/-- The emulation prevention loop of `build_nal`, with the zeros seen so far. -/
def escapeLoop : ℕ → List UInt8 → List UInt8
  | _, [] => []
  | zeros, b :: bs =>
    if 2 ≤ zeros ∧ b ≤ 3 then 3 :: b :: escapeLoop (if b = 0 then 1 else 0) bs
    else b :: escapeLoop (if b = 0 then zeros + 1 else 0) bs

/-- `build_nal`. -/
def buildNal (t : TimingSeiV1) (type : UInt8) : List UInt8 :=
  [0, 0, 0, 1, type <<< (1 : UInt8), 1] ++ escapeLoop 0 t.rbsp

/-- `timing_sei_build`: a prefix SEI. -/
def timingSeiBuild (t : TimingSeiV1) : List UInt8 := buildNal t 39

/-- `timing_sei_build_suffix`: a suffix SEI. -/
def timingSeiBuildSuffix (t : TimingSeiV1) : List UInt8 := buildNal t 40

/-! ### Inserting it -/

/-- `find_start_code` finds a start code at or behind where it starts, or the end. -/
theorem findStartCode_spec (buf : List UInt8) (i : ℕ) :
    (findStartCode buf i = (buf.length, 0) ∧ ∀ p, i ≤ p → codeAt buf p = 0) ∨
      (i ≤ (findStartCode buf i).1 ∧ (findStartCode buf i).1 + 2 < buf.length ∧
        (findStartCode buf i).2 = codeAt buf (findStartCode buf i).1 ∧
        0 < (findStartCode buf i).2 ∧
        ∀ p, i ≤ p → p < (findStartCode buf i).1 → codeAt buf p = 0) := by
  fun_induction findStartCode buf i with
  | case1 i hi hcode => exact Or.inr ⟨le_rfl, hi, rfl, by omega, fun p hp hlt => by omega⟩
  | case2 i hi hcode ih =>
    have hzero : codeAt buf i = 0 := by omega
    rcases ih with ⟨heq, hnone⟩ | ⟨hle, hlt, hlen, hpos, hnone⟩
    · refine Or.inl ⟨heq, fun p hp => ?_⟩
      rcases Nat.eq_or_lt_of_le hp with rfl | hp
      · exact hzero
      · exact hnone p hp
    · refine Or.inr ⟨by omega, hlt, hlen, hpos, fun p hp hlt' => ?_⟩
      rcases Nat.eq_or_lt_of_le hp with rfl | hp
      · exact hzero
      · exact hnone p hp hlt'
  | case3 i hi =>
    refine Or.inl ⟨rfl, fun p hp => ?_⟩
    rw [codeAt, if_neg (by omega)]

/-- The loop of `timing_sei_insert`: the offset of the first VCL NAL unit's start code, from
`from` on. -/
def firstVcl (buf : List UInt8) (i : ℕ) : Option ℕ :=
  if (findStartCode buf i).1 < buf.length then
    if (findStartCode buf i).1 + (findStartCode buf i).2 < buf.length ∧
        isVcl (buf.getD ((findStartCode buf i).1 + (findStartCode buf i).2) 0) then
      some (findStartCode buf i).1
    else firstVcl buf ((findStartCode buf i).1 + (findStartCode buf i).2)
  else none
termination_by buf.length - i
decreasing_by
  rename_i hin _
  rcases findStartCode_spec buf i with ⟨heq, -⟩ | ⟨hle, hlt, -, hpos, -⟩
  · rw [heq] at hin
    exact absurd hin (lt_irrefl _)
  · omega

/-- `timing_sei_insert`; `none` is the return value `-1`, with the access unit unchanged. -/
def timingSeiInsert (buf : List UInt8) (cap : ℕ) (sei : List UInt8) : Option (List UInt8) :=
  if cap < buf.length + sei.length then none
  else (firstVcl buf 0).map fun pos => buf.take pos ++ sei ++ buf.drop pos

/-- The start code at `p` is that of a slice. -/
def VclAt (buf : List UInt8) (p : ℕ) : Prop :=
  codeAt buf p ≠ 0 ∧ p + codeAt buf p < buf.length ∧ isVcl (buf.getD (p + codeAt buf p) 0) = true

instance (buf : List UInt8) (p : ℕ) : Decidable (VclAt buf p) :=
  inferInstanceAs (Decidable (_ ∧ _ ∧ _))

/-- The bytes of a start code. -/
theorem bytes_of_codeAt {buf : List UInt8} {p : ℕ} (h : codeAt buf p ≠ 0) :
    buf.getD p 0 = 0 ∧ buf.getD (p + 1) 0 = 0 ∧
      ((codeAt buf p = 3 ∧ buf.getD (p + 2) 0 = 1) ∨
        (codeAt buf p = 4 ∧ buf.getD (p + 2) 0 = 0 ∧ buf.getD (p + 3) 0 = 1)) := by
  rw [codeAt] at h ⊢
  split_ifs at h ⊢ with hzeros h3 h4
  · exact ⟨hzeros.2.1, hzeros.2.2, Or.inl ⟨rfl, h3⟩⟩
  · exact ⟨hzeros.2.1, hzeros.2.2, Or.inr ⟨rfl, h4.2⟩⟩
  · exact absurd rfl h
  · exact absurd rfl h

/-- Inside a start code there is at most the start code's own end, of the same NAL unit. -/
theorem codeAt_inside {buf : List UInt8} {p q : ℕ} (hp : codeAt buf p ≠ 0) (hlt : p < q)
    (hq : q < p + codeAt buf p) (hcode : codeAt buf q ≠ 0) :
    q + codeAt buf q = p + codeAt buf p := by
  obtain ⟨-, -, hend⟩ := bytes_of_codeAt hp
  obtain ⟨hq0, hq1, hqend⟩ := bytes_of_codeAt hcode
  have hne : (0 : UInt8) ≠ 1 := by decide
  rcases hend with ⟨hlen, h2⟩ | ⟨hlen, h2, h3⟩
  · -- `00 00 01`: a zero byte of the inner code would be the `01`
    obtain rfl | rfl : q = p + 1 ∨ q = p + 2 := by omega
    · exact absurd (hq1.symm.trans h2) hne
    · exact absurd (hq0.symm.trans h2) hne
  · obtain rfl | rfl | rfl : q = p + 1 ∨ q = p + 2 ∨ q = p + 3 := by omega
    · rcases hqend with ⟨hqlen, -⟩ | ⟨-, hq2, -⟩
      · omega
      · exact absurd (hq2.symm.trans h3) hne
    · exact absurd (hq1.symm.trans h3) hne
    · exact absurd (hq0.symm.trans h3) hne

/-- The loop finds the first slice. -/
theorem firstVcl_spec (buf : List UInt8) (i : ℕ) :
    match firstVcl buf i with
    | some pos => i ≤ pos ∧ VclAt buf pos ∧ ∀ p, i ≤ p → p < pos → ¬ VclAt buf p
    | none => ∀ p, i ≤ p → ¬ VclAt buf p := by
  fun_induction firstVcl buf i with
  | case1 i hin hvcl =>
    rcases findStartCode_spec buf i with ⟨heq, -⟩ | ⟨hle, hlt, hlen, hpos, hnone⟩
    · rw [heq] at hin
      exact absurd hin (lt_irrefl _)
    · refine ⟨hle, ⟨by omega, by omega, ?_⟩, fun p hp hlt' hv => hv.1 (hnone p hp hlt')⟩
      rw [← hlen]
      exact hvcl.2
  | case2 i hin hvcl ih =>
    rcases findStartCode_spec buf i with ⟨heq, -⟩ | ⟨hle, hlt, hlen, hpos, hnone⟩
    · rw [heq] at hin
      exact absurd hin (lt_irrefl _)
    · -- a slice before the next search would be at this start code, or end with it
      have hbefore : ∀ p, i ≤ p → p < (findStartCode buf i).1 + (findStartCode buf i).2 →
          ¬ VclAt buf p := by
        intro p hp hlt' hv
        rw [hlen] at hvcl hlt'
        rcases Nat.lt_or_ge p (findStartCode buf i).1 with hearly | hlate
        · exact hv.1 (hnone p hp hearly)
        · have hsame : p + codeAt buf p =
              (findStartCode buf i).1 + codeAt buf (findStartCode buf i).1 := by
            rcases Nat.eq_or_lt_of_le hlate with heq | hlt''
            · rw [← heq]
            · exact codeAt_inside (by omega) hlt'' hlt' hv.1
          exact hvcl (hsame ▸ hv.2)
      revert ih
      cases firstVcl buf ((findStartCode buf i).1 + (findStartCode buf i).2) with
      | none =>
        intro ih p hp
        rcases Nat.lt_or_ge p ((findStartCode buf i).1 + (findStartCode buf i).2) with
          hearly | hlate
        · exact hbefore p hp hearly
        · exact ih p hlate
      | some pos =>
        rintro ⟨hle', hv, hfirst⟩
        refine ⟨by omega, hv, fun p hp hlt' => ?_⟩
        rcases Nat.lt_or_ge p ((findStartCode buf i).1 + (findStartCode buf i).2) with
          hearly | hlate
        · exact hbefore p hp hearly
        · exact hfirst p hlate hlt'
  | case3 i hin =>
    rcases findStartCode_spec buf i with ⟨-, hnone⟩ | ⟨-, hlt, -⟩
    · exact fun p hp hv => hv.1 (hnone p hp)
    · omega

/-- **Where the SEI goes**: right ahead of the first slice, and nowhere if there is no slice
or no room. -/
theorem timingSeiInsert_spec (buf : List UInt8) (cap : ℕ) (sei : List UInt8) :
    match timingSeiInsert buf cap sei with
    | some out => buf.length + sei.length ≤ cap ∧ ∃ pos, VclAt buf pos ∧
        (∀ p < pos, ¬ VclAt buf p) ∧ out = buf.take pos ++ sei ++ buf.drop pos
    | none => cap < buf.length + sei.length ∨ ∀ p, ¬ VclAt buf p := by
  have hspec := firstVcl_spec buf 0
  rw [timingSeiInsert]
  split_ifs with hroom
  · exact Or.inl hroom
  · revert hspec
    cases firstVcl buf 0 with
    | none => exact fun hspec => Or.inr fun p => hspec p (Nat.zero_le p)
    | some pos =>
      rintro ⟨-, hv, hfirst⟩
      exact ⟨by omega, pos, hv, fun p hp => hfirst p (Nat.zero_le p) hp, rfl⟩

end Ar8030
