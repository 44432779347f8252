import Ar8030Transport.H265.NalInsert

/-!
# Where the two scanners agree

`next_nal` is meant to return 0 when no more NAL units remain, but it does so at an empty
one too, wherever that is. `timing_sei_insert` goes on behind an empty NAL unit, and even
takes the first zero of the start code behind it for the header of a slice. `ScannersMeet`
is the exact condition under which this makes no difference.
-/

namespace Ar8030

/-! ### Lists -/

/-- Dropping behind the first failure is dropping every failure when none is followed by a
success. -/
theorem takeWhile_eq_filter_iff {α : Type*} {p : α → Bool} {l : List α} :
    l.takeWhile p = l.filter p ↔ l.Pairwise fun a b => p b = true → p a = true := by
  induction l with
  | nil => simp
  | cons a l ih =>
    rw [List.takeWhile_cons, List.filter_cons, List.pairwise_cons]
    by_cases ha : p a = true
    · simp [ha, ih]
    · rw [if_neg ha, if_neg ha]
      constructor
      · intro h
        have hnone := List.filter_eq_nil_iff.mp h.symm
        refine ⟨fun b hb hpb => absurd hpb (hnone b hb), ?_⟩
        exact List.pairwise_of_forall_mem_list fun b _ c hc hpc => absurd hpc (hnone c hc)
      · rintro ⟨hnone, -⟩
        exact (List.filter_eq_nil_iff.mpr fun b hb hpb => ha (hnone b hb hpb)).symm

/-- The table takes the first `n` NAL units visited. -/
theorem collectNals_eq_take (data : List UInt8) (n cursor : ℕ) :
    collectNals data n cursor = (visitNals data cursor).take n := by
  induction n generalizing cursor with
  | zero => rfl
  | succ n ih =>
    rw [collectNals]
    cases hnext : nextNal data cursor with
    | none => rw [visitNals_of_none hnext, List.take_nil]
    | some s => rw [visitNals_of_some hnext, List.take_succ_cons, ← ih]

/-! ### Empty NAL units -/

section Agreement

variable {buf : List UInt8} {p : ℕ}

/-- The start code at `p` is followed by the next one at once. -/
def Adjoining (buf : List UInt8) (p : ℕ) : Prop :=
  codeAt buf p ≠ 0 ∧ codeAt buf (p + codeAt buf p) ≠ 0

instance (buf : List UInt8) (p : ℕ) : Decidable (Adjoining buf p) :=
  inferInstanceAs (Decidable (_ ∧ _))

/-- From the first two adjoining start codes on there is nothing but start codes, and then
there is a slice somewhere. -/
structure ScannersMeet (buf : List UInt8) : Prop where
  trailing : ∀ p q, Adjoining buf p → p ≤ q → codeAt buf q ≠ 0 →
    q + codeAt buf q = buf.length ∨ Adjoining buf q
  slice : ∀ p, Adjoining buf p → ∃ v, VclAt buf v ∧ ¬ Adjoining buf v

/-- What the scanners are expected to agree on: the NAL units, whether there is a slice, and
after a timing SEI has gone in that all NAL units are handed on, the SEI among them. -/
structure ScannersAgree (buf : List UInt8) : Prop where
  nals : visitNals buf 0 = (scNals buf 0).filter NalSpan.nonempty
  slice : ∀ (cap : ℕ) (sei : List UInt8), buf.length + sei.length ≤ cap →
    (hasVcl buf = true ↔ (timingSeiInsert buf cap sei).isSome = true)
  placed : ∀ (t : TimingSeiV1) (cap : ℕ) (out : List UInt8),
    timingSeiInsert buf cap (timingSeiBuild t) = some out →
      ((scNals out 0).filter NalSpan.nonempty).length ≤ 256 →
      collectNals out 256 0 = (scNals out 0).filter NalSpan.nonempty ∧
        ∃ s ∈ collectNals out 256 0, s.bytes out = (timingSeiBuild t).drop 4

/-- The byte behind a start code that adjoins the next passes for a slice's header. -/
theorem Adjoining.vclAt (h : Adjoining buf p) : VclAt buf p := by
  have hlt := two_lt_of_codeAt h.2
  obtain ⟨h0, -, -⟩ := bytes_of_codeAt h.2
  refine ⟨h.1, by omega, ?_⟩
  rw [h0]
  decide

theorem nonempty_spanAt_iff (hcode : codeAt buf p ≠ 0) : (spanAt buf p).nonempty = true ↔
    p + codeAt buf p ≠ buf.length ∧ ¬ Adjoining buf p := by
  rw [NalSpan.nonempty, bne_iff_ne, ne_eq, len_spanAt_eq_zero_iff hcode, not_or, Adjoining]
  exact and_congr_right fun _ => ⟨fun h hadj => h hadj.2, fun h hnext => h ⟨hcode, hnext⟩⟩

/-! ### The NAL units -/

/-- The order of the NAL units is that of their offsets. -/
theorem pairwise_scNals_iff {R : NalSpan → NalSpan → Prop} : (scNals buf 0).Pairwise R ↔
    ∀ s ∈ scNals buf 0, ∀ s' ∈ scNals buf 0, s.start < s'.start → R s s' := by
  have hsorted := pairwise_scNals buf 0
  constructor
  · intro h s hs s' hs' hlt
    obtain ⟨i, hi, rfl⟩ := List.mem_iff_getElem.mp hs
    obtain ⟨j, hj, rfl⟩ := List.mem_iff_getElem.mp hs'
    rcases Nat.lt_trichotomy i j with hij | rfl | hji
    · exact List.pairwise_iff_getElem.mp h i j hi hj hij
    · exact absurd hlt (lt_irrefl _)
    · exact absurd hlt (List.pairwise_iff_getElem.mp hsorted j i hj hi hji).asymm
  · intro h
    exact hsorted.imp_of_mem fun {s s'} hs hs' hlt => h s hs s' hs' hlt

/-- **Both scanners find the same NAL units** exactly when behind two adjoining start codes
there are only start codes. -/
theorem visitNals_eq_filter_iff : visitNals buf 0 = (scNals buf 0).filter NalSpan.nonempty ↔
    ∀ p q, Adjoining buf p → p ≤ q → codeAt buf q ≠ 0 →
      q + codeAt buf q = buf.length ∨ Adjoining buf q := by
  rw [visitNals_eq_takeWhile, takeWhile_eq_filter_iff, pairwise_scNals_iff]
  constructor
  · intro h p q hadj hle hq
    by_contra hne
    rw [not_or] at hne
    have hout : p + codeAt buf p ≤ q := by
      by_contra hin
      rcases Nat.eq_or_lt_of_le hle with rfl | hlt
      · exact hne.2 hadj
      · have hsame := codeAt_inside hadj.1 hlt (by omega) hq
        exact hne.2 ⟨hq, by rw [hsame]; exact hadj.2⟩
    have hlt : (spanAt buf p).start < (spanAt buf q).start := by
      have hpos := three_le_codeAt hq
      simp only [spanAt]
      omega
    have hfull := h _ (spanAt_mem_scNals (Nat.zero_le p) hadj.1) _
      (spanAt_mem_scNals (Nat.zero_le q) hq) hlt ((nonempty_spanAt_iff hq).mpr hne)
    exact ((nonempty_spanAt_iff hadj.1).mp hfull).2 hadj
  · intro h s hs s' hs' hlt hfull
    obtain ⟨p, -, hp, rfl⟩ := exists_of_mem_scNals hs
    obtain ⟨q, -, hq, rfl⟩ := exists_of_mem_scNals hs'
    rw [nonempty_spanAt_iff hq] at hfull
    rw [nonempty_spanAt_iff hp]
    have hle := codeAt_add_le hq
    simp only [spanAt] at hlt
    refine ⟨by omega, fun hadj => ?_⟩
    have hpq : p ≤ q := by
      by_contra hgt
      rcases Nat.lt_or_ge p (q + codeAt buf q) with hin | hout
      · have hsame := codeAt_inside hq (by omega) hin hp
        omega
      · omega
    rcases h p q hadj hpq hq with hend | hadj'
    · exact hfull.1 hend
    · exact hfull.2 hadj'

/-! ### The slice -/

theorem isSome_timingSeiInsert {cap : ℕ} {sei : List UInt8}
    (hroom : buf.length + sei.length ≤ cap) :
    (timingSeiInsert buf cap sei).isSome = true ↔ ∃ p, VclAt buf p := by
  rw [timingSeiInsert, if_neg (by omega), Option.isSome_map, isSome_firstVcl, List.any_eq_true]
  constructor
  · rintro ⟨s, hs, hslice⟩
    obtain ⟨p, -, hcode, rfl⟩ := exists_of_mem_scNals hs
    exact ⟨p, (vclAt_iff_isSlice hcode).mpr hslice⟩
  · rintro ⟨p, hv⟩
    exact ⟨spanAt buf p, spanAt_mem_scNals (Nat.zero_le p) hv.1, (vclAt_iff_isSlice hv.1).mp hv⟩

/-- Where the scanners find the same NAL units, `rtp_h265_has_vcl` asks for a slice that is
not empty. -/
theorem hasVcl_iff (hnals : visitNals buf 0 = (scNals buf 0).filter NalSpan.nonempty) :
    hasVcl buf = true ↔ ∃ p, VclAt buf p ∧ ¬ Adjoining buf p := by
  rw [hasVcl, hasVclFrom_eq_any, hnals, List.any_eq_true]
  constructor
  · rintro ⟨s, hs, hslice⟩
    obtain ⟨hs, hfull⟩ := List.mem_filter.mp hs
    obtain ⟨p, -, hcode, rfl⟩ := exists_of_mem_scNals hs
    exact ⟨p, (vclAt_iff_isSlice hcode).mpr hslice, ((nonempty_spanAt_iff hcode).mp hfull).2⟩
  · rintro ⟨p, hv, hadj⟩
    have hlt := hv.2.1
    refine ⟨spanAt buf p, List.mem_filter.mpr ⟨spanAt_mem_scNals (Nat.zero_le p) hv.1, ?_⟩,
      (vclAt_iff_isSlice hv.1).mp hv⟩
    exact (nonempty_spanAt_iff hv.1).mpr ⟨by omega, hadj⟩

/-! ### The timing SEI -/

/-- Ahead of the first slice there is no empty NAL unit. -/
theorem nonempty_of_before {pos : ℕ} (hv : VclAt buf pos) (hfirst : ∀ p < pos, ¬ VclAt buf p)
    {s : NalSpan} (hs : s ∈ scNals buf 0) (hle : s.cursor ≤ pos) : s.nonempty = true := by
  obtain ⟨p, -, hcode, rfl⟩ := exists_of_mem_scNals hs
  have hlt := two_lt_of_codeAt hv.1
  have h3 := three_le_codeAt hcode
  simp only [NalSpan.cursor, spanAt] at hle
  refine (nonempty_spanAt_iff hcode).mpr ⟨by omega, fun hadj => ?_⟩
  exact hfirst p (by omega) hadj.vclAt

/-- Putting the timing SEI in keeps the scanners together. -/
theorem placed_of_nals (h : visitNals buf 0 = (scNals buf 0).filter NalSpan.nonempty)
    {t : TimingSeiV1} {cap : ℕ} {out : List UInt8}
    (hout : timingSeiInsert buf cap (timingSeiBuild t) = some out) :
    visitNals out 0 = (scNals out 0).filter NalSpan.nonempty ∧
      ∃ s ∈ (scNals out 0).filter NalSpan.nonempty, s.bytes out = (timingSeiBuild t).drop 4 := by
  have hspec := timingSeiInsert_spec buf cap (timingSeiBuild t)
  rw [hout] at hspec
  obtain ⟨-, pos, hv, hfirst, rfl⟩ := hspec
  have hboundary := nalBoundary_of_first hv hfirst
  have hbuild : StartCode.long.bytes ++ (seiUnit t 39 (by decide)).bytes = timingSeiBuild t := rfl
  obtain ⟨hbefore, hbuf⟩ := hboundary.scNals_take
  have hnew := hboundary.scNals_insert (seiUnit t 39 (by decide))
  have hbytes := hboundary.bytes_insertAt (seiUnit t 39 (by decide))
  rw [hbuild, insertAt] at hnew hbytes
  have hsei : NalSpan.nonempty ⟨pos + 4, (seiUnit t 39 (by decide)).bytes.length⟩ = true := by
    rw [NalSpan.nonempty, bne_iff_ne]
    exact Nat.ne_of_gt
      (Nat.lt_of_lt_of_le Nat.zero_lt_two (seiUnit t 39 (by decide)).two_le_length)
  have hfull : ∀ s ∈ scNals (buf.take pos) 0, s.nonempty = true := fun s hs =>
    nonempty_of_before hv hfirst (by rw [hbuf]; exact List.mem_append_left _ hs) (hbefore s hs)
  rw [visitNals_eq_takeWhile, takeWhile_eq_filter_iff, hbuf, List.pairwise_append,
    List.pairwise_map] at h
  refine ⟨?_, ⟨pos + 4, _⟩, List.mem_filter.mpr ⟨?_, hsei⟩, hbytes⟩
  · rw [visitNals_eq_takeWhile, takeWhile_eq_filter_iff, hnew, List.pairwise_append,
      List.pairwise_cons, List.pairwise_map]
    exact ⟨h.1, ⟨fun _ _ _ => hsei, h.2.1⟩, fun s hs _ _ _ => hfull s hs⟩
  · rw [hnew]
    exact List.mem_append_right _ List.mem_cons_self

/-- **The two scanners agree** exactly when there is nothing but start codes behind two
adjoining ones, and then a slice in front of them. -/
theorem scanners_agree_iff (buf : List UInt8) : ScannersAgree buf ↔ ScannersMeet buf := by
  constructor
  · intro h
    refine ⟨visitNals_eq_filter_iff.mp h.nals, fun p hadj => ?_⟩
    have hroom : buf.length + ([] : List UInt8).length ≤ buf.length := le_rfl
    have hslice := h.slice buf.length [] hroom
    rw [isSome_timingSeiInsert hroom, hasVcl_iff h.nals] at hslice
    exact hslice.mpr ⟨p, hadj.vclAt⟩
  · intro h
    have hnals := visitNals_eq_filter_iff.mpr h.trailing
    refine ⟨hnals, fun cap sei hroom => ?_, fun t cap out hout hmany => ?_⟩
    · rw [isSome_timingSeiInsert hroom, hasVcl_iff hnals]
      constructor
      · rintro ⟨p, hv, -⟩
        exact ⟨p, hv⟩
      · rintro ⟨p, hv⟩
        by_cases hadj : Adjoining buf p
        · exact h.slice p hadj
        · exact ⟨p, hv, hadj⟩
    · obtain ⟨hvisit, s, hs, hbytes⟩ := placed_of_nals hnals hout
      have hcollect : collectNals out 256 0 = (scNals out 0).filter NalSpan.nonempty := by
        rw [collectNals_eq_take, hvisit, List.take_of_length_le hmany]
      exact ⟨hcollect, s, hcollect ▸ hs, hbytes⟩

end Agreement

/-- A slice behind two adjoining start codes: `next_nal` visits nothing. -/
theorem not_scannersAgree_adjoining : ¬ ScannersAgree [0, 0, 1, 0, 0, 1, 0x26, 0x01, 0xAF] := by
  intro h
  rcases visitNals_eq_filter_iff.mp h.nals 0 3 (by decide) (by decide) (by decide) with hend | hadj
  · exact absurd hend (by decide)
  · exact absurd hadj (by decide)

end Ar8030
