import Ar8030Transport.Library.HexText

/-!
# Form-encoded text

The text that stands for a list of keys and values in the query of a URL: `key=value`, joined by
`&`. `QueryText ps l` says that `l` is such a text of `ps`. In a value a byte stands for itself, a
`+` for a space, and `%` with two hexadecimal digits, in either case, for any byte.

There may be more than one text of a list. No text of a value has a `&` in it
(`ValueText.amp_notMem`), and no text has a zero in it (`QueryText.zero_notMem`).
-/

namespace FormText

open HexText

/-- A character of the digit `d < 16`, in lower or upper case. -/
def IsHexDigit (d : ℕ) (c : UInt8) : Prop :=
  c = hexDigit d ∨ c = if d < 10 then UInt8.ofNat (48 + d) else UInt8.ofNat (55 + d)

theorem IsHexDigit.spec {d : ℕ} {c : UInt8} (h : IsHexDigit d c) (hd : d < 16) :
    hexVal c = some d ∧ c ≠ 38 ∧ c ≠ 0 := by
  have hlower : ∀ d < 16, hexVal (hexDigit d) = some d ∧ hexDigit d ≠ 38 ∧ hexDigit d ≠ 0 := by
    decide
  have hletter : ∀ d < 16, ¬ d < 10 → hexVal (UInt8.ofNat (55 + d)) = some d ∧
      UInt8.ofNat (55 + d) ≠ 38 ∧ UInt8.ofNat (55 + d) ≠ 0 := by decide
  rcases h with rfl | rfl
  · exact hlower d hd
  · split_ifs with hdigit
    · -- below 10 there is only one case
      have heq : UInt8.ofNat (48 + d) = hexDigit d := (if_pos hdigit).symm
      rw [heq]
      exact hlower d hd
    · exact hletter d hd hdigit

/-- A text of one byte of a value. -/
inductive ByteText : UInt8 → List UInt8 → Prop
  | self {b : UInt8} (hamp : b ≠ 38) (hpercent : b ≠ 37) (hplus : b ≠ 43) : ByteText b [b]
  | space : ByteText 32 [43]
  | escape {b hi lo : UInt8} (hhi : IsHexDigit (b.toNat / 16) hi)
      (hlo : IsHexDigit (b.toNat % 16) lo) : ByteText b [37, hi, lo]

/-- A text of a value. -/
inductive ValueText : List UInt8 → List UInt8 → Prop
  | nil : ValueText [] []
  | cons {b : UInt8} {bs l ls : List UInt8} (hb : ByteText b l) (hbs : ValueText bs ls) :
      ValueText (b :: bs) (l ++ ls)

/-- A key: it is written as it is. -/
structure Key where
  bytes : List UInt8
  amp_notMem : 38 ∉ bytes
  eq_notMem : 61 ∉ bytes
  zero_notMem : 0 ∉ bytes
  deriving DecidableEq

/-- A key and its value. -/
structure Pair where
  key : Key
  value : List UInt8
  zero_notMem : 0 ∉ value

/-- A text of a list of keys and values. -/
inductive QueryText : List Pair → List UInt8 → Prop
  | nil : QueryText [] []
  /-- One more `&`. -/
  | amp {ps : List Pair} {l : List UInt8} (h : QueryText ps l) : QueryText ps (38 :: l)
  | last {p : Pair} {v : List UInt8} (hv : ValueText p.value v) :
      QueryText [p] (p.key.bytes ++ 61 :: v)
  | cons {p : Pair} {ps : List Pair} {v l : List UInt8} (hv : ValueText p.value v)
      (h : QueryText ps l) : QueryText (p :: ps) (p.key.bytes ++ 61 :: (v ++ 38 :: l))

/-! ### What does not occur -/

theorem ByteText.notMem {b : UInt8} {l : List UInt8} (h : ByteText b l) :
    38 ∉ l ∧ (b ≠ 0 → 0 ∉ l) := by
  cases h with
  | self hamp =>
    simp only [List.mem_singleton]
    exact ⟨hamp.symm, Ne.symm⟩
  | space => simp
  | escape hhi hlo =>
    obtain ⟨-, hi, hi0⟩ := hhi.spec (Nat.div_lt_of_lt_mul b.toNat_lt)
    obtain ⟨-, lo, lo0⟩ := hlo.spec (Nat.mod_lt _ (by decide))
    simp only [List.mem_cons, List.not_mem_nil, or_false, not_or]
    exact ⟨⟨by decide, hi.symm, lo.symm⟩, fun _ => ⟨by decide, hi0.symm, lo0.symm⟩⟩

theorem ValueText.amp_notMem {bs l : List UInt8} (h : ValueText bs l) : 38 ∉ l := by
  induction h with
  | nil => simp
  | cons hb _ ih =>
    rw [List.mem_append, not_or]
    exact ⟨hb.notMem.1, ih⟩

theorem ValueText.zero_notMem {bs l : List UInt8} (h : ValueText bs l) (hbs : 0 ∉ bs) :
    0 ∉ l := by
  induction h with
  | nil => simp
  | cons hb _ ih =>
    rw [List.mem_cons, not_or] at hbs
    rw [List.mem_append, not_or]
    exact ⟨hb.notMem.2 (Ne.symm hbs.1), ih hbs.2⟩

/-- A text is a string. -/
theorem QueryText.zero_notMem {ps : List Pair} {l : List UInt8} (h : QueryText ps l) :
    0 ∉ l := by
  induction h with
  | nil => simp
  | amp _ ih => simpa using ih
  | @last p v hv => simp [p.key.zero_notMem, hv.zero_notMem p.zero_notMem]
  | @cons p ps v l hv _ ih => simp [p.key.zero_notMem, hv.zero_notMem p.zero_notMem, ih]

end FormText
