import Ar8030Transport.Library.HexText

/-!
# Numbers as decimal text

`decimal` writes an integer as `printf` does for `%d`. `scanDecimal` reads one as `strtol` and
`scanf` do: after white space and with an optional sign, as many digits as there are.

What is written is read back, in front of anything but a further digit (`scanDecimal_decimal`).
`clampLong` is what `strtol` makes of a number too large for its type, `toInt` what is left of it
in 32 bits.
-/

namespace DecimalText

open HexText

/-- The character of a digit. -/
def decDigit (d : ℕ) : UInt8 := UInt8.ofNat (48 + d)

/-- `isdigit`. -/
def isDigit (b : UInt8) : Bool := decide (48 ≤ b ∧ b ≤ 57)

/-- A number without leading zeros. -/
def natural (n : ℕ) : List UInt8 :=
  if n = 0 then [decDigit 0] else ((Nat.digits 10 n).map decDigit).reverse

/-- `%d`. -/
def decimal (z : ℤ) : List UInt8 := (if z < 0 then [45] else []) ++ natural z.natAbs

/-- The value of a row of digits. -/
def digitsValue (ds : List UInt8) : ℕ := Nat.ofDigits 10 (ds.map fun b => b.toNat - 48).reverse

/-- A number, and what follows it. -/
def scanDecimal (l : List UInt8) : Option (ℤ × List UInt8) :=
  let s := scanSign (l.dropWhile isSpace)
  let ds := s.2.takeWhile isDigit
  if ds = [] then none
  else
    some (if s.1 then -(digitsValue ds : ℤ) else digitsValue ds, s.2.drop ds.length)

/-- A number as a `long` of `w` bits holds it after `strtol`. -/
def clampLong (w : ℕ) (z : ℤ) : ℤ := max (-2 ^ (w - 1)) (min z (2 ^ (w - 1) - 1))

/-- A number as an `int` holds it after a conversion. -/
def toInt (z : ℤ) : ℤ := Int.bmod z (2 ^ 32)

/-! ### Digits -/

theorem isDigit_decDigit {d : ℕ} (h : d < 10) :
    isDigit (decDigit d) = true ∧ (decDigit d).toNat - 48 = d := by
  revert d
  decide

/-- A digit is no white space, no sign and no terminator. -/
theorem of_isDigit {b : UInt8} (h : isDigit b = true) :
    isSpace b = false ∧ b ≠ 43 ∧ b ≠ 45 ∧ b ≠ 0 := by
  have hall : ∀ x : BitVec 8, isDigit ⟨x⟩ = true →
      isSpace ⟨x⟩ = false ∧ (⟨x⟩ : UInt8) ≠ 43 ∧ (⟨x⟩ : UInt8) ≠ 45 ∧ (⟨x⟩ : UInt8) ≠ 0 := by
    decide +kernel
  exact hall b.toBitVec h

/-- A number is a row of digits, most significant first. -/
theorem exists_digits (n : ℕ) :
    ∃ ds : List ℕ, ds ≠ [] ∧ (∀ d ∈ ds, d < 10) ∧ natural n = ds.map decDigit ∧
      Nat.ofDigits 10 ds.reverse = n := by
  by_cases h : n = 0
  · exact ⟨[0], by decide, by decide, by rw [natural, if_pos h]; rfl, by rw [h]; rfl⟩
  · refine ⟨(Nat.digits 10 n).reverse, ?_, fun d hd => ?_, ?_, ?_⟩
    · simpa using Nat.digits_ne_nil_iff_ne_zero.mpr h
    · exact Nat.digits_lt_base (by decide) (List.mem_reverse.mp hd)
    · rw [natural, if_neg h, List.map_reverse]
    · rw [List.reverse_reverse, Nat.ofDigits_digits]

theorem natural_ne_nil (n : ℕ) : natural n ≠ [] := by
  obtain ⟨ds, hne, -, heq, -⟩ := exists_digits n
  rw [heq]
  simpa using hne

theorem isDigit_of_mem_natural {n : ℕ} {b : UInt8} (h : b ∈ natural n) : isDigit b = true := by
  obtain ⟨ds, -, hds, heq, -⟩ := exists_digits n
  rw [heq] at h
  obtain ⟨d, hd, rfl⟩ := List.mem_map.mp h
  exact (isDigit_decDigit (hds d hd)).1

/-- The characters of a number: digits, and a minus. -/
theorem of_mem_decimal {z : ℤ} {b : UInt8} (h : b ∈ decimal z) : b = 45 ∨ isDigit b = true := by
  rw [decimal, List.mem_append] at h
  rcases h with h | h
  · split_ifs at h
    · exact Or.inl (List.mem_singleton.mp h)
    · cases h
  · exact Or.inr (isDigit_of_mem_natural h)

theorem decimal_natCast (n : ℕ) : decimal n = natural n := by
  rw [decimal, if_neg (by omega), List.nil_append, Int.natAbs_natCast]

theorem decimal_ne_nil (z : ℤ) : decimal z ≠ [] := by
  rw [decimal]
  exact List.append_ne_nil_of_right_ne_nil _ (natural_ne_nil _)

/-- A number below `10 ^ k` has at most `k` digits. -/
theorem length_natural_le {n k : ℕ} (h : n < 10 ^ k) (hk : 0 < k) : (natural n).length ≤ k := by
  rw [natural]
  split_ifs with hn
  · exact hk
  · rw [List.length_reverse, List.length_map]
    exact (Nat.digits_length_le_iff (by decide) n).mpr h

/-- The value of a row of digits is what they stand for. -/
theorem digitsValue_natural (n : ℕ) : digitsValue (natural n) = n := by
  obtain ⟨ds, -, hds, heq, hval⟩ := exists_digits n
  have hmap : (ds.map decDigit).map (fun b => b.toNat - 48) = ds := by
    rw [List.map_map]
    conv_rhs => rw [← List.map_id ds]
    exact List.map_congr_left fun d hd => (isDigit_decDigit (hds d hd)).2
  rw [digitsValue, heq, hmap, hval]

/-! ### Reading back -/

/-- A text that a number may be followed by. -/
def Ends (rest : List UInt8) : Prop := ∀ b ∈ rest.head?, isDigit b = false

theorem ends_nil : Ends [] := by
  intro b hb
  cases hb

theorem ends_cons {b : UInt8} (hb : isDigit b = false) (l : List UInt8) : Ends (b :: l) := by
  intro c hc
  obtain rfl : b = c := Option.some.inj hc
  exact hb

theorem takeWhile_natural (n : ℕ) {rest : List UInt8} (hrest : Ends rest) :
    (natural n ++ rest).takeWhile isDigit = natural n := by
  rw [List.takeWhile_append_of_pos fun b hb => isDigit_of_mem_natural hb]
  cases rest with
  | nil => exact List.append_nil _
  | cons b rest =>
    rw [List.takeWhile_cons, hrest b rfl]
    exact List.append_nil _

/-- White space in front of a number does not matter. -/
theorem scanDecimal_cons_space {b : UInt8} (hb : isSpace b = true) (l : List UInt8) :
    scanDecimal (b :: l) = scanDecimal l := by
  rw [scanDecimal, scanDecimal, List.dropWhile_cons_of_pos hb]

theorem scanSign_natural (n : ℕ) (rest : List UInt8) :
    scanSign (natural n ++ rest) = (false, natural n ++ rest) := by
  obtain ⟨b, ds, heq⟩ := List.exists_cons_of_ne_nil (natural_ne_nil n)
  have hb : isDigit b = true := by
    refine isDigit_of_mem_natural (n := n) ?_
    rw [heq]
    exact List.mem_cons_self
  obtain ⟨-, hplus, hminus, -⟩ := of_isDigit hb
  refine scanSign_of_ne fun c hc => ?_
  rw [heq] at hc
  obtain rfl : b = c := Option.some.inj hc
  exact ⟨hplus, hminus⟩

/-- No white space stands in front of a number. -/
theorem dropWhile_decimal (z : ℤ) (rest : List UInt8) :
    (decimal z ++ rest).dropWhile isSpace = decimal z ++ rest := by
  obtain ⟨b, ds, heq⟩ := List.exists_cons_of_ne_nil (decimal_ne_nil z)
  have hb : b = 45 ∨ isDigit b = true := by
    refine of_mem_decimal (z := z) ?_
    rw [heq]
    exact List.mem_cons_self
  have hspace : isSpace b = false := by
    rcases hb with rfl | hb
    · rfl
    · exact (of_isDigit hb).1
  rw [heq, List.cons_append, List.dropWhile_cons_of_neg]
  rw [hspace]
  exact Bool.false_ne_true

/-- The sign is read, and the digits are left. -/
theorem scanSign_decimal (z : ℤ) (rest : List UInt8) :
    scanSign (decimal z ++ rest) = (decide (z < 0), natural z.natAbs ++ rest) := by
  rw [decimal]
  split_ifs with hneg
  · rw [decide_eq_true hneg]
    rfl
  · rw [decide_eq_false hneg, List.nil_append, scanSign_natural]

/-- **What is written is read back.** -/
theorem scanDecimal_decimal (z : ℤ) {rest : List UInt8} (hrest : Ends rest) :
    scanDecimal (decimal z ++ rest) = some (z, rest) := by
  rw [scanDecimal, dropWhile_decimal, scanSign_decimal]
  dsimp only
  rw [takeWhile_natural _ hrest, if_neg (natural_ne_nil _), List.drop_left, digitsValue_natural]
  have hz : (if decide (z < 0) = true then -(z.natAbs : ℤ) else z.natAbs) = z := by
    simp only [decide_eq_true_iff]
    split_ifs <;> omega
  rw [hz]

theorem scanDecimal_decimal_nil (z : ℤ) : scanDecimal (decimal z) = some (z, []) := by
  have h := scanDecimal_decimal z ends_nil
  rwa [List.append_nil] at h

/-! ### Conversions -/

/-- A number that fits is not changed. -/
theorem clampLong_of_lt {w : ℕ} {z : ℤ} (hlo : -2 ^ (w - 1) ≤ z) (hhi : z < 2 ^ (w - 1)) :
    clampLong w z = z := by
  rw [clampLong, min_eq_left (by omega), max_eq_right hlo]

theorem toInt_of_lt {z : ℤ} (hlo : -2 ^ 31 ≤ z) (hhi : z < 2 ^ 31) : toInt z = z := by
  rw [toInt, Int.bmod_eq_of_le] <;> omega

end DecimalText
