import Mathlib.Data.List.DropRight
import Mathlib.Data.Nat.Digits.Lemmas

/-!
# Numbers as hexadecimal text

`hex` writes a number as `printf` does for `%x`. `scanHex` reads one as `scanf` does: after white
space and with an optional sign and `0x` in front, as many digits as there are.

What is written is read back, in front of anything that does not look like a further digit or
the `x` of a prefix (`scanHex_hex`). `length_hex_le` bounds the digits of a number.
-/

namespace HexText

/-- The character of a digit. -/
def hexDigit (d : ℕ) : UInt8 := if d < 10 then UInt8.ofNat (48 + d) else UInt8.ofNat (87 + d)

/-- The digit of a character, in either case. -/
def hexVal (b : UInt8) : Option ℕ :=
  if 48 ≤ b ∧ b ≤ 57 then some (b.toNat - 48)
  else if 97 ≤ b ∧ b ≤ 102 then some (b.toNat - 87)
  else if 65 ≤ b ∧ b ≤ 70 then some (b.toNat - 55)
  else none

/-- A number without leading zeros. -/
def hex (n : ℕ) : List UInt8 :=
  if n = 0 then [hexDigit 0] else ((Nat.digits 16 n).map hexDigit).reverse

/-- `isspace`. -/
def isSpace (b : UInt8) : Bool := b == 32 || decide (9 ≤ b ∧ b ≤ 13)

/-- An optional sign; whether it is a minus. -/
def scanSign : List UInt8 → Bool × List UInt8
  | 43 :: l => (false, l)
  | 45 :: l => (true, l)
  | l => (false, l)

/-- An optional `0x`. -/
def scanPrefix : List UInt8 → List UInt8
  | 48 :: 120 :: l => l
  | 48 :: 88 :: l => l
  | l => l

/-- The value of a row of digits. -/
def digitsVal (ds : List UInt8) : ℕ := Nat.ofDigits 16 (ds.map fun b => (hexVal b).getD 0).reverse

/-- A number, whether it has a minus, and what follows it. -/
def scanHex (l : List UInt8) : Option ((Bool × ℕ) × List UInt8) :=
  let s := scanSign (l.dropWhile isSpace)
  let l := scanPrefix s.2
  let ds := l.takeWhile fun b => (hexVal b).isSome
  if ds = [] then none else some ((s.1, digitsVal ds), l.drop ds.length)

/-! ### Digits -/

theorem hexVal_hexDigit {d : ℕ} (h : d < 16) : hexVal (hexDigit d) = some d := by
  revert d
  decide

/-- A character that starts neither white space nor a sign. -/
theorem isSpace_hexDigit {d : ℕ} (h : d < 16) :
    isSpace (hexDigit d) = false ∧ hexDigit d ≠ 43 ∧ hexDigit d ≠ 45 ∧ hexDigit d ≠ 120 ∧
      hexDigit d ≠ 88 := by
  revert d
  decide

/-- A number is a row of digits, most significant first. -/
theorem exists_digits (n : ℕ) :
    ∃ ds : List ℕ, ds ≠ [] ∧ (∀ d ∈ ds, d < 16) ∧ hex n = ds.map hexDigit ∧
      Nat.ofDigits 16 ds.reverse = n := by
  by_cases h : n = 0
  · -- `Nat.digits` of 0 is empty
    exact ⟨[0], by decide, by decide, by rw [hex, if_pos h]; rfl, by rw [h]; rfl⟩
  · refine ⟨(Nat.digits 16 n).reverse, ?_, fun d hd => ?_, ?_, ?_⟩
    · simpa using Nat.digits_ne_nil_iff_ne_zero.mpr h
    · exact Nat.digits_lt_base (by decide) (List.mem_reverse.mp hd)
    · rw [hex, if_neg h, List.map_reverse]
    · rw [List.reverse_reverse, Nat.ofDigits_digits]

/-- No terminator stands in a number. -/
theorem zero_notMem_hex (n : ℕ) : 0 ∉ hex n := by
  obtain ⟨ds, -, hds, hhex, -⟩ := exists_digits n
  have hne : ∀ d < 16, hexDigit d ≠ 0 := by decide
  rw [hhex, List.mem_map]
  rintro ⟨d, hd, h0⟩
  exact hne d (hds d hd) h0

/-- A number below `16 ^ k` has at most `k` digits. -/
theorem length_hex_le {n k : ℕ} (h : n < 16 ^ k) (hk : 0 < k) : (hex n).length ≤ k := by
  rw [hex]
  split_ifs with hn
  · exact hk
  · rw [List.length_reverse, List.length_map]
    exact (Nat.digits_length_le_iff (by decide) n).mpr h

/-! ### Reading back -/

/-- White space in front of a number does not matter. -/
theorem scanHex_cons_space (l : List UInt8) : scanHex (32 :: l) = scanHex l := by
  rw [scanHex, scanHex, List.dropWhile_cons_of_pos rfl]

theorem scanHex_dropWhile (l : List UInt8) : scanHex (l.dropWhile isSpace) = scanHex l := by
  rw [scanHex, scanHex, List.dropWhile_idempotent]

/-- A text that a number may be followed by: nothing, or white space first. -/
def Ends (rest : List UInt8) : Prop := ∀ b ∈ rest.head?, isSpace b = true

theorem ends_nil : Ends [] := nofun

theorem ends_space (l : List UInt8) : Ends (32 :: l) := by
  intro b hb
  obtain rfl : 32 = b := Option.some.inj hb
  rfl

theorem hexVal_of_isSpace {b : UInt8} (h : isSpace b = true) :
    hexVal b = none ∧ b ≠ 48 ∧ b ≠ 120 ∧ b ≠ 88 := by
  have hall : ∀ x : BitVec 8, isSpace ⟨x⟩ = true →
      hexVal ⟨x⟩ = none ∧ (⟨x⟩ : UInt8) ≠ 48 ∧ (⟨x⟩ : UInt8) ≠ 120 ∧ (⟨x⟩ : UInt8) ≠ 88 := by
    decide +kernel
  exact hall b.toBitVec h

theorem takeWhile_digits {ds : List ℕ} (hds : ∀ d ∈ ds, d < 16) {rest : List UInt8}
    (hrest : Ends rest) :
    (ds.map hexDigit ++ rest).takeWhile (fun b => (hexVal b).isSome) = ds.map hexDigit := by
  induction ds with
  | nil =>
    cases rest with
    | nil => rfl
    | cons b rest =>
      have hb := (hexVal_of_isSpace (hrest b rfl)).1
      rw [List.map_nil, List.nil_append, List.takeWhile_cons, hb]
      rfl
  | cons d ds ih =>
    rw [List.map_cons, List.cons_append, List.takeWhile_cons,
      hexVal_hexDigit (hds d List.mem_cons_self)]
    exact congrArg _ (ih fun e he => hds e (List.mem_cons_of_mem d he))

theorem digitsVal_map {ds : List ℕ} (hds : ∀ d ∈ ds, d < 16) :
    digitsVal (ds.map hexDigit) = Nat.ofDigits 16 ds.reverse := by
  have hmap : (ds.map hexDigit).map (fun b => (hexVal b).getD 0) = ds := by
    rw [List.map_map]
    conv_rhs => rw [← List.map_id ds]
    exact List.map_congr_left fun d hd => by
      rw [Function.comp_apply, hexVal_hexDigit (hds d hd)]
      rfl
  rw [digitsVal, hmap]

theorem scanPrefix_of_ne {l : List UInt8}
    (h : ∀ b l', l = 48 :: b :: l' → b ≠ 120 ∧ b ≠ 88) : scanPrefix l = l := by
  rw [scanPrefix.eq_def]
  split
  · exact absurd rfl (h _ _ rfl).1
  · exact absurd rfl (h _ _ rfl).2
  · rfl

/-- No `0x` is seen at the start of a number that is written without it. -/
theorem scanPrefix_digits {ds : List ℕ} (hds : ∀ d ∈ ds, d < 16) {rest : List UInt8}
    (hrest : Ends rest) : scanPrefix (ds.map hexDigit ++ rest) = ds.map hexDigit ++ rest := by
  refine scanPrefix_of_ne fun b l' heq => ?_
  -- only a 0 on its own starts with 0, and white space or nothing follows it
  match ds, hds, heq with
  | [], _, heq =>
    have hhead : rest.head? = some 48 := congrArg List.head? heq
    exact absurd rfl (hexVal_of_isSpace (hrest 48 hhead)).2.1
  | [_], _, heq =>
    have hhead : rest.head? = some b := congrArg List.head? (List.cons.inj heq).2
    exact (hexVal_of_isSpace (hrest b hhead)).2.2
  | _ :: e :: _, hds, heq =>
    have hb : hexDigit e = b := (List.cons.inj (List.cons.inj heq).2).1
    have he := isSpace_hexDigit (hds e (List.mem_cons_of_mem _ List.mem_cons_self))
    exact hb ▸ he.2.2.2

theorem scanSign_of_ne {l : List UInt8} (h : ∀ b ∈ l.head?, b ≠ 43 ∧ b ≠ 45) :
    scanSign l = (false, l) := by
  rw [scanSign.eq_def]
  split
  · exact absurd rfl (h _ rfl).1
  · exact absurd rfl (h _ rfl).2
  · rfl

/-- **What is written is read back.** -/
theorem scanHex_hex (n : ℕ) {rest : List UInt8} (hrest : Ends rest) :
    scanHex (hex n ++ rest) = some ((false, n), rest) := by
  obtain ⟨ds, hne, hds, hhex, hval⟩ := exists_digits n
  have hspace : (ds.map hexDigit ++ rest).dropWhile isSpace = ds.map hexDigit ++ rest := by
    obtain ⟨d, ds', rfl⟩ := List.exists_cons_of_ne_nil hne
    rw [List.map_cons, List.cons_append, List.dropWhile_cons_of_neg]
    rw [(isSpace_hexDigit (hds d List.mem_cons_self)).1]
    exact Bool.false_ne_true
  have hsign : scanSign (ds.map hexDigit ++ rest) = (false, ds.map hexDigit ++ rest) := by
    obtain ⟨d, ds', rfl⟩ := List.exists_cons_of_ne_nil hne
    refine scanSign_of_ne fun b hb => ?_
    obtain rfl : hexDigit d = b := Option.some.inj hb
    obtain ⟨-, hplus, hminus, -⟩ := isSpace_hexDigit (hds d List.mem_cons_self)
    exact ⟨hplus, hminus⟩
  rw [scanHex, hhex, hspace, hsign]
  dsimp only
  rw [scanPrefix_digits hds hrest, takeWhile_digits hds hrest, digitsVal_map hds, hval,
    if_neg (by simpa using hne), List.drop_left]

end HexText
