import Mathlib.Data.Nat.Notation
import Mathlib.Data.List.Lemmas

/-!
# Strings in JSON

What stands between the quotes of a string: a character for itself, or a backslash and a letter for
one that may not stand there. `readString` reads up to the closing quote. `\uXXXX` is not among the
escapes here.

A text made of texts of its characters is read as these (`IsText.readString_eq`).
-/

namespace JsonText

/-- The letter behind a backslash, and the character it stands for. -/
def escapes : List (UInt8 × UInt8) :=
  [(34, 34), (92, 92), (47, 47), (98, 8), (102, 12), (110, 10), (114, 13), (116, 9)]

/-- A string up to its closing quote, and what follows it; behind a backslash if `escaped`. A
control character may not stand in it. -/
def readFrom : Bool → List UInt8 → Option (List UInt8 × List UInt8)
  | _, [] => none
  | true, c :: rest =>
    (escapes.lookup c).bind fun b => (readFrom false rest).map fun r => (b :: r.1, r.2)
  | false, b :: rest =>
    if b = 34 then some ([], rest)
    else if b = 92 then readFrom true rest
    else if b < 32 then none
    else (readFrom false rest).map fun r => (b :: r.1, r.2)

/-- A string from behind its opening quote. -/
def readString (l : List UInt8) : Option (List UInt8 × List UInt8) := readFrom false l

/-- `l` is a text of the characters `v`. -/
def IsText (v l : List UInt8) : Prop :=
  ∀ rest, readString (l ++ rest) = (readString rest).map fun r => (v ++ r.1, r.2)

theorem isText_nil : IsText [] [] := fun rest => by simp

/-- A character for itself. -/
theorem isText_self {b : UInt8} (hquote : b ≠ 34) (hbackslash : b ≠ 92) (hcontrol : 32 ≤ b) :
    IsText [b] [b] := by
  intro rest
  rw [List.singleton_append, readString, readFrom, if_neg hquote, if_neg hbackslash,
    if_neg (UInt8.not_lt.mpr hcontrol)]
  rfl

/-- A backslash and a letter. -/
theorem isText_escape {b c : UInt8} (h : escapes.lookup c = some b) : IsText [b] [92, c] := by
  intro rest
  rw [List.cons_append, List.singleton_append, readString, readFrom, if_neg (by decide), if_pos rfl,
    readFrom, h]
  rfl

theorem IsText.append {v v' l l' : List UInt8} (h : IsText v l) (h' : IsText v' l') :
    IsText (v ++ v') (l ++ l') := by
  intro rest
  rw [List.append_assoc, h, h']
  cases readString rest with
  | none => rfl
  | some r => exact congrArg some (Prod.ext (List.append_assoc ..).symm rfl)

/-- Character by character. -/
theorem isText_flatMap {value text : UInt8 → List UInt8} (h : ∀ b, IsText (value b) (text b))
    (l : List UInt8) : IsText (l.flatMap value) (l.flatMap text) := by
  induction l with
  | nil => exact isText_nil
  | cons b l ih => exact (h b).append ih

/-- In front of the closing quote all of it is read. -/
theorem IsText.readString_eq {v l : List UInt8} (h : IsText v l) (rest : List UInt8) :
    readString (l ++ 34 :: rest) = some (v, rest) := by
  rw [h, readString, readFrom, if_pos rfl]
  exact congrArg some (Prod.ext (List.append_nil _) rfl)

end JsonText
