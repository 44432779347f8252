import Ar8030Transport.Library.HexText
import Ar8030Transport.Lifecycled.Peers

/-!
# The text of `ar8030.peers`

One MAC a line, in eight hex digits: `peers_save` writes such a file, and `lc_peers_load` reads
the lines of any file with `fgets` and skips those that are no MAC.

What is saved is loaded again (`lcPeersLoadText_peersText`).
-/

namespace Ar8030

open HexText

/-! ### MACs as text -/

/-- A byte in two digits: `%02x`. -/
def byteHex (b : UInt8) : List UInt8 := [hexDigit (b.toNat / 16), hexDigit (b.toNat % 16)]

/-- `mac_hex`. -/
def macHex (mac : BbMac) : List UInt8 :=
  byteHex mac.a ++ (byteHex mac.b ++ (byteHex mac.c ++ byteHex mac.d))

/-- `%2x`: a number in at most two characters. -/
def scanByte (l : List UInt8) : Option (ℕ × List UInt8) :=
  let l := l.dropWhile isSpace
  (scanHex (l.take 2)).map fun r =>
    (if r.1.1 then (2 ^ 32 - r.1.2) % 2 ^ 32 else r.1.2, r.2 ++ l.drop 2)

/-- `mac_parse`. -/
def macParse (hex : List UInt8) : Option BbMac :=
  if hex.length ≠ 8 then none
  else do
    let (a, l) ← scanByte hex
    let (b, l) ← scanByte l
    let (c, l) ← scanByte l
    let (d, _) ← scanByte l
    return ⟨.ofNat a, .ofNat b, .ofNat c, .ofNat d⟩

/-! ### Lines -/

/-- `fgets` into `cap` bytes: the line and what is left of the file. -/
def fgets (cap : ℕ) (text : List UInt8) : List UInt8 × List UInt8 :=
  let body := (text.take (cap - 1)).takeWhile (· != 10)
  let n := if body.length < (text.take (cap - 1)).length then body.length + 1 else body.length
  (text.take n, text.drop n)

/-- The lines of a file. Each takes some of it, so there are not more than `fuel` in a file of
that length. -/
def fileLines (cap : ℕ) : ℕ → List UInt8 → List (List UInt8)
  | 0, _ => []
  | fuel + 1, text =>
    if text = [] then [] else (fgets cap text).1 :: fileLines cap fuel (fgets cap text).2

/-- A line up to its end or the first blank. -/
def cutLine (line : List UInt8) : List UInt8 :=
  line.takeWhile fun b => b != 0 && b != 13 && b != 10 && b != 32 && b != 9

/-- The MACs on the lines of a file. -/
def fileMacs (text : List UInt8) : List BbMac :=
  (fileLines 32 text.length text).filterMap fun line => macParse (cutLine line)

/-- `lc_peers_load`. -/
def lcPeersLoadText (max : ℕ) (text : List UInt8) : List BbMac := lcPeersLoad max (fileMacs text)

/-- `peers_save`. -/
def peersText (macs : List BbMac) : List UInt8 := macs.flatMap fun mac => macHex mac ++ [10]

/-! ### Reading back -/

theorem scanHex_byteHex (b : UInt8) : scanHex (byteHex b) = some ((false, b.toNat), []) := by
  have hall : ∀ x : BitVec 8, scanHex (byteHex ⟨x⟩) = some ((false, x.toNat), []) := by
    decide +kernel
  exact hall b.toBitVec

theorem isSpace_byteHex (b : UInt8) : isSpace (hexDigit (b.toNat / 16)) = false :=
  (isSpace_hexDigit (Nat.div_lt_of_lt_mul b.toNat_lt)).1

theorem scanByte_byteHex (b : UInt8) (rest : List UInt8) :
    scanByte (byteHex b ++ rest) = some (b.toNat, rest) := by
  have hspace : (byteHex b ++ rest).dropWhile isSpace = byteHex b ++ rest := by
    refine List.dropWhile_cons_of_neg ?_
    rw [isSpace_byteHex]
    exact Bool.false_ne_true
  rw [scanByte, hspace]
  show (scanHex (byteHex b)).map _ = _
  rw [scanHex_byteHex]
  rfl

theorem length_macHex (mac : BbMac) : (macHex mac).length = 8 := rfl

/-- A MAC is read back. -/
theorem macParse_macHex (mac : BbMac) : macParse (macHex mac) = some mac := by
  have hlast : scanByte (byteHex mac.d) = some (mac.d.toNat, []) := scanByte_byteHex mac.d []
  rw [macParse, if_neg (not_not.mpr (length_macHex mac)), macHex]
  simp only [scanByte_byteHex, hlast, bind, Option.bind_some, UInt8.ofNat_toNat]
  rfl

/-- The characters of a MAC are no line ends, blanks or terminators. -/
theorem mem_macHex {mac : BbMac} {b : UInt8} (h : b ∈ macHex mac) :
    b ≠ 0 ∧ b ≠ 13 ∧ b ≠ 10 ∧ b ≠ 32 ∧ b ≠ 9 := by
  have hdigit : ∀ d < 16, hexDigit d ≠ 0 ∧ hexDigit d ≠ 13 ∧ hexDigit d ≠ 10 ∧
      hexDigit d ≠ 32 ∧ hexDigit d ≠ 9 := by decide
  have hbyte : ∀ x : UInt8, b ∈ byteHex x → b ≠ 0 ∧ b ≠ 13 ∧ b ≠ 10 ∧ b ≠ 32 ∧ b ≠ 9 := by
    intro x hx
    have hlt : x.toNat < 256 := x.toNat_lt
    rcases List.mem_pair.mp hx with rfl | rfl
    · exact hdigit _ (by omega)
    · exact hdigit _ (by omega)
  simp only [macHex, List.mem_append] at h
  rcases h with h | h | h | h <;> exact hbyte _ h

theorem cutLine_macHex (mac : BbMac) : cutLine (macHex mac ++ [10]) = macHex mac := by
  have hall : ∀ b ∈ macHex mac,
      (b != 0 && b != 13 && b != 10 && b != 32 && b != 9) = true := by
    intro b hb
    obtain ⟨h0, h13, h10, h32, h9⟩ := mem_macHex hb
    simp [h0, h13, h10, h32, h9]
  rw [cutLine, List.takeWhile_append_of_pos hall]
  exact List.append_nil _

/-- `fgets` takes one line. -/
theorem fgets_macHex (mac : BbMac) (rest : List UInt8) :
    fgets 32 (macHex mac ++ 10 :: rest) = (macHex mac ++ [10], rest) := by
  have hlen := length_macHex mac
  have hall : ∀ b ∈ macHex mac, (b != 10) = true := fun b hb => bne_iff_ne.mpr (mem_macHex hb).2.2.1
  -- a line of nine characters ends well inside the buffer
  have hwindow : (macHex mac ++ 10 :: rest).take 31 = macHex mac ++ 10 :: rest.take 22 := by
    rw [List.take_append, List.take_of_length_le (by omega), hlen]
    rfl
  have hbody : (macHex mac ++ 10 :: rest.take 22).takeWhile (· != 10) = macHex mac := by
    rw [List.takeWhile_append_of_pos hall, List.takeWhile_cons_of_neg (by decide),
      List.append_nil]
  have hshort : 8 < (macHex mac ++ 10 :: rest.take 22).length := by
    rw [List.length_append, hlen, List.length_cons]
    omega
  have hline : (macHex mac ++ [10]).length = 8 + 1 := by rw [List.length_append, hlen]; rfl
  have hsplit : macHex mac ++ 10 :: rest = (macHex mac ++ [10]) ++ rest := by
    rw [List.append_assoc]
    rfl
  rw [fgets, hwindow, hbody, hlen, if_pos hshort, hsplit, List.take_left' hline,
    List.drop_left' hline]

theorem fileLines_peersText (macs : List BbMac) {fuel : ℕ}
    (hfuel : (peersText macs).length ≤ fuel) :
    fileLines 32 fuel (peersText macs) = macs.map fun mac => macHex mac ++ [10] := by
  induction macs generalizing fuel with
  | nil => cases fuel <;> rfl
  | cons mac macs ih =>
    have htext : peersText (mac :: macs) = macHex mac ++ 10 :: peersText macs := by
      rw [peersText, List.flatMap_cons, List.append_assoc]
      rfl
    rw [htext, List.length_append, length_macHex, List.length_cons] at hfuel
    obtain ⟨fuel, rfl⟩ : ∃ n, fuel = n + 1 := ⟨fuel - 1, by omega⟩
    rw [htext, fileLines, if_neg (by simp), fgets_macHex, ih (by omega), List.map_cons]

theorem fileMacs_peersText (macs : List BbMac) : fileMacs (peersText macs) = macs := by
  have hline : ∀ mac : BbMac, macParse (cutLine (macHex mac ++ [10])) = some mac := by
    intro mac
    rw [cutLine_macHex, macParse_macHex]
  rw [fileMacs, fileLines_peersText macs le_rfl, List.filterMap_map]
  exact (List.filterMap_congr fun mac _ => hline mac).trans List.filterMap_some

/-- **What is saved is loaded again.** -/
theorem lcPeersLoadText_peersText {max : ℕ} {macs : List BbMac} (hnodup : macs.Nodup)
    (hlen : macs.length ≤ max) : lcPeersLoadText max (peersText macs) = macs := by
  rw [lcPeersLoadText, fileMacs_peersText]
  exact addMacs_eq_append hnodup hlen

end Ar8030
