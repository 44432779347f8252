import Mathlib.Data.List.Basic
import Mathlib.Data.List.Flatten
import Mathlib.Tactic.Ring

/-!
# Cutting a list into pieces

`piece k l i` is the `i`-th piece of length (at most) `k` of `l`. The pieces of a list,
taken in order, concatenate back to it as soon as there are enough of them;
`piecesNeeded` counts how many are, with an empty list still taking one.
-/

namespace Pieces

variable {α : Type*}

/-- The `i`-th piece of length at most `k`. -/
def piece (k : ℕ) (l : List α) (i : ℕ) : List α := (l.drop (i * k)).take k

/-- How many pieces of length `k` a list of length `n` needs, at least one. -/
def piecesNeeded (n k : ℕ) : ℕ := max 1 ((n + k - 1) / k)

theorem length_piece_le (k : ℕ) (l : List α) (i : ℕ) : (piece k l i).length ≤ k := by
  simp [piece]

/-- The first `n` pieces concatenate to the first `n * k` elements. -/
theorem flatMap_piece (k : ℕ) (l : List α) (n : ℕ) :
    (List.range n).flatMap (piece k l) = l.take (n * k) := by
  induction n with
  | zero => simp
  | succ n ih =>
    rw [List.range_succ, List.flatMap_append, ih, List.flatMap_singleton, Nat.succ_mul,
      List.take_add, piece]

theorem one_le_piecesNeeded (n k : ℕ) : 1 ≤ piecesNeeded n k := le_max_left _ _

/-- The pieces needed cover the whole length. -/
theorem le_piecesNeeded_mul {n k : ℕ} (hk : 0 < k) : n ≤ piecesNeeded n k * k := by
  have hdiv : n ≤ (n + k - 1) / k * k := by
    have hmod := Nat.div_add_mod (n + k - 1) k
    have hlt := Nat.mod_lt (n + k - 1) hk
    rw [Nat.mul_comm] at hmod
    omega
  exact hdiv.trans (Nat.mul_le_mul_right k (le_max_right _ _))

/-- All pieces needed, concatenated, are the list. -/
theorem flatMap_piece_piecesNeeded {k : ℕ} (hk : 0 < k) (l : List α) :
    (List.range (piecesNeeded l.length k)).flatMap (piece k l) = l := by
  rw [flatMap_piece, List.take_of_length_le (le_piecesNeeded_mul hk)]

/-- A list that needs at most `m` pieces has at most `m * k` elements. -/
theorem length_le_of_piecesNeeded_le {n k m : ℕ} (hk : 0 < k) (h : piecesNeeded n k ≤ m) :
    n ≤ m * k :=
  (le_piecesNeeded_mul hk).trans (Nat.mul_le_mul_right k h)

end Pieces
