import Mathlib.Data.List.Basic
import Mathlib.Data.List.GetD
import Mathlib.Data.List.TakeDrop
import Mathlib.Logic.Function.Iterate

/-!
# Feedback shift registers

A register of `w` bits that is shifted to the left by one place for each input bit, most
significant bit first, and has its feedback polynomial `g` added when a one falls out. This is
the register of a cyclic redundancy check.

The register is linear in its state and its input (`foldl_feed_xor`), and with a polynomial
whose constant term is one no shift loses anything (`iterate_shift_eq_zero_iff`). So two inputs
that differ only within `w` consecutive bits leave different states (`foldl_feed_ne`).
-/

namespace ShiftRegister

variable {w : ℕ} (g : BitVec w)

/-- One shift. -/
def shift (x : BitVec w) : BitVec w := if x.msb then (x <<< 1) ^^^ g else x <<< 1

/-- An input bit at the top of the register. -/
def topBit (b : Bool) : BitVec w := if b then BitVec.twoPow w (w - 1) else 0#w

/-- One input bit. -/
def feed (x : BitVec w) (b : Bool) : BitVec w := shift g (x ^^^ topBit b)

/-! ### Linearity -/

theorem shift_xor (x y : BitVec w) : shift g (x ^^^ y) = shift g x ^^^ shift g y := by
  rw [shift, shift, shift, BitVec.msb_xor, BitVec.shiftLeft_xor_distrib]
  cases x.msb <;> cases y.msb
  · rfl
  · exact BitVec.xor_assoc ..
  · show (x <<< 1 ^^^ y <<< 1) ^^^ g = (x <<< 1 ^^^ g) ^^^ y <<< 1
    rw [BitVec.xor_assoc, BitVec.xor_assoc, BitVec.xor_comm g]
  · show x <<< 1 ^^^ y <<< 1 = (x <<< 1 ^^^ g) ^^^ (y <<< 1 ^^^ g)
    rw [BitVec.xor_comm (y <<< 1), ← BitVec.xor_assoc, BitVec.xor_assoc (x <<< 1) g g,
      BitVec.xor_self, BitVec.xor_zero]

theorem topBit_xor (a b : Bool) : (topBit (a ^^ b) : BitVec w) = topBit a ^^^ topBit b := by
  cases a <;> cases b <;> simp [topBit]

theorem xor_xor_xor_comm (a b c d : BitVec w) :
    (a ^^^ b) ^^^ (c ^^^ d) = (a ^^^ c) ^^^ (b ^^^ d) := by
  rw [BitVec.xor_assoc, BitVec.xor_assoc, ← BitVec.xor_assoc b c d, BitVec.xor_comm b c,
    BitVec.xor_assoc c b d]

theorem feed_xor (x y : BitVec w) (a b : Bool) :
    feed g (x ^^^ y) (a ^^ b) = feed g x a ^^^ feed g y b := by
  rw [feed, feed, feed, topBit_xor, xor_xor_xor_comm, shift_xor]

/-- The register of a sum of two inputs is the sum of their registers. -/
theorem foldl_feed_xor (x y : BitVec w) {as bs : List Bool} (h : as.length = bs.length) :
    (List.zipWith xor as bs).foldl (feed g) (x ^^^ y) =
      as.foldl (feed g) x ^^^ bs.foldl (feed g) y := by
  induction as generalizing x y bs with
  | nil =>
    obtain rfl : bs = [] := List.length_eq_zero_iff.mp h.symm
    rfl
  | cons a as ih =>
    obtain ⟨b, bs, rfl⟩ := List.exists_cons_of_length_eq_add_one (h.symm.trans List.length_cons)
    rw [List.zipWith_cons_cons, List.foldl_cons, List.foldl_cons, List.foldl_cons, feed_xor]
    exact ih _ _ (Nat.succ.inj h)

/-! ### Nothing is lost -/

theorem feed_false (x : BitVec w) : feed g x false = shift g x := by
  rw [feed, topBit, if_neg Bool.false_ne_true, BitVec.xor_zero]

theorem shift_zero : shift g 0#w = 0#w := by simp [shift]

theorem foldl_feed_replicate_false (n : ℕ) (x : BitVec w) :
    (List.replicate n false).foldl (feed g) x = (shift g)^[n] x := by
  induction n generalizing x with
  | zero => rfl
  | succ n ih =>
    rw [List.replicate_succ, List.foldl_cons, feed_false, ih, Function.iterate_succ_apply]

theorem shift_eq_zero_iff (hg : g.getLsbD 0 = true) {x : BitVec w} :
    shift g x = 0#w ↔ x = 0#w := by
  constructor
  · intro h
    have hbit : ∀ i, (shift g x).getLsbD i = false := fun i => by rw [h]; simp
    -- a one at the top would come back as the constant term
    have hmsb : x.msb = false := by
      by_contra hne
      rw [Bool.not_eq_false] at hne
      have h0 := hbit 0
      rw [shift, if_pos hne, BitVec.getLsbD_xor, hg] at h0
      simp at h0
    refine BitVec.eq_of_getLsbD_eq fun i hi => ?_
    rw [BitVec.getLsbD_zero]
    by_cases hlast : i + 1 = w
    · rw [BitVec.msb_eq_getLsbD_last] at hmsb
      rwa [show w - 1 = i by omega] at hmsb
    · have hnext := hbit (i + 1)
      rw [shift, hmsb, if_neg Bool.false_ne_true, BitVec.getLsbD_shiftLeft] at hnext
      simpa [show i + 1 < w by omega] using hnext
  · rintro rfl
    exact shift_zero g

theorem iterate_shift_eq_zero_iff (hg : g.getLsbD 0 = true) {n : ℕ} {x : BitVec w} :
    (shift g)^[n] x = 0#w ↔ x = 0#w := by
  induction n generalizing x with
  | zero => rfl
  | succ n ih => rw [Function.iterate_succ_apply, ih, shift_eq_zero_iff g hg]

/-! ### A short input is a word -/

/-- Up to `w` input bits as they stand in the register, the first at the top. -/
def word : List Bool → BitVec w
  | [] => 0#w
  | b :: l => topBit b ^^^ (word l >>> 1)

theorem getMsbD_topBit (b : Bool) {i : ℕ} (hi : i < w) :
    (topBit b : BitVec w).getMsbD i = (b && decide (i = 0)) := by
  cases b with
  | false => simp [topBit]
  | true =>
    have hlast : w - 1 < w := by omega
    have htop : w - (w - 1) - 1 = 0 := by omega
    simp [topBit, hlast, htop]

theorem getMsbD_word (l : List Bool) {i : ℕ} (hi : i < w) :
    (word l : BitVec w).getMsbD i = l.getD i false := by
  induction l generalizing i with
  | nil => simp [word]
  | cons b l ih =>
    rw [word, BitVec.getMsbD_xor, getMsbD_topBit b hi, BitVec.getMsbD_ushiftRight]
    cases i with
    | zero => simp
    | succ i => simpa [hi] using ih (Nat.lt_of_succ_lt hi)

/-- A word that does not fill the register moves up by a shift. -/
theorem shift_word {l : List Bool} (hl : l.length < w) : shift g (word l >>> 1) = word l := by
  have hmsb : (word l >>> 1 : BitVec w).msb = false := by simp
  rw [shift, hmsb, if_neg Bool.false_ne_true]
  refine BitVec.eq_of_getMsbD_eq fun i hi => ?_
  rw [BitVec.getMsbD_shiftLeft, BitVec.getMsbD_ushiftRight]
  by_cases hlast : i + 1 < w
  · simp [hlast]
  · have hbeyond : l.length ≤ i := by omega
    rw [getMsbD_word l hi, List.getD_eq_default _ _ hbeyond]
    simp [hlast]

/-- Feeding a short input is the same as having it in the register and shifting. -/
theorem foldl_feed_eq {l : List Bool} (hl : l.length ≤ w) (x : BitVec w) :
    l.foldl (feed g) x = (shift g)^[l.length] (x ^^^ word l) := by
  induction l generalizing x with
  | nil => simp [word]
  | cons b l ih =>
    rw [List.length_cons] at hl
    rw [List.foldl_cons, ih (Nat.le_of_succ_le hl), List.length_cons, Function.iterate_succ_apply,
      word, ← BitVec.xor_assoc, shift_xor, shift_word g hl, feed]

/-! ### Bursts -/

theorem getD_zipWith_xor {as bs : List Bool} (h : as.length = bs.length) (j : ℕ) :
    (List.zipWith xor as bs).getD j false = (as.getD j false ^^ bs.getD j false) := by
  induction as generalizing bs j with
  | nil =>
    obtain rfl : bs = [] := List.length_eq_zero_iff.mp h.symm
    rfl
  | cons a as ih =>
    obtain ⟨b, bs, rfl⟩ := List.exists_cons_of_length_eq_add_one (h.symm.trans List.length_cons)
    cases j with
    | zero => rfl
    | succ j => exact ih (Nat.succ.inj h) j

theorem eq_replicate_false {l : List Bool} (h : ∀ j, l.getD j false = false) :
    l = List.replicate l.length false := by
  refine List.eq_replicate_iff.mpr ⟨rfl, fun b hb => ?_⟩
  obtain ⟨j, hj, rfl⟩ := List.getElem_of_mem hb
  simpa [hj] using h j

/-- From the empty register an input with a one in it, and zeros outside of `w` places, does not
lead back to the empty register. -/
theorem foldl_feed_ne_zero (hg : g.getLsbD 0 = true) {es : List Bool} {i k : ℕ}
    (hwin : ∀ j, es.getD j false = true → i ≤ j ∧ j < i + w) (hk : es.getD k false = true) :
    es.foldl (feed g) 0#w ≠ 0#w := by
  -- zeros in front leave the register empty, and those behind only shift it
  have hsplit : es = es.take i ++ ((es.drop i).take w ++ es.drop (i + w)) := by
    rw [← List.drop_drop, List.take_append_drop, List.take_append_drop]
  have hfalse : ∀ j, ¬ (i ≤ j ∧ j < i + w) → es.getD j false = false := fun j hj =>
    Bool.eq_false_iff.mpr fun htrue => hj (hwin j htrue)
  have hfront : es.take i = List.replicate (es.take i).length false := by
    refine eq_replicate_false fun j => ?_
    rw [List.getD_eq_getElem?_getD, List.getElem?_take]
    by_cases hj : j < i
    · rw [if_pos hj, ← List.getD_eq_getElem?_getD, hfalse j (by omega)]
    · rw [if_neg hj, Option.getD_none]
  have hback : es.drop (i + w) = List.replicate (es.drop (i + w)).length false := by
    refine eq_replicate_false fun j => ?_
    rw [List.getD_eq_getElem?_getD, List.getElem?_drop, ← List.getD_eq_getElem?_getD,
      hfalse _ (by omega)]
  have hword : (word ((es.drop i).take w) : BitVec w) ≠ 0#w := by
    intro hzero
    obtain ⟨hik, hkw⟩ := hwin k hk
    have hbit := getMsbD_word (w := w) ((es.drop i).take w) (i := k - i) (by omega)
    rw [hzero, BitVec.getMsbD_zero, List.getD_eq_getElem?_getD, List.getElem?_take_of_lt (by omega),
      List.getElem?_drop, Nat.add_sub_cancel' hik, ← List.getD_eq_getElem?_getD, hk] at hbit
    exact Bool.false_ne_true hbit
  rw [hsplit, List.foldl_append, List.foldl_append, hfront, foldl_feed_replicate_false,
    (iterate_shift_eq_zero_iff g hg).mpr rfl, foldl_feed_eq g (List.length_take_le _ _), hback,
    foldl_feed_replicate_false, Ne, iterate_shift_eq_zero_iff g hg,
    iterate_shift_eq_zero_iff g hg, BitVec.zero_xor]
  exact hword

/-- **Bursts are seen**: two inputs of one length that differ, and only within `w` consecutive
places, leave different registers. -/
theorem foldl_feed_ne (hg : g.getLsbD 0 = true) {as bs : List Bool} (h : as.length = bs.length)
    (hne : as ≠ bs) {i : ℕ}
    (hwin : ∀ j, as.getD j false ≠ bs.getD j false → i ≤ j ∧ j < i + w) (x : BitVec w) :
    as.foldl (feed g) x ≠ bs.foldl (feed g) x := by
  have hdiff : ∃ k, as.getD k false ≠ bs.getD k false := by
    by_contra hall
    refine hne (List.ext_getElem h fun k ha hb => ?_)
    have hk := not_not.mp (not_exists.mp hall k)
    rwa [List.getD_eq_getElem _ _ ha, List.getD_eq_getElem _ _ hb] at hk
  obtain ⟨k, hk⟩ := hdiff
  have hxor : ∀ j, (List.zipWith xor as bs).getD j false = true ↔
      as.getD j false ≠ bs.getD j false := fun j => by
    rw [getD_zipWith_xor h]
    simp
  refine fun heq => foldl_feed_ne_zero g hg (fun j hj => hwin j ((hxor j).mp hj))
    ((hxor k).mpr hk) ?_
  rw [← BitVec.xor_self (x := x), foldl_feed_xor g x x h, heq, BitVec.xor_self, BitVec.xor_self]

end ShiftRegister
