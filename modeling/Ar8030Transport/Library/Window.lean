import Mathlib.Data.List.Rotate
import Mathlib.Data.Nat.ModEq

/-!
# Windows over the last few values

A window of capacity `cap` is a ring of slots with a fill count and a write index: a new
value overwrites the slot at the write index. `Window.Holds cap w hist` says that the
window holds the last `min cap hist.length` values of a history, each in the slot its
position in the history determines; pushing a value keeps it (`Holds.push`), and the filled
slots are those values up to rotation (`Holds.perm`).
-/

/-- A ring of slots with a fill count and a write index. -/
structure Window (α : Type*) where
  slots : List α
  n : ℕ
  next : ℕ
  deriving DecidableEq, Repr

namespace Window

variable {α : Type*} {cap : ℕ} {w : Window α} {hist : List α}

/-- Write a value at the write index and move on. -/
def push (cap : ℕ) (w : Window α) (x : α) : Window α where
  slots := w.slots.set w.next x
  n := if w.n < cap then w.n + 1 else w.n
  next := (w.next + 1) % cap

/-- Forget the values; the slots keep what they have. -/
def clear (w : Window α) : Window α := { w with n := 0, next := 0 }

/-- The filled slots. -/
def held (w : Window α) : List α := w.slots.take w.n

/-- The last `min cap hist.length` values of a history, oldest first. -/
def lastOf (cap : ℕ) (hist : List α) : List α := hist.drop (hist.length - cap)

/-- The window holds the last values of the history. -/
structure Holds (cap : ℕ) (w : Window α) (hist : List α) : Prop where
  length_slots : w.slots.length = cap
  n : w.n = min cap hist.length
  next : w.next = hist.length % cap
  slots : ∀ m, hist.length - cap ≤ m → m < hist.length → w.slots[m % cap]? = hist[m]?

theorem Holds.clear (h : w.Holds cap hist) : w.clear.Holds cap [] where
  length_slots := h.length_slots
  n := by simp [Window.clear]
  next := by simp [Window.clear]
  slots := by simp

/-- **Pushing a value** moves the window on by one. -/
theorem Holds.push (h : w.Holds cap hist) (hcap : 0 < cap) (x : α) :
    (w.push cap x).Holds cap (hist ++ [x]) where
  length_slots := by simp [Window.push, h.length_slots]
  n := by
    have hn := h.n
    simp only [Window.push, List.length_append, List.length_singleton]
    split_ifs <;> omega
  next := by
    simp [Window.push, h.next, Nat.add_mod]
  slots := by
    intro m hlow hhigh
    rw [List.length_append, List.length_singleton] at hlow hhigh
    rw [Window.push, h.next, List.getElem?_set]
    by_cases hm : m = hist.length
    · have hlt := Nat.mod_lt hist.length hcap
      simp [hm, h.length_slots, hlt]
    · -- two positions fewer than `cap` apart have different slots
      have hslot : hist.length % cap ≠ m % cap := by
        intro heq
        have hdvd : cap ∣ hist.length - m := (Nat.modEq_iff_dvd' (by omega)).mp heq.symm
        exact absurd (Nat.le_of_dvd (by omega) hdvd) (by omega)
      rw [if_neg hslot, h.slots m (by omega) (by omega), List.getElem?_append_left (by omega)]

/-- A history that fits is in the slots as it is. -/
theorem Holds.held_eq_of_lt (h : w.Holds cap hist) (hlt : hist.length < cap) :
    w.held = hist := by
  have hn := h.n
  rw [Nat.min_eq_right (by omega)] at hn
  apply List.ext_getElem?
  intro i
  rw [held, hn, List.getElem?_take]
  split_ifs with hi
  · have := h.slots i (by omega) hi
    rwa [Nat.mod_eq_of_lt (by omega)] at this
  · exact (List.getElem?_eq_none (by omega)).symm

/-- A longer one is there from the write index on, round the ring. -/
theorem Holds.rotate_slots (h : w.Holds cap hist) (hcap : 0 < cap) (hle : cap ≤ hist.length) :
    w.slots.rotate w.next = lastOf cap hist := by
  apply List.ext_getElem
  · simp only [List.length_rotate, h.length_slots, lastOf, List.length_drop]
    omega
  · intro i hi hi'
    rw [List.length_rotate, h.length_slots] at hi
    have hm := h.slots (hist.length - cap + i) (by omega) (by omega)
    have hslot : (i + w.next) % cap = (hist.length - cap + i) % cap := by
      have hsplit : i + hist.length = hist.length - cap + i + cap := by omega
      rw [h.next, Nat.add_mod_mod, hsplit, Nat.add_mod_right]
    rw [List.getElem_rotate]
    simp only [h.length_slots, hslot, lastOf, List.getElem_drop]
    rw [List.getElem?_eq_getElem (by rw [h.length_slots]; exact Nat.mod_lt _ hcap),
      List.getElem?_eq_getElem (by omega)] at hm
    exact Option.some.inj hm

/-- **What the window holds**: the last values of the history, up to rotation. -/
theorem Holds.perm (h : w.Holds cap hist) (hcap : 0 < cap) :
    w.held.Perm (lastOf cap hist) := by
  by_cases hlt : hist.length < cap
  · rw [h.held_eq_of_lt hlt, lastOf, Nat.sub_eq_zero_of_le (by omega), List.drop_zero]
  · have hall : w.held = w.slots := by
      rw [held, List.take_of_length_le]
      rw [h.length_slots, h.n]
      omega
    rw [hall, ← h.rotate_slots hcap (by omega)]
    exact (List.rotate_perm w.slots w.next).symm

end Window
