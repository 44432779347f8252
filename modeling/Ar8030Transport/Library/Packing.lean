import Mathlib.Data.List.Basic
import Mathlib.Data.List.Flatten
import Mathlib.Algebra.Order.BigOperators.Group.List
import Mathlib.Algebra.Order.Ring.Nat

/-!
# Packing pieces into a buffer

A `Buffer α cap` has room for `cap` elements. A piece is appended whole, or it is refused and the
buffer stays as it is. So after any row of pieces the buffer holds some of them, in order and whole
(`Buffer.appendAll_eq_flatten`), and all of them exactly if there is room for all
(`Buffer.appendAll_items_eq_iff`).
-/

namespace Packing

variable {α : Type*} {cap : ℕ}

/-- A buffer of `cap` elements, as far as it is filled. -/
@[ext]
structure Buffer (α : Type*) (cap : ℕ) where
  items : List α
  length_le : items.length ≤ cap

/-- The buffer with nothing in it. -/
def Buffer.empty : Buffer α cap := ⟨[], Nat.zero_le _⟩

/-- Append a piece if there is room; whether there was. -/
def Buffer.append (b : Buffer α cap) (piece : List α) : Bool × Buffer α cap :=
  if h : cap < b.items.length + piece.length then (false, b)
  else
    (true,
      { items := b.items ++ piece
        length_le := by rw [List.length_append]; exact Nat.le_of_not_lt h })

/-- Append a row of pieces, going on behind a refused one. -/
def Buffer.appendAll (b : Buffer α cap) (pieces : List (List α)) : Buffer α cap :=
  pieces.foldl (fun b piece => (b.append piece).2) b

theorem Buffer.append_of_le {b : Buffer α cap} {piece : List α}
    (h : b.items.length + piece.length ≤ cap) :
    b.append piece = (true, ⟨b.items ++ piece, by rwa [List.length_append]⟩) :=
  dif_neg (Nat.not_lt.mpr h)

theorem Buffer.append_of_lt {b : Buffer α cap} {piece : List α}
    (h : cap < b.items.length + piece.length) : b.append piece = (false, b) := dif_pos h

@[simp]
theorem Buffer.appendAll_nil (b : Buffer α cap) : b.appendAll [] = b := rfl

@[simp]
theorem Buffer.appendAll_cons (b : Buffer α cap) (piece : List α) (pieces : List (List α)) :
    b.appendAll (piece :: pieces) = (b.append piece).2.appendAll pieces := rfl

/-- **What fits is there.** -/
theorem Buffer.appendAll_of_le {b : Buffer α cap} {pieces : List (List α)}
    (h : b.items.length + (pieces.map List.length).sum ≤ cap) :
    (b.appendAll pieces).items = b.items ++ pieces.flatten := by
  induction pieces generalizing b with
  | nil => rw [appendAll_nil, List.flatten_nil, List.append_nil]
  | cons piece pieces ih =>
    rw [List.map_cons, List.sum_cons, ← Nat.add_assoc] at h
    rw [appendAll_cons, append_of_le (Nat.le_of_add_right_le h), List.flatten_cons,
      ← List.append_assoc]
    exact ih (by rwa [List.length_append])

/-- It is all there only if it fits. -/
theorem Buffer.appendAll_items_eq_iff (b : Buffer α cap) (pieces : List (List α)) :
    (b.appendAll pieces).items = b.items ++ pieces.flatten ↔
      b.items.length + (pieces.map List.length).sum ≤ cap := by
  refine ⟨fun h => ?_, appendAll_of_le⟩
  have hle := (b.appendAll pieces).length_le
  rwa [h, List.length_append, List.length_flatten] at hle

/-- **Pieces are left out whole**: the buffer holds a row of the pieces, in order. -/
theorem Buffer.appendAll_eq_flatten (b : Buffer α cap) (pieces : List (List α)) :
    ∃ kept : List (List α), kept.Sublist pieces ∧
      (b.appendAll pieces).items = b.items ++ kept.flatten := by
  induction pieces generalizing b with
  | nil => exact ⟨[], List.Sublist.refl _, (List.append_nil _).symm⟩
  | cons piece pieces ih =>
    rw [appendAll_cons]
    by_cases h : b.items.length + piece.length ≤ cap
    · obtain ⟨kept, hkept, hitems⟩ := ih (b.append piece).2
      refine ⟨piece :: kept, hkept.cons_cons piece, ?_⟩
      rw [hitems, append_of_le h, List.flatten_cons, List.append_assoc]
    · obtain ⟨kept, hkept, hitems⟩ := ih b
      rw [append_of_lt (Nat.lt_of_not_le h)]
      exact ⟨kept, hkept.cons piece, hitems⟩

/-- What is appended is no longer than the pieces. -/
theorem Buffer.length_appendAll_le (b : Buffer α cap) (pieces : List (List α)) :
    (b.appendAll pieces).items.length ≤ b.items.length + (pieces.map List.length).sum := by
  obtain ⟨kept, hkept, hitems⟩ := b.appendAll_eq_flatten pieces
  rw [hitems, List.length_append, ← List.length_flatten]
  exact Nat.add_le_add_left hkept.flatten.length_le _

/-! ### Pieces of a row of items -/

/-- Some of the pieces belong to some of the items. -/
theorem exists_sublist_of_forall₂ {β : Type*} {R : α → β → Prop} {l : List α}
    {cs kept : List β} (h : List.Forall₂ R l cs) (hkept : kept.Sublist cs) :
    ∃ l' : List α, l'.Sublist l ∧ List.Forall₂ R l' kept := by
  induction h generalizing kept with
  | nil => exact ⟨[], List.Sublist.refl _, List.sublist_nil.mp hkept ▸ .nil⟩
  | @cons a c l cs hac _ ih =>
    cases hkept with
    | cons _ hkept =>
      obtain ⟨l', hl', hrel⟩ := ih hkept
      exact ⟨l', hl'.cons a, hrel⟩
    | cons_cons _ hkept =>
      obtain ⟨l', hl', hrel⟩ := ih hkept
      exact ⟨a :: l', hl'.cons_cons a, .cons hac hrel⟩

/-- If a part of a list weighs as much as the whole, it is the whole. -/
theorem forall_of_sum_le {f : α → ℕ} (hf : ∀ a, 0 < f a) {p : α → Bool} {l : List α}
    (h : (l.map f).sum ≤ ((l.filter p).map f).sum) : ∀ a ∈ l, p a = true := by
  induction l with
  | nil => simp
  | cons a l ih =>
    have hle : ((l.filter p).map f).sum ≤ (l.map f).sum :=
      ((List.filter_sublist).map f).sum_le_sum fun _ _ => Nat.zero_le _
    have hpos := hf a
    cases hp : p a with
    | false =>
      rw [List.filter_cons_of_neg (by simp [hp]), List.map_cons, List.sum_cons] at h
      omega
    | true =>
      rw [List.filter_cons_of_pos hp, List.map_cons, List.map_cons, List.sum_cons,
        List.sum_cons] at h
      intro b hb
      rcases List.mem_cons.mp hb with rfl | hb
      · exact hp
      · exact ih (Nat.le_of_add_le_add_left h) b hb

end Packing
