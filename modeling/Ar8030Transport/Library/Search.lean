import Mathlib.Data.List.Basic

/-!
# Searching a byte pattern

`firstOcc pat l` is the offset of the first occurrence of the pattern `pat` in `l`. The
lemmas say how the search skips a stretch that cannot start a match, which is how a scanner
that jumps from one candidate to the next is compared with it.
-/

namespace Search

variable {α : Type*} [DecidableEq α]

/-- Offset of the first occurrence of `pat` in `l`. -/
def firstOcc (pat : List α) : List α → Option ℕ
  | [] => if pat = [] then some 0 else none
  | a :: l => if pat <+: a :: l then some 0 else (firstOcc pat l).map (· + 1)

theorem firstOcc_of_isPrefix {pat l : List α} (h : pat <+: l) : firstOcc pat l = some 0 := by
  cases l with
  | nil => simp [firstOcc, List.prefix_nil.mp h]
  | cons a l => simp [firstOcc, h]

theorem firstOcc_cons_of_not_isPrefix {pat l : List α} {a : α} (h : ¬ pat <+: a :: l) :
    firstOcc pat (a :: l) = (firstOcc pat l).map (· + 1) := by
  simp [firstOcc, h]

/-- The pattern stands where the search says it does. -/
theorem prefix_drop_of_firstOcc {pat l : List α} {p : ℕ} (h : firstOcc pat l = some p) :
    pat <+: l.drop p := by
  induction l generalizing p with
  | nil =>
    by_cases hp : pat = []
    · simp [hp]
    · simp [firstOcc, hp] at h
  | cons a l ih =>
    by_cases hpre : pat <+: a :: l
    · rw [firstOcc_of_isPrefix hpre] at h
      obtain rfl : 0 = p := by simpa using h
      exact hpre
    · rw [firstOcc_cons_of_not_isPrefix hpre, Option.map_eq_some_iff] at h
      obtain ⟨q, hq, rfl⟩ := h
      simpa using ih hq

/-- The search finds the first place where the pattern stands. -/
theorem not_prefix_drop_of_lt_firstOcc {pat l : List α} {p i : ℕ}
    (h : firstOcc pat l = some p) (hi : i < p) : ¬ pat <+: l.drop i := by
  induction l generalizing p i with
  | nil =>
    by_cases hp : pat = []
    · simp only [firstOcc, hp, if_true, Option.some.injEq] at h
      omega
    · simp [firstOcc, hp] at h
  | cons a l ih =>
    by_cases hpre : pat <+: a :: l
    · rw [firstOcc_of_isPrefix hpre] at h
      simp only [Option.some.injEq] at h
      omega
    · rw [firstOcc_cons_of_not_isPrefix hpre, Option.map_eq_some_iff] at h
      obtain ⟨q, hq, rfl⟩ := h
      cases i with
      | zero => exact hpre
      | succ i => simpa using ih hq (by omega)

/-- A search that fails means the pattern stands nowhere. -/
theorem not_prefix_drop_of_firstOcc_none {pat l : List α} (h : firstOcc pat l = none) (i : ℕ) :
    ¬ pat <+: l.drop i := by
  induction l generalizing i with
  | nil =>
    intro hp
    have hnil : pat = [] := by simpa using hp
    simp [firstOcc, hnil] at h
  | cons a l ih =>
    by_cases hpre : pat <+: a :: l
    · simp [firstOcc_of_isPrefix hpre] at h
    · rw [firstOcc_cons_of_not_isPrefix hpre, Option.map_eq_none_iff] at h
      cases i with
      | zero => exact hpre
      | succ i => simpa using ih h i

/-- The search skips a stretch in which no match starts. -/
theorem firstOcc_drop {pat l : List α} {n : ℕ} (hn : n ≤ l.length)
    (h : ∀ i < n, ¬ pat <+: l.drop i) :
    firstOcc pat l = (firstOcc pat (l.drop n)).map (· + n) := by
  induction n generalizing l with
  | zero => simp
  | succ n ih =>
    cases l with
    | nil => simp at hn
    | cons a l =>
      have h0 : ¬ pat <+: a :: l := by simpa using h 0 (by omega)
      have hrest : ∀ i < n, ¬ pat <+: l.drop i := fun i hi => by
        simpa using h (i + 1) (by omega)
      rw [firstOcc_cons_of_not_isPrefix h0, ih (by simpa using hn) hrest, Option.map_map,
        List.drop_succ_cons]
      rfl

/-- The search fails when the pattern stands nowhere. -/
theorem firstOcc_eq_none {pat l : List α} (h : ∀ i, ¬ pat <+: l.drop i) :
    firstOcc pat l = none := by
  cases hf : firstOcc pat l with
  | none => rfl
  | some p => exact absurd (prefix_drop_of_firstOcc hf) (h p)

/-- No match starts in a list shorter than the pattern. -/
theorem firstOcc_eq_none_of_length_lt {pat l : List α} (h : l.length < pat.length) :
    firstOcc pat l = none := by
  refine firstOcc_eq_none fun i hpre => ?_
  have hle := hpre.length_le
  rw [List.length_drop] at hle
  omega

end Search
