import Mathlib.Algebra.GroupWithZero.Nat
import Mathlib.Data.List.Basic

/-!
# Greedy incremental parsers

A greedy parser repeatedly looks at the front of its buffer and either takes one step —
emitting an event and consuming some input — or waits for more. The two laws of
`GreedyParser` are what makes such a parser indifferent to how its input is cut into
pieces: a step consumes something, and a step that is possible stays the same step however
much input follows.

`drain` runs the parser until it waits. `drain_append` is the composition law: draining a
concatenation is draining the first part, and then draining what was left of it together
with the second part. Everything about fragmentation follows from this one equation.
-/

/-- A parser that decides its next step from the front of the buffer alone. -/
structure GreedyParser (α ω : Type*) where
  /-- One step: an event and the input left, or `none` to wait for more input. -/
  step : List α → Option (ω × List α)
  /-- A step consumes input. -/
  length_lt : ∀ {l o r}, step l = some (o, r) → r.length < l.length
  /-- A step does not depend on what follows. -/
  step_append : ∀ {l o r} (m : List α), step l = some (o, r) → step (l ++ m) = some (o, r ++ m)

namespace GreedyParser

variable {α ω : Type*} (P : GreedyParser α ω)

/-- Run the parser until it waits: the events emitted and the input left over. -/
def drain (l : List α) : List ω × List α :=
  match h : P.step l with
  | none => ([], l)
  | some (o, r) =>
    have := P.length_lt h
    ((o :: (drain r).1), (drain r).2)
termination_by l.length

/-- The events emitted on the way to the next wait. -/
def events (l : List α) : List ω := (P.drain l).1

/-- The input left over at the next wait. -/
def residual (l : List α) : List α := (P.drain l).2

theorem drain_of_none {l : List α} (h : P.step l = none) : P.drain l = ([], l) := by
  rw [drain]
  split
  · rfl
  · simp_all

theorem drain_of_some {l r : List α} {o : ω} (h : P.step l = some (o, r)) :
    P.drain l = (o :: P.events r, P.residual r) := by
  rw [drain]
  split
  · simp_all
  · rename_i o' r' h'
    obtain ⟨rfl, rfl⟩ : o' = o ∧ r' = r := by simpa using h'.symm.trans h
    rfl

theorem events_of_none {l : List α} (h : P.step l = none) : P.events l = [] := by
  rw [events, P.drain_of_none h]

theorem residual_of_none {l : List α} (h : P.step l = none) : P.residual l = l := by
  rw [residual, P.drain_of_none h]

theorem events_of_some {l r : List α} {o : ω} (h : P.step l = some (o, r)) :
    P.events l = o :: P.events r := by
  rw [events, P.drain_of_some h]

theorem residual_of_some {l r : List α} {o : ω} (h : P.step l = some (o, r)) :
    P.residual l = P.residual r := by
  rw [residual, P.drain_of_some h]

/-- Induction along the steps of a drain. -/
theorem drain_induction {motive : List α → Prop}
    (wait : ∀ l, P.step l = none → motive l)
    (step : ∀ l o r, P.step l = some (o, r) → motive r → motive l) (l : List α) :
    motive l := by
  induction hn : l.length using Nat.strongRecOn generalizing l with
  | _ n ih =>
    cases h : P.step l with
    | none => exact wait l h
    | some q =>
      obtain ⟨o, r⟩ := q
      exact step l o r h (ih r.length (hn ▸ P.length_lt h) r rfl)

/-- **Composition law, events**: the events of a concatenation are those of the first part
followed by those of its leftover with the second part. -/
theorem events_append (l m : List α) :
    P.events (l ++ m) = P.events l ++ P.events (P.residual l ++ m) := by
  induction l using P.drain_induction with
  | wait l h => rw [P.events_of_none h, P.residual_of_none h, List.nil_append]
  | step l o r h ih =>
    rw [P.events_of_some (P.step_append m h), P.events_of_some h, P.residual_of_some h, ih,
      List.cons_append]

/-- An additive weight of the events and the length of the leftover add up to the length
of the input, provided every step weighs what it consumes. -/
theorem sum_weight_add_length (w : ω → ℕ)
    (hw : ∀ {l o r}, P.step l = some (o, r) → w o + r.length = l.length) (l : List α) :
    ((P.events l).map w).sum + (P.residual l).length = l.length := by
  induction l using P.drain_induction with
  | wait l h => simp [P.events_of_none h, P.residual_of_none h]
  | step l o r h ih =>
    have := hw h
    simp only [P.events_of_some h, P.residual_of_some h, List.map_cons, List.sum_cons]
    omega

end GreedyParser
