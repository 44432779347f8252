import Mathlib.Data.List.Induction

/-!
# Runs of a machine with output

A machine takes one input at a time and answers each with a new state and a list of
outputs. `run` folds a whole input list, concatenating the outputs. `run_append` cuts a run
in two, and `run_induction` is the invariant rule: what the initial state and empty output
satisfy, and every step keeps, holds after every run.
-/

namespace Mealy

variable {σ ι ω : Type*} (step : σ → ι → σ × List ω)

/-- Run a machine over a list of inputs, concatenating its outputs. -/
def run : σ → List ι → σ × List ω
  | s, [] => (s, [])
  | s, i :: is => ((run (step s i).1 is).1, (step s i).2 ++ (run (step s i).1 is).2)

@[simp]
theorem run_nil (s : σ) : run step s [] = (s, []) := rfl

theorem run_cons (s : σ) (i : ι) (is : List ι) :
    run step s (i :: is) =
      ((run step (step s i).1 is).1, (step s i).2 ++ (run step (step s i).1 is).2) := rfl

theorem run_append (s : σ) (is js : List ι) :
    run step s (is ++ js) =
      ((run step (run step s is).1 js).1,
        (run step s is).2 ++ (run step (run step s is).1 js).2) := by
  induction is generalizing s with
  | nil => simp
  | cons i is ih => simp [run_cons, ih]

theorem run_concat (s : σ) (is : List ι) (i : ι) :
    run step s (is ++ [i]) =
      ((step (run step s is).1 i).1, (run step s is).2 ++ (step (run step s is).1 i).2) := by
  simp [run_append, run_cons]

/-- **Invariant rule**: a property of inputs so far, state and outputs so far that holds at
the start and is kept by every step holds after every run. -/
theorem run_induction {motive : List ι → σ → List ω → Prop} {s : σ}
    (init : motive [] s [])
    (next : ∀ is i t os, motive is t os → motive (is ++ [i]) (step t i).1 (os ++ (step t i).2))
    (is : List ι) : motive is (run step s is).1 (run step s is).2 := by
  induction is using List.reverseRecOn with
  | nil => exact init
  | append_singleton is i ih =>
    rw [run_concat]
    exact next is i _ _ ih

end Mealy
