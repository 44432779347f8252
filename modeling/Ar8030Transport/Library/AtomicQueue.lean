import Mathlib.Data.List.Sublists
import Mathlib.Data.Nat.ModEq

/-!
# A bounded queue whose operations are atomic

What a queue of at most `cap` items shared by a writer and a reader is for: items are taken in the
order in which they were put, it is full only with `cap` items in it and empty only with none.
`run` tells whether a sequence of operations with their outcomes is one such a queue can show, and
what is in it then. An implementation whose steps can be matched with a sequence that `run`
accepts is linearizable.

In a ring of `n` slots the item number `k` since the start is in slot `k % n`, so the last `n` items
are in slots of their own (`mod_ne_of_lt`).
-/

namespace AtomicQueue

variable {α : Type*}

/-- An operation and its outcome. -/
inductive Event (α : Type*) where
  /-- An item is put into the queue. -/
  | put (x : α)
  /-- An item does not fit. -/
  | full
  /-- The oldest item is taken. -/
  | take (x : α)
  /-- The oldest item, which satisfies `p`, is removed without being taken. -/
  | discard (p : α → Bool)
  /-- There is nothing to take. -/
  | empty

def Event.put? : Event α → Option α
  | .put x => some x
  | _ => none

def Event.take? : Event α → Option α
  | .take x => some x
  | _ => none

variable [DecidableEq α] {cap : ℕ}

/-- The queue after an event, if it can show it. -/
def step (cap : ℕ) (q : List α) : Event α → Option (List α)
  | .put x => if q.length < cap then some (q ++ [x]) else none
  | .full => if q.length = cap then some q else none
  | .take x => if q.head? = some x then some q.tail else none
  | .discard p => if q.head?.any p then some q.tail else none
  | .empty => if q = [] then some q else none

/-- The queue after a sequence of events, if it can show them. -/
def run (cap : ℕ) : List α → List (Event α) → Option (List α)
  | q, [] => some q
  | q, e :: es => (step cap q e).bind fun q => run cap q es

@[simp]
theorem run_nil (q : List α) : run cap q [] = some q := rfl

theorem run_singleton (q : List α) (e : Event α) : run cap q [e] = step cap q e := by
  cases h : step cap q e <;> simp [run, h]

theorem run_append (q : List α) (es fs : List (Event α)) :
    run cap q (es ++ fs) = (run cap q es).bind fun q => run cap q fs := by
  induction es generalizing q with
  | nil => rfl
  | cons e es ih => simp only [List.cons_append, run, ih, Option.bind_assoc]

/-- Removing items that are known to be there. -/
theorem run_discard {p : α → Bool} {xs : List α} (hxs : ∀ x ∈ xs, p x = true) (q : List α) :
    run cap (xs ++ q) (List.replicate xs.length (.discard p)) = some q := by
  induction xs with
  | nil => rfl
  | cons x xs ih =>
    rw [List.length_cons, List.replicate_succ, run, step]
    have hhead : ((x :: xs ++ q).head?.any p) = true := hxs x List.mem_cons_self
    rw [if_pos hhead]
    exact ih fun y hy => hxs y (List.mem_cons_of_mem x hy)

/-! ### What a queue can show -/

/-- One event: what was put and what has been taken, against the queue. -/
theorem step_sublist {q q' taken put : List α} {e : Event α} (h : step cap q e = some q')
    (hsub : (taken ++ q).Sublist put) :
    (taken ++ e.take?.toList ++ q').Sublist (put ++ e.put?.toList) := by
  have htail : q.tail.Sublist q := List.tail_sublist q
  cases e with
  | put x =>
    rw [step] at h
    split_ifs at h
    obtain rfl := Option.some.inj h
    simpa [Event.take?, Event.put?] using hsub.append_right [x]
  | full =>
    rw [step] at h
    split_ifs at h
    obtain rfl := Option.some.inj h
    simpa [Event.take?, Event.put?] using hsub
  | take x =>
    rw [step] at h
    split_ifs at h with hhead
    obtain rfl := Option.some.inj h
    cases q with
    | nil => simp at hhead
    | cons y q =>
      obtain rfl : y = x := Option.some.inj hhead
      simpa [Event.take?, Event.put?] using hsub
  | discard p =>
    rw [step] at h
    split_ifs at h
    obtain rfl := Option.some.inj h
    simpa [Event.take?, Event.put?] using (htail.append_left taken).trans hsub
  | empty =>
    rw [step] at h
    split_ifs at h
    obtain rfl := Option.some.inj h
    simpa [Event.take?, Event.put?] using hsub

theorem run_sublist {q q' taken put : List α} {es : List (Event α)} (h : run cap q es = some q')
    (hsub : (taken ++ q).Sublist put) :
    (taken ++ es.filterMap Event.take? ++ q').Sublist (put ++ es.filterMap Event.put?) := by
  induction es generalizing q taken put with
  | nil =>
    obtain rfl := Option.some.inj h
    simpa using hsub
  | cons e es ih =>
    obtain ⟨r, hr, h⟩ := Option.bind_eq_some_iff.mp h
    have hrest := ih h (step_sublist hr hsub)
    cases hput : e.put? <;> cases htake : e.take? <;>
      simpa [List.filterMap_cons, hput, htake, List.append_assoc] using hrest

/-- **Items are taken in the order in which they were put**, none twice. -/
theorem take_sublist_put {q : List α} {es : List (Event α)} (h : run cap [] es = some q) :
    (es.filterMap Event.take?).Sublist (es.filterMap Event.put?) := by
  have hsub : (([] : List α) ++ []).Sublist [] := List.Sublist.refl _
  exact (List.sublist_append_left _ q).trans (by simpa using run_sublist h hsub)

/-! ### Slots -/

/-- Fewer than `n` apart, two items are in different slots. -/
theorem mod_ne_of_lt {n k l : ℕ} (hkl : k < l) (hln : l < k + n) : k % n ≠ l % n := by
  intro h
  have hdvd : n ∣ l - k := (Nat.modEq_iff_dvd' hkl.le).mp h
  exact absurd (Nat.le_of_dvd (by omega) hdvd) (by omega)

end AtomicQueue
