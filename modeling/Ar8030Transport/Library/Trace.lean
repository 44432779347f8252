import Mathlib.Data.List.DropRight
import Mathlib.Data.List.Induction

/-!
# Traces of events

Notions for traces that grow at their end. `Always P tr` says that every event of the trace
satisfies `P` together with what came before it; a property of this form only has to be
checked for the events a step adds. `sinceLast start tr` is what happened since the last event
that starts something new, `cutAt stop tr` cuts a trace into what lies between the events that
end something, and `trailing p tr` counts the events at the end that satisfy `p` in a row.
`beforeLast q tr` is what happened before the last event that satisfies `q`; counting the events
of another kind in it tells which of them came before that event.
-/

namespace Trace

variable {ε : Type*}

/-! ### Properties of events and their past -/

/-- Every event satisfies `P` together with the events before it. -/
def Always (P : List ε → ε → Prop) (tr : List ε) : Prop :=
  ∀ pre e post, tr = pre ++ e :: post → P pre e

variable {P : List ε → ε → Prop} {tr : List ε}

theorem always_nil : Always P [] := by
  intro pre e post h
  simp at h

theorem Always.concat (h : Always P tr) {e : ε} (he : P tr e) : Always P (tr ++ [e]) := by
  intro pre x post heq
  rcases List.eq_nil_or_concat post with rfl | ⟨post', y, rfl⟩
  · obtain ⟨rfl, hx⟩ := List.append_inj' heq rfl
    obtain rfl : e = x := by simpa using hx
    exact he
  · have hsplit : tr ++ [e] = (pre ++ x :: post') ++ [y] := by
      simpa using heq
    exact h pre x post' (List.append_inj' hsplit rfl).1

theorem always_concat_iff {e : ε} : Always P (tr ++ [e]) ↔ Always P tr ∧ P tr e := by
  refine ⟨fun h => ⟨fun pre x post heq => ?_, h tr e [] rfl⟩, fun h => h.1.concat h.2⟩
  exact h pre x (post ++ [e]) (by simp [heq])

/-- Adding events one after another. -/
theorem Always.append (h : Always P tr) {es : List ε}
    (hes : ∀ pre e post, es = pre ++ e :: post → P (tr ++ pre) e) : Always P (tr ++ es) := by
  induction es using List.reverseRecOn with
  | nil => simpa using h
  | append_singleton es e ih =>
    rw [← List.append_assoc]
    refine (ih fun pre x post heq => ?_).concat ?_
    · exact hes pre x (post ++ [e]) (by simp [heq])
    · exact hes es e [] rfl

theorem always_iff_forall_lt :
    Always P tr ↔ ∀ i, (h : i < tr.length) → P (tr.take i) tr[i] := by
  refine ⟨fun h i hi => ?_, fun h pre e post heq => ?_⟩
  · exact h _ _ (tr.drop (i + 1)) (by rw [List.getElem_cons_drop, List.take_append_drop])
  · subst heq
    simpa using h pre.length (by simp)

/-- What always holds held in the past. -/
theorem Always.of_append {pre post : List ε} (h : Always P (pre ++ post)) : Always P pre := by
  rintro past e rest rfl
  exact h past e (rest ++ post) (by simp)

instance [∀ past e, Decidable (P past e)] : Decidable (Always P tr) :=
  decidable_of_iff (∀ i, (h : i < tr.length) → P (tr.take i) tr[i]) always_iff_forall_lt.symm

/-! ### Since the last start -/

/-- The events from the last start on, or all of them. -/
def sinceLast (start : ε → Bool) (tr : List ε) : List ε :=
  tr.foldl (fun acc e => if start e then [e] else acc ++ [e]) []

variable {start : ε → Bool}

@[simp]
theorem sinceLast_nil : sinceLast start [] = [] := rfl

theorem sinceLast_concat (tr : List ε) (e : ε) :
    sinceLast start (tr ++ [e]) = if start e then [e] else sinceLast start tr ++ [e] := by
  rw [sinceLast, List.foldl_append]
  rfl

/-- Events that start nothing are added at the end. -/
theorem sinceLast_append {es : List ε} (hes : ∀ e ∈ es, start e = false) :
    sinceLast start (tr ++ es) = sinceLast start tr ++ es := by
  induction es using List.reverseRecOn with
  | nil => simp
  | append_singleton es e ih =>
    rw [← List.append_assoc, sinceLast_concat, hes e (by simp), if_neg (by simp),
      ih fun x hx => hes x (by simp [hx]), List.append_assoc]

/-! ### Between two stops -/

/-- The segments of the trace that a stop has ended, and what came after the last one. The
stops themselves are left out. -/
def cutAt (stop : ε → Bool) (tr : List ε) : List (List ε) × List ε :=
  tr.foldl (fun acc e => if stop e then (acc.1 ++ [acc.2], []) else (acc.1, acc.2 ++ [e])) ([], [])

variable {stop : ε → Bool}

@[simp]
theorem cutAt_nil : cutAt stop [] = ([], []) := rfl

theorem cutAt_concat (tr : List ε) (e : ε) :
    cutAt stop (tr ++ [e]) =
      if stop e then ((cutAt stop tr).1 ++ [(cutAt stop tr).2], [])
      else ((cutAt stop tr).1, (cutAt stop tr).2 ++ [e]) := by
  rw [cutAt, List.foldl_append]
  rfl

/-- Events that stop nothing are added at the end. -/
theorem cutAt_append {es : List ε} (hes : ∀ e ∈ es, stop e = false) :
    cutAt stop (tr ++ es) = ((cutAt stop tr).1, (cutAt stop tr).2 ++ es) := by
  induction es using List.reverseRecOn with
  | nil => simp
  | append_singleton es e ih =>
    rw [← List.append_assoc, cutAt_concat, hes e (by simp), if_neg (by simp),
      ih fun x hx => hes x (by simp [hx]), List.append_assoc]

/-! ### In a row -/

/-- How many events at the end satisfy `p` in a row. -/
def trailing (p : ε → Bool) (tr : List ε) : ℕ := (tr.reverse.takeWhile p).length

variable {p : ε → Bool}

@[simp]
theorem trailing_nil : trailing p [] = 0 := rfl

theorem trailing_concat (tr : List ε) (e : ε) :
    trailing p (tr ++ [e]) = if p e then trailing p tr + 1 else 0 := by
  rw [trailing, List.reverse_append, List.reverse_singleton, List.singleton_append,
    List.takeWhile_cons]
  split
  · rfl
  · rfl

/-- The last `n` events satisfy `p`. -/
def LastAll (p : ε → Bool) (n : ℕ) (tr : List ε) : Prop :=
  n ≤ tr.length ∧ ∀ e ∈ tr.drop (tr.length - n), p e = true

instance (n : ℕ) : Decidable (LastAll p n tr) := inferInstanceAs (Decidable (_ ∧ _))

theorem lastAll_iff_le_trailing {n : ℕ} : LastAll p n tr ↔ n ≤ trailing p tr := by
  induction tr using List.reverseRecOn generalizing n with
  | nil => simp [LastAll]
  | append_singleton tr e ih =>
    rw [trailing_concat]
    cases n with
    | zero => simp [LastAll]
    | succ n =>
      have hdrop (hn : n ≤ tr.length) : (tr ++ [e]).drop ((tr ++ [e]).length - (n + 1)) =
          tr.drop (tr.length - n) ++ [e] := by
        rw [List.length_append, List.length_singleton, Nat.add_sub_add_right,
          List.drop_append_of_le_length (Nat.sub_le _ _)]
      constructor
      · rintro ⟨hlen, hall⟩
        have hn : n ≤ tr.length := by simpa using hlen
        rw [hdrop hn] at hall
        rw [if_pos (hall e (by simp))]
        exact Nat.succ_le_succ (ih.mp ⟨hn, fun x hx => hall x (by simp [hx])⟩)
      · intro h
        split at h
        · next he =>
          obtain ⟨hn, hall⟩ := ih.mpr (Nat.le_of_succ_le_succ h)
          refine ⟨by simpa using hn, ?_⟩
          rw [hdrop hn]
          intro x hx
          rcases List.mem_append.mp hx with hx | hx
          · exact hall x hx
          · rw [List.mem_singleton.mp hx]
            exact he
        · exact absurd h (Nat.not_succ_le_zero n)

/-! ### Before the last -/

/-- What happened before the last event that satisfies `q`, or nothing. -/
def beforeLast (q : ε → Bool) (tr : List ε) : List ε := (tr.rdropWhile fun e => !q e).dropLast

variable {q : ε → Bool}

@[simp]
theorem beforeLast_nil : beforeLast q [] = [] := rfl

theorem beforeLast_concat (tr : List ε) (e : ε) :
    beforeLast q (tr ++ [e]) = if q e then tr else beforeLast q tr := by
  rw [beforeLast, List.rdropWhile_concat]
  cases q e <;> simp [beforeLast]

theorem countP_beforeLast_le (tr : List ε) :
    (beforeLast q tr).countP p ≤ tr.countP p := by
  refine List.Sublist.countP_le ?_
  exact (List.dropLast_sublist _).trans (List.rdropWhile_prefix _ _).sublist

/-- An event came before the last one that satisfies `q` if it is counted there. -/
theorem countP_lt_beforeLast_iff {pre mid : List ε} {e : ε} (hp : p e = true) (hq : q e = false) :
    pre.countP p < (beforeLast q (pre ++ e :: mid)).countP p ↔ ∃ x ∈ mid, q x = true := by
  induction mid using List.reverseRecOn with
  | nil =>
    rw [beforeLast_concat, if_neg (by simp [hq])]
    simpa using countP_beforeLast_le pre
  | append_singleton mid x ih =>
    rw [show pre ++ e :: (mid ++ [x]) = (pre ++ e :: mid) ++ [x] by simp, beforeLast_concat]
    cases hx : q x with
    | false => simpa [hx] using ih
    | true =>
      refine iff_of_true ?_ ⟨x, by simp, hx⟩
      simp [List.countP_append, hp]

end Trace
