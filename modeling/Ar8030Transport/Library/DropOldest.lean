import Ar8030Transport.Library.Mealy
import Mathlib.Data.Nat.ModEq
import Mathlib.Logic.Function.Basic

/-!
# Bounded queues that drop their oldest item

`DropOldest.step cap` is a queue of at most `cap` items as a list: an item that is pushed goes to
the end, and if the queue is full the oldest one is dropped for it. Items leave in the order in
which they came, so what has left, followed by what is held, is what was pushed
(`left_append_held`). All else about a run is read off this. `DropOldest.drain` is what a reader
gets that pops until there is nothing left while others go on pushing.

`cyclic items head count` is the list in a ring of slots. Moving the head on takes the first item
off it (`cyclic_succ`), and writing behind its end appends (`cyclic_update`).
-/

namespace DropOldest

variable {α : Type*}

/-! ### The queue as a list -/

/-- An operation. -/
inductive Op (α : Type*) where
  | push (x : α)
  | pop

/-- The item an operation pushes. -/
def Op.pushed? : Op α → Option α
  | .push x => some x
  | .pop => none

/-- The items that are pushed, in order. -/
def pushed (ops : List (Op α)) : List α := ops.filterMap Op.pushed?

/-- An item leaves. -/
inductive Left (α : Type*) where
  | popped (x : α)
  | dropped (x : α)

def Left.item : Left α → α
  | .popped x => x
  | .dropped x => x

def Left.popped? : Left α → Option α
  | .popped x => some x
  | .dropped _ => none

def Left.isDropped : Left α → Bool
  | .popped _ => false
  | .dropped _ => true

/-- One operation on the items held. -/
def step (cap : ℕ) (held : List α) : Op α → List α × List (Left α)
  | .push x =>
    if held.length = cap then (held.tail ++ [x], held.head?.toList.map .dropped)
    else (held ++ [x], [])
  | .pop => (held.tail, held.head?.toList.map .popped)

/-- A run from the empty queue. -/
def run (cap : ℕ) (ops : List (Op α)) : List α × List (Left α) := Mealy.run (step cap) [] ops

theorem head?_append_tail (l : List α) : l.head?.toList ++ l.tail = l := by
  cases l <;> rfl

/-- What an operation takes off the front and puts at the end. -/
theorem step_append {cap : ℕ} (held : List α) (op : Op α) :
    (step cap held op).2.map Left.item ++ (step cap held op).1 =
      held ++ op.pushed?.toList := by
  have hdropped : (held.head?.toList.map Left.dropped).map Left.item = held.head?.toList := by
    cases held <;> rfl
  have hpopped : (held.head?.toList.map Left.popped).map Left.item = held.head?.toList := by
    cases held <;> rfl
  cases op with
  | push x =>
    rw [step]
    split_ifs
    · rw [hdropped, ← List.append_assoc, head?_append_tail]
      rfl
    · rfl
  | pop => rw [step, hpopped, head?_append_tail, Op.pushed?, Option.toList_none, List.append_nil]

/-- **Items leave in order**: what has left, followed by what is held, is what was pushed. -/
theorem left_append_held (cap : ℕ) (ops : List (Op α)) :
    (run cap ops).2.map Left.item ++ (run cap ops).1 = pushed ops := by
  refine Mealy.run_induction (step cap)
    (motive := fun ops held left => left.map Left.item ++ held = pushed ops)
    rfl (fun ops op held left ih => ?_) ops
  rw [List.map_append, List.append_assoc, step_append, ← List.append_assoc, ih, pushed, pushed,
    List.filterMap_append]
  cases op <;> rfl

/-- Items are popped in the order in which they were pushed, none twice. -/
theorem popped_sublist (cap : ℕ) (ops : List (Op α)) :
    ((run cap ops).2.filterMap Left.popped?).Sublist (pushed ops) := by
  have hitems : ∀ left : List (Left α), (left.filterMap Left.popped?).Sublist
      (left.map Left.item) := by
    intro left
    induction left with
    | nil => exact List.Sublist.refl _
    | cons e left ih =>
      cases e with
      | popped x => exact ih.cons_cons x
      | dropped x => exact ih.cons x
  rw [← left_append_held cap ops]
  exact (hitems _).trans (List.sublist_append_left _ _)

/-- Every item pushed was popped or dropped, or is held. -/
theorem length_pushed (cap : ℕ) (ops : List (Op α)) :
    (pushed ops).length = ((run cap ops).2.filterMap Left.popped?).length +
      (run cap ops).2.countP Left.isDropped + (run cap ops).1.length := by
  have hleft : ∀ left : List (Left α), left.length =
      (left.filterMap Left.popped?).length + left.countP Left.isDropped := by
    intro left
    induction left with
    | nil => rfl
    | cons e left ih =>
      cases e with
      | popped x =>
        rw [List.filterMap_cons_some (show Left.popped? (.popped x) = some x from rfl),
          List.countP_cons_of_neg (by simp [Left.isDropped]), List.length_cons,
          List.length_cons, ih]
        omega
      | dropped x =>
        rw [List.filterMap_cons_none (show Left.popped? (.dropped x) = none from rfl),
          List.countP_cons_of_pos rfl, List.length_cons, ih]
        omega
  rw [← left_append_held cap ops, List.length_append, List.length_map, hleft]

/-! ### Draining -/

/-- The items held after some more are pushed. -/
def pushAll (cap : ℕ) (held xs : List α) : List α :=
  xs.foldl (fun held x => (step cap held (.push x)).1) held

/-- What is popped until nothing is left, with a row of items pushed before each of the first
pops. -/
def drain (cap : ℕ) : List (List α) → List α → List α
  | [], held => held
  | xs :: rows, held =>
    match pushAll cap held xs with
    | [] => []
    | x :: held => x :: drain cap rows held

/-- Nothing is left. -/
theorem drain_of_nil {cap : ℕ} {rows : List (List α)} {held : List α}
    (h : pushAll cap held (rows.headD []) = []) : drain cap rows held = [] := by
  cases rows with
  | nil => exact h
  | cons xs rows =>
    rw [drain, show pushAll cap held xs = [] from h]

/-- One item is popped, and then the others. -/
theorem drain_of_cons {cap : ℕ} {rows : List (List α)} {held held' : List α} {x : α}
    (h : pushAll cap held (rows.headD []) = x :: held') :
    drain cap rows held = x :: drain cap rows.tail held' := by
  cases rows with
  | nil => exact h
  | cons xs rows =>
    rw [drain, show pushAll cap held xs = x :: held' from h]
    rfl

/-! ### The list in a ring -/

variable {n : ℕ} [NeZero n]

/-- `count` items from slot `head` on, cyclically. -/
def cyclic (items : Fin n → α) (head count : ℕ) : List α :=
  (List.range count).map fun i => items (Fin.ofNat n (head + i))

@[simp]
theorem length_cyclic (items : Fin n → α) (head count : ℕ) :
    (cyclic items head count).length = count := by
  rw [cyclic, List.length_map, List.length_range]

@[simp]
theorem cyclic_zero (items : Fin n → α) (head : ℕ) : cyclic items head 0 = [] := rfl

/-- A head counts modulo the slots. -/
theorem cyclic_mod (items : Fin n → α) (head count : ℕ) :
    cyclic items (head % n) count = cyclic items head count := by
  refine List.map_congr_left fun i _ => congrArg items (Fin.ext ?_)
  exact Nat.mod_add_mod head n i

/-- The first item, and those behind it. -/
theorem cyclic_succ (items : Fin n → α) (head count : ℕ) :
    cyclic items head (count + 1) =
      items (Fin.ofNat n head) :: cyclic items ((head + 1) % n) count := by
  rw [cyclic_mod, cyclic, List.range_succ_eq_map, List.map_cons, List.map_map]
  refine congrArg _ (List.map_congr_left fun i _ => ?_)
  rw [Function.comp_apply, Nat.succ_eq_add_one, Nat.add_assoc, Nat.add_comm 1 i]

/-- Slots at different distances from the head are different. -/
theorem ofNat_add_ne {head i j : ℕ} (hij : i < j) (hj : j < n) :
    Fin.ofNat n (head + i) ≠ Fin.ofNat n (head + j) := by
  intro h
  have hmod : (head + i) % n = (head + j) % n := congrArg Fin.val h
  have hi : i % n = j % n := Nat.ModEq.add_left_cancel' head hmod
  rw [Nat.mod_eq_of_lt (hij.trans hj), Nat.mod_eq_of_lt hj] at hi
  exact Nat.ne_of_lt hij hi

/-- **Writing behind the end** appends, as long as there is a free slot. -/
theorem cyclic_update (items : Fin n → α) (head : ℕ) {count : ℕ} (hcount : count < n) (x : α) :
    cyclic (Function.update items (Fin.ofNat n (head + count)) x) head (count + 1) =
      cyclic items head count ++ [x] := by
  rw [cyclic, List.range_succ, List.map_append, List.map_singleton, Function.update_self]
  refine congrArg (· ++ [x]) (List.map_congr_left fun i hi => ?_)
  exact Function.update_of_ne (ofNat_add_ne (List.mem_range.mp hi) hcount) _ _

end DropOldest
