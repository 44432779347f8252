import Ar8030Transport.Library.DropOldest
import Ar8030Transport.Wire.Control

/-!
# The queue of auxiliary chunks

`tx/outq.c`: a ring of `TX_OUTQ_DEPTH` items between the threads that answer the ground and the
send loop. Both operations hold the queue's mutex, so an interleaving of the threads is a list of
operations.

`TxOutq.contents` is the list in the ring, and on it the operations are those of a bounded queue
that drops its oldest item (`outqStep_refines`).
-/

namespace Ar8030

open DropOldest

/-- `TX_OUTQ_DEPTH`. -/
def txOutqDepth : ℕ := 16

instance : NeZero txOutqDepth := ⟨by decide⟩

/-- `tx_outq_t`. -/
structure TxOutq where
  items : Fin txOutqDepth → TxOutqItem
  head : ℕ
  count : ℕ
  dropped : ℕ
  head_lt : head < txOutqDepth
  count_le : count ≤ txOutqDepth

/-- `tx_outq_init`. -/
def TxOutq.init : TxOutq where
  items _ := ⟨[], 0, false, 0, 0, 0⟩
  head := 0
  count := 0
  dropped := 0
  head_lt := by decide
  count_le := by decide

/-- `head` moves past the oldest item. -/
def TxOutq.advance (q : TxOutq) : TxOutq :=
  { q with
    head := (q.head + 1) % txOutqDepth
    count := q.count - 1
    head_lt := Nat.mod_lt _ (by decide)
    count_le := (Nat.sub_le _ _).trans q.count_le }

/-- A full queue drops its oldest item. -/
def TxOutq.makeRoom (q : TxOutq) : TxOutq :=
  if q.count = txOutqDepth then { q.advance with dropped := q.dropped + 1 } else q

theorem TxOutq.makeRoom_lt (q : TxOutq) : q.makeRoom.count < txOutqDepth := by
  rw [TxOutq.makeRoom]
  split_ifs with hfull
  · exact lt_of_lt_of_le (Nat.sub_lt (hfull ▸ by decide) Nat.one_pos) q.count_le
  · exact lt_of_le_of_ne q.count_le hfull

/-- `tx_outq_push`. -/
def txOutqPush (q : TxOutq) (item : TxOutqItem) : TxOutq :=
  { q.makeRoom with
    items := Function.update q.makeRoom.items
      (Fin.ofNat txOutqDepth (q.makeRoom.head + q.makeRoom.count)) item
    count := q.makeRoom.count + 1
    count_le := q.makeRoom_lt }

/-- `tx_outq_pop`; `none` is the return value 0. -/
def txOutqPop (q : TxOutq) : Option TxOutqItem × TxOutq :=
  if q.count = 0 then (none, q) else (some (q.items ⟨q.head, q.head_lt⟩), q.advance)

/-- One operation, and the item it returns. -/
def outqStep (q : TxOutq) : Op TxOutqItem → TxOutq × List TxOutqItem
  | .push item => (txOutqPush q item, [])
  | .pop => ((txOutqPop q).2, (txOutqPop q).1.toList)

/-- A run from the initialised queue. -/
def outqRun (ops : List (Op TxOutqItem)) : TxOutq × List TxOutqItem :=
  Mealy.run outqStep TxOutq.init ops

/-! ### Its contents -/

/-- `items[head .. head + count)`, cyclically. -/
def TxOutq.contents (q : TxOutq) : List TxOutqItem := cyclic q.items q.head q.count

@[simp]
theorem TxOutq.length_contents (q : TxOutq) : q.contents.length = q.count := length_cyclic ..

/-- `head` moves past the first item. -/
theorem TxOutq.contents_advance (q : TxOutq) : q.advance.contents = q.contents.tail := by
  show cyclic q.items ((q.head + 1) % txOutqDepth) (q.count - 1) =
    (cyclic q.items q.head q.count).tail
  cases q.count with
  | zero => rfl
  | succ count => rw [cyclic_succ, List.tail_cons, Nat.add_sub_cancel]

theorem TxOutq.contents_makeRoom (q : TxOutq) :
    q.makeRoom.contents = if q.count = txOutqDepth then q.contents.tail else q.contents := by
  rw [TxOutq.makeRoom]
  split_ifs
  · exact q.contents_advance
  · rfl

theorem contents_push (q : TxOutq) (item : TxOutqItem) :
    (txOutqPush q item).contents = q.makeRoom.contents ++ [item] :=
  cyclic_update _ _ q.makeRoom_lt item

/-- The item that is popped is the first. -/
theorem popped_eq (q : TxOutq) : (txOutqPop q).1 = q.contents.head? := by
  rw [txOutqPop, TxOutq.contents]
  split_ifs with hempty
  · rw [hempty]
    rfl
  · obtain ⟨count, hcount⟩ := Nat.exists_eq_succ_of_ne_zero hempty
    rw [hcount, Nat.succ_eq_add_one, cyclic_succ, List.head?_cons]
    refine congrArg some (congrArg q.items (Fin.ext ?_))
    exact (Nat.mod_eq_of_lt q.head_lt).symm

theorem contents_pop (q : TxOutq) : (txOutqPop q).2.contents = q.contents.tail := by
  rw [txOutqPop]
  split_ifs with hempty
  · have hnil : q.contents = [] := List.length_eq_zero_iff.mp (q.length_contents.trans hempty)
    rw [hnil]
    rfl
  · exact q.contents_advance

/-! ### It drops its oldest -/

/-- **One operation** on the ring is the operation on its contents. -/
theorem outqStep_refines (q : TxOutq) (op : Op TxOutqItem) :
    (outqStep q op).1.contents = (step txOutqDepth q.contents op).1 ∧
      (outqStep q op).2 = (step txOutqDepth q.contents op).2.filterMap Left.popped? ∧
      (outqStep q op).1.dropped =
        q.dropped + (step txOutqDepth q.contents op).2.countP Left.isDropped := by
  cases op with
  | push item =>
    rw [outqStep, step, q.length_contents, contents_push, q.contents_makeRoom]
    have hdropped : (txOutqPush q item).dropped = q.makeRoom.dropped := rfl
    rw [hdropped, TxOutq.makeRoom]
    split_ifs with hfull
    · -- a full queue has an oldest item
      obtain ⟨x, l, hl⟩ : ∃ x l, q.contents = x :: l := by
        refine List.exists_cons_of_length_pos ?_
        rw [q.length_contents, hfull]
        decide
      rw [hl]
      exact ⟨rfl, rfl, rfl⟩
    · exact ⟨rfl, rfl, rfl⟩
  | pop =>
    rw [outqStep, step, contents_pop, popped_eq]
    have hdropped : (txOutqPop q).2.dropped = q.dropped := by
      rw [txOutqPop]
      split_ifs <;> rfl
    rw [hdropped]
    cases q.contents <;> exact ⟨rfl, rfl, rfl⟩

/-- A run on the ring is the run on its contents. -/
theorem outqRun_refines (ops : List (Op TxOutqItem)) :
    (outqRun ops).1.contents = (run txOutqDepth ops).1 ∧
      (outqRun ops).2 = (run txOutqDepth ops).2.filterMap Left.popped? ∧
      (outqRun ops).1.dropped = (run txOutqDepth ops).2.countP Left.isDropped := by
  induction ops using List.reverseRecOn with
  | nil => exact ⟨rfl, rfl, rfl⟩
  | append_singleton ops op ih =>
    obtain ⟨hcontents, hpopped, hdropped⟩ := ih
    obtain ⟨hcontents', hpopped', hdropped'⟩ := outqStep_refines (outqRun ops).1 op
    rw [outqRun, run, Mealy.run_concat, Mealy.run_concat]
    rw [hcontents] at hcontents' hpopped' hdropped'
    refine ⟨hcontents', ?_, ?_⟩
    · rw [List.filterMap_append]
      exact congrArg₂ _ hpopped hpopped'
    · rw [List.countP_append]
      exact hdropped'.trans (congrArg (· + _) hdropped)

/-- **The queue is a bounded queue that drops its oldest item**, over every interleaving of its
operations. -/
theorem outq_dropOldest (ops : List (Op TxOutqItem)) :
    (outqRun ops).1.contents = (run txOutqDepth ops).1 ∧
      (outqRun ops).2 = (run txOutqDepth ops).2.filterMap Left.popped? ∧
      (outqRun ops).2.Sublist (pushed ops) ∧
      (pushed ops).length =
        (outqRun ops).2.length + (outqRun ops).1.dropped + (outqRun ops).1.count ∧
      (outqRun ops).1.head < txOutqDepth ∧ (outqRun ops).1.count ≤ txOutqDepth := by
  obtain ⟨hcontents, hpopped, hdropped⟩ := outqRun_refines ops
  refine ⟨hcontents, hpopped, ?_, ?_, (outqRun ops).1.head_lt, (outqRun ops).1.count_le⟩
  · rw [hpopped]
    exact popped_sublist txOutqDepth ops
  · rw [hpopped, hdropped, ← (outqRun ops).1.length_contents, hcontents]
    exact length_pushed txOutqDepth ops

end Ar8030
