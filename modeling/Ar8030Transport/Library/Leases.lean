import Mathlib.Data.List.FinRange
import Mathlib.Data.List.Induction
import Mathlib.Logic.Function.Basic

/-!
# Tables of leases

A table has slots, each with a key and the time at which its lease ends. `renew` gives a key a
new lease: in the slot where it has one, else in one whose lease has ended, the first of them each
time. If there is neither, nothing changes.

As long as time does not go back, no two live entries have the same key (`Distinct.renew`), an
entry stays until its lease ends (`renew_of_ne`), and a key has a lease if and only if its last
request was granted and the lease has not ended (`holds_run_iff`).
-/

/-- A slot: the lease of `key` ends at `ends`. -/
structure Lease (κ : Type*) where
  key : κ
  ends : ℕ

/-- A table of `n` slots. -/
abbrev LeaseTable (κ : Type*) (n : ℕ) := Fin n → Lease κ

namespace LeaseTable

variable {κ : Type*} {n : ℕ} {table : LeaseTable κ n} {k k' : κ} {now t ttl : ℕ}

/-- The key has a lease at `t`. -/
def Holds (table : LeaseTable κ n) (t : ℕ) (k : κ) : Prop :=
  ∃ i, t < (table i).ends ∧ (table i).key = k

/-- The live entries have different keys. -/
def Distinct (table : LeaseTable κ n) (t : ℕ) : Prop :=
  ∀ i j, t < (table i).ends → t < (table j).ends → (table i).key = (table j).key → i = j

/-- A request of the key would be granted. -/
def Grants (table : LeaseTable κ n) (k : κ) (now : ℕ) : Prop :=
  table.Holds now k ∨ ∃ i, (table i).ends ≤ now

/-- What is live was live before. -/
theorem Holds.of_le (h : table.Holds t k) (hle : now ≤ t) : table.Holds now k :=
  Exists.imp (fun _ hi => ⟨lt_of_le_of_lt hle hi.1, hi.2⟩) h

theorem Distinct.of_le (h : table.Distinct now) (hle : now ≤ t) : table.Distinct t :=
  fun i j hi hj => h i j (lt_of_le_of_lt hle hi) (lt_of_le_of_lt hle hj)

/-- The requests before the last one came no later than it. -/
theorem le_of_pairwise_concat {calls : List (κ × ℕ)} {c : κ × ℕ}
    (h : (calls ++ [c]).Pairwise fun a b => a.2 ≤ b.2) :
    calls.Pairwise (fun a b => a.2 ≤ b.2) ∧ ∀ a ∈ calls, a.2 ≤ c.2 := by
  obtain ⟨hcalls, -, hlast⟩ := List.pairwise_append.mp h
  exact ⟨hcalls, fun a ha => hlast a ha c (List.mem_singleton_self c)⟩

variable [DecidableEq κ]

/-- The slot for a new lease of the key. -/
def slotFor (table : LeaseTable κ n) (k : κ) (now : ℕ) : Option (Fin n) :=
  ((List.finRange n).find? fun i => now < (table i).ends ∧ (table i).key = k).or
    ((List.finRange n).find? fun i => (table i).ends ≤ now)

/-- The key asks for a lease. -/
def renew (ttl : ℕ) (table : LeaseTable κ n) (k : κ) (now : ℕ) : LeaseTable κ n :=
  match table.slotFor k now with
  | some i => Function.update table i ⟨k, now + ttl⟩
  | none => table

/-! ### One request -/

/-- The slot is the one of the key, or a free one if the key has none. -/
theorem of_slotFor_eq_some {i : Fin n} (h : table.slotFor k now = some i) :
    (now < (table i).ends ∧ (table i).key = k) ∨
      (table i).ends ≤ now ∧ ¬table.Holds now k := by
  rw [slotFor] at h
  cases hlive : (List.finRange n).find? fun i => now < (table i).ends ∧ (table i).key = k with
  | some j =>
    rw [hlive, Option.some_or] at h
    obtain rfl := Option.some.inj h
    exact .inl (by simpa using List.find?_some hlive)
  | none =>
    rw [hlive, Option.none_or] at h
    refine .inr ⟨by simpa using List.find?_some h, ?_⟩
    rintro ⟨j, hj⟩
    exact List.find?_eq_none.mp hlive j (List.mem_finRange j) (decide_eq_true hj)

theorem slotFor_eq_none_iff : table.slotFor k now = none ↔ ¬table.Grants k now := by
  rw [slotFor, Grants, not_or]
  cases hlive : (List.finRange n).find? fun i => now < (table i).ends ∧ (table i).key = k with
  | some j =>
    have hj : now < (table j).ends ∧ (table j).key = k := by simpa using List.find?_some hlive
    exact iff_of_false (Option.some_ne_none j) fun h => h.1 ⟨j, hj⟩
  | none =>
    have hnot : ¬table.Holds now k := by
      rintro ⟨j, hj⟩
      exact List.find?_eq_none.mp hlive j (List.mem_finRange j) (decide_eq_true hj)
    simp [hnot, List.find?_eq_none]

/-- **What a request does**: a lease in a slot that is the key's or free, or nothing. -/
theorem renew_cases (ttl : ℕ) (table : LeaseTable κ n) (k : κ) (now : ℕ) :
    (∃ i, ((now < (table i).ends ∧ (table i).key = k) ∨
        (table i).ends ≤ now ∧ ¬table.Holds now k) ∧ table.Grants k now ∧
        table.renew ttl k now = Function.update table i ⟨k, now + ttl⟩) ∨
      ¬table.Grants k now ∧ table.renew ttl k now = table := by
  rw [renew]
  cases hslot : table.slotFor k now with
  | none => exact .inr ⟨slotFor_eq_none_iff.mp hslot, rfl⟩
  | some i =>
    have hgrants : table.Grants k now := by
      by_contra hnot
      rw [slotFor_eq_none_iff.mpr hnot] at hslot
      cases hslot
    exact .inl ⟨i, of_slotFor_eq_some hslot, hgrants, rfl⟩

/-- **A live entry stays**, whoever else asks. -/
theorem renew_of_ne {i : Fin n} (hi : now < (table i).ends) (hne : (table i).key ≠ k) :
    table.renew ttl k now i = table i := by
  obtain ⟨j, hj, -, heq⟩ | ⟨-, heq⟩ := renew_cases ttl table k now
  · rw [heq]
    refine Function.update_of_ne ?_ _ _
    rintro rfl
    obtain ⟨-, hkey⟩ | ⟨hend, -⟩ := hj
    · exact hne hkey
    · exact Nat.not_lt.mpr hend hi
  · rw [heq]

/-- **No two live entries get the same key.** -/
theorem Distinct.renew (h : table.Distinct now) (hle : now ≤ t) :
    (table.renew ttl k now).Distinct t := by
  refine Distinct.of_le (fun i j hi hj hkey => ?_) hle
  obtain ⟨slot, hslot, -, heq⟩ | ⟨-, heq⟩ := renew_cases ttl table k now
  · -- another live entry with the key would have been renewed itself
    have hother : ∀ x, x ≠ slot → now < (table x).ends → (table x).key ≠ k := by
      intro x hx hlive hk
      obtain ⟨hs, hsk⟩ | ⟨-, hnot⟩ := hslot
      · exact hx (h x slot hlive hs (hk.trans hsk.symm))
      · exact hnot ⟨x, hlive, hk⟩
    rw [heq] at hi hj hkey
    by_cases his : i = slot <;> by_cases hjs : j = slot
    · rw [his, hjs]
    · rw [his, Function.update_self, Function.update_of_ne hjs] at hkey
      rw [Function.update_of_ne hjs] at hj
      exact absurd hkey.symm (hother j hjs hj)
    · rw [hjs, Function.update_self, Function.update_of_ne his] at hkey
      rw [Function.update_of_ne his] at hi
      exact absurd hkey (hother i his hi)
    · rw [Function.update_of_ne his] at hi hkey
      rw [Function.update_of_ne hjs] at hj hkey
      exact h i j hi hj hkey
  · rw [heq] at hi hj hkey
    exact h i j hi hj hkey

/-- The key that asks holds a lease until it ends, if it was granted. -/
theorem holds_renew_self (h : table.Distinct now) (hle : now ≤ t) :
    (table.renew ttl k now).Holds t k ↔ table.Grants k now ∧ t < now + ttl := by
  obtain ⟨slot, hslot, hgrants, heq⟩ | ⟨hnot, heq⟩ := renew_cases ttl table k now
  · rw [heq]
    constructor
    · rintro ⟨i, hi, hk⟩
      refine ⟨hgrants, ?_⟩
      by_cases his : i = slot
      · rw [his, Function.update_self] at hi
        exact hi
      · rw [Function.update_of_ne his] at hi hk
        have hi' := lt_of_le_of_lt hle hi
        obtain ⟨hs, hsk⟩ | ⟨-, hnone⟩ := hslot
        · exact absurd (h i slot hi' hs (hk.trans hsk.symm)) his
        · exact absurd ⟨i, hi', hk⟩ hnone
    · rintro ⟨-, hlt⟩
      refine ⟨slot, ?_, ?_⟩ <;> rw [Function.update_self]
      exact hlt
  · rw [heq]
    exact iff_of_false (fun hh => hnot (.inl (hh.of_le hle))) fun hg => hnot hg.1

/-- Another key's leases are what they were. -/
theorem holds_renew_of_ne (hne : k' ≠ k) (hle : now ≤ t) :
    (table.renew ttl k' now).Holds t k ↔ table.Holds t k := by
  constructor
  · rintro ⟨i, hi, hk⟩
    obtain ⟨slot, -, -, heq⟩ | ⟨-, heq⟩ := renew_cases ttl table k' now
    · rw [heq] at hi hk
      by_cases his : i = slot
      · rw [his, Function.update_self] at hk
        exact absurd hk hne
      · rw [Function.update_of_ne his] at hi hk
        exact ⟨i, hi, hk⟩
    · rw [heq] at hi hk
      exact ⟨i, hi, hk⟩
  · rintro ⟨i, hi, hk⟩
    have hstays : table.renew ttl k' now i = table i :=
      renew_of_ne (lt_of_le_of_lt hle hi) fun hk' => hne (hk'.symm.trans hk)
    refine ⟨i, ?_, ?_⟩ <;> rw [hstays] <;> assumption

/-! ### Runs -/

section Run

variable (ttl) (start : LeaseTable κ n)

/-- The table after these requests. -/
def run (calls : List (κ × ℕ)) : LeaseTable κ n :=
  calls.foldl (fun table c => table.renew ttl c.1 c.2) start

variable {ttl start} {calls : List (κ × ℕ)}

theorem run_concat (calls : List (κ × ℕ)) (c : κ × ℕ) :
    run ttl start (calls ++ [c]) = (run ttl start calls).renew ttl c.1 c.2 := List.foldl_concat ..

/-- From a table without leases, the live entries of every run have different keys. -/
theorem distinct_run (hstart : ∀ i, (start i).ends = 0)
    (hsorted : calls.Pairwise fun a b => a.2 ≤ b.2) (ht : ∀ c ∈ calls, c.2 ≤ t) :
    (run ttl start calls).Distinct t := by
  induction calls using List.reverseRecOn generalizing t with
  | nil =>
    intro i j hi
    rw [run, List.foldl_nil, hstart i] at hi
    exact absurd hi (Nat.not_lt_zero t)
  | append_singleton calls c ih =>
    obtain ⟨hcalls, hlast⟩ := le_of_pairwise_concat hsorted
    rw [run_concat]
    exact (ih hcalls hlast).renew (ht c (by simp))

/-- **Who holds a lease**: the keys whose last request was granted less than `ttl` ago. -/
theorem holds_run_iff (hstart : ∀ i, (start i).ends = 0)
    (hsorted : calls.Pairwise fun a b => a.2 ≤ b.2) (ht : ∀ c ∈ calls, c.2 ≤ t) :
    (run ttl start calls).Holds t k ↔
      ∃ pre now post, calls = pre ++ (k, now) :: post ∧ (∀ c ∈ post, c.1 ≠ k) ∧
        (run ttl start pre).Grants k now ∧ t < now + ttl := by
  induction calls using List.reverseRecOn with
  | nil =>
    refine iff_of_false ?_ (by simp)
    rintro ⟨i, hi, -⟩
    rw [run, List.foldl_nil, hstart i] at hi
    exact Nat.not_lt_zero t hi
  | append_singleton calls c ih =>
    obtain ⟨hcalls, hlast⟩ := le_of_pairwise_concat hsorted
    have hc : c.2 ≤ t := ht c (by simp)
    rw [run_concat]
    by_cases hk : c.1 = k
    · obtain ⟨k', now⟩ := c
      obtain rfl : k' = k := hk
      rw [holds_renew_self (distinct_run hstart hcalls hlast) hc]
      constructor
      · rintro ⟨hgrants, hlt⟩
        exact ⟨calls, now, [], rfl, by simp, hgrants, hlt⟩
      · -- the request is the key's last one
        rintro ⟨pre, now', post, heq, hpost, hgrants, hlt⟩
        obtain rfl : post = [] := by
          rcases List.eq_nil_or_concat post with hnil | ⟨post', x, rfl⟩
          · exact hnil
          · have heq' : calls ++ [(k', now)] = (pre ++ (k', now') :: post') ++ [x] := by
              simpa using heq
            obtain rfl : (k', now) = x := by simpa using (List.append_inj' heq' rfl).2
            exact absurd rfl (hpost (k', now) (by simp))
        obtain ⟨rfl, hx⟩ := List.append_inj' heq rfl
        obtain rfl : now = now' := by simpa using hx
        exact ⟨hgrants, hlt⟩
    · rw [holds_renew_of_ne hk hc, ih hcalls fun a ha => ht a (by simp [ha])]
      constructor
      · rintro ⟨pre, now, post, rfl, hpost, hgrants, hlt⟩
        refine ⟨pre, now, post ++ [c], by simp, fun a ha => ?_, hgrants, hlt⟩
        rcases List.mem_append.mp ha with ha | ha
        · exact hpost a ha
        · rw [List.mem_singleton.mp ha]
          exact hk
      · rintro ⟨pre, now, post, heq, hpost, hgrants, hlt⟩
        rcases List.eq_nil_or_concat post with rfl | ⟨post', x, rfl⟩
        · obtain rfl : c = (k, now) := by simpa using (List.append_inj' heq rfl).2
          exact absurd rfl hk
        · have heq' : calls ++ [c] = (pre ++ (k, now) :: post') ++ [x] := by
            simpa using heq
          exact ⟨pre, now, post', (List.append_inj' heq' rfl).1,
            fun a ha => hpost a (by simp [ha]), hgrants, hlt⟩

end Run

end LeaseTable
