import Mathlib.Data.List.Nodup

/-!
# Handles that are opened and closed

Handles are named by the number of their opening, so that two handles are never the same even if
their addresses are. A `HandleTable` counts the openings and lists the closings as they happen.
It is `Sound` if every handle that was closed had been opened, and none was closed twice: closing
a live handle keeps it so.
-/

/-- The openings and the closings of handles of one kind. -/
structure HandleTable where
  opened : ℕ
  closed : List ℕ
  deriving DecidableEq, Repr

namespace HandleTable

/-- Nothing was opened yet. -/
def empty : HandleTable := ⟨0, []⟩

/-- The next handle is opened; its name is the number of those before it. -/
def openNext (p : HandleTable) : HandleTable := { p with opened := p.opened + 1 }

/-- A handle is closed. -/
def close (p : HandleTable) (h : ℕ) : HandleTable := { p with closed := p.closed ++ [h] }

/-- The handle was opened and not closed since. -/
def Live (p : HandleTable) (h : ℕ) : Prop := h < p.opened ∧ h ∉ p.closed

instance (p : HandleTable) (h : ℕ) : Decidable (p.Live h) := inferInstanceAs (Decidable (_ ∧ _))

/-- Only what was open was closed. -/
structure Sound (p : HandleTable) : Prop where
  nodup : p.closed.Nodup
  lt_opened : ∀ h ∈ p.closed, h < p.opened

variable {p : HandleTable} {h k : ℕ}

@[simp]
theorem not_live_empty : ¬ empty.Live h := by
  simp [empty, Live]

theorem sound_empty : empty.Sound :=
  ⟨List.nodup_nil, by simp [empty]⟩

theorem Sound.openNext (hp : p.Sound) : p.openNext.Sound :=
  ⟨hp.nodup, fun h hh => Nat.lt_succ_of_lt (hp.lt_opened h hh)⟩

theorem Sound.close (hp : p.Sound) (hh : p.Live h) : (p.close h).Sound := by
  refine ⟨?_, fun k hk => ?_⟩
  · exact List.nodup_append.mpr ⟨hp.nodup, List.nodup_singleton h, fun k hk j hj => by
      rintro rfl
      exact hh.2 (List.mem_singleton.mp hj ▸ hk)⟩
  · rcases List.mem_append.mp hk with hk | hk
    · exact hp.lt_opened k hk
    · exact List.mem_singleton.mp hk ▸ hh.1

/-- The new handle is open. -/
theorem Sound.live_opened (hp : p.Sound) : p.openNext.Live p.opened :=
  ⟨Nat.lt_succ_self _, fun hmem => Nat.lt_irrefl _ (hp.lt_opened _ hmem)⟩

theorem Live.openNext (hh : p.Live h) : p.openNext.Live h :=
  ⟨Nat.lt_succ_of_lt hh.1, hh.2⟩

/-- Opening adds the new handle and no other. -/
theorem Live.of_openNext (hh : p.openNext.Live h) : p.Live h ∨ h = p.opened := by
  rcases Nat.lt_succ_iff_lt_or_eq.mp hh.1 with hlt | heq
  · exact .inl ⟨hlt, hh.2⟩
  · exact .inr heq

/-- Closing takes away the handle and no other. -/
theorem live_close : (p.close h).Live k ↔ p.Live k ∧ k ≠ h := by
  simp [HandleTable.close, Live, and_assoc]

theorem not_live_close : ¬ (p.close h).Live h := fun hh => (live_close.mp hh).2 rfl

end HandleTable
