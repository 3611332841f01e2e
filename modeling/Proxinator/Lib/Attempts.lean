import Mathlib.Order.Bounds.Basic

/-!
# Bounded retrying

Attempts are made in turn. The first one that `stops` is the last, and so is the one that is
made when the budget of further attempts is used up.

## Main results

* `isLeast_or_exhausted` — the last attempt is the least one within the budget that stops, or
  the last one within the budget if none does.
-/

namespace Proxinator.Lib

variable {stops : ℕ → Prop} {budget k : ℕ}

/-- Attempt `k` is the last one, with a budget of further attempts. -/
structure LastAttempt (stops : ℕ → Prop) (budget k : ℕ) : Prop where
  le_budget : k ≤ budget
  last : stops k ∨ k = budget
  others : ∀ i < k, ¬ stops i

namespace LastAttempt

/-- The first attempt stops. -/
theorem of_stops (h : stops 0) : LastAttempt stops budget 0 :=
  ⟨budget.zero_le, Or.inl h, fun i hi => absurd hi i.not_lt_zero⟩

/-- There is no further attempt. -/
theorem of_exhausted : LastAttempt stops 0 0 :=
  ⟨le_rfl, Or.inr rfl, fun i hi => absurd hi i.not_lt_zero⟩

/-- The first attempt does not stop, and the others are made with one less in the budget. -/
theorem of_retry (h : ¬ stops 0) (hretried : LastAttempt (fun i => stops (i + 1)) budget k) :
    LastAttempt stops (budget + 1) (k + 1) := by
  refine ⟨Nat.succ_le_succ hretried.le_budget, ?_, ?_⟩
  · exact hretried.last.imp id (congrArg Nat.succ)
  · intro i hi
    cases i with
    | zero => exact h
    | succ i => exact hretried.others i (Nat.lt_of_succ_lt_succ hi)

/-- **The last attempt is the first within the budget that stops, if one does.** -/
theorem isLeast_or_exhausted (h : LastAttempt stops budget k) :
    IsLeast {i | i ≤ budget ∧ stops i} k ∨ k = budget ∧ ∀ i ≤ budget, ¬ stops i := by
  have hleast : ∀ i, stops i → k ≤ i := by
    intro i hi
    by_contra hlt
    exact h.others i (Nat.not_le.mp hlt) hi
  by_cases hstops : stops k
  · exact Or.inl ⟨⟨h.le_budget, hstops⟩, fun i hi => hleast i hi.2⟩
  · obtain rfl : k = budget := h.last.resolve_left hstops
    refine Or.inr ⟨rfl, fun i hi hi' => hstops ?_⟩
    have heq : i = k := le_antisymm hi (hleast i hi')
    rwa [← heq]

end LastAttempt

end Proxinator.Lib
