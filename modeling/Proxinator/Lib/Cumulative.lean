import Mathlib.Algebra.BigOperators.Group.List.Basic
import Mathlib.Algebra.BigOperators.Ring.List
import Mathlib.Algebra.Order.BigOperators.Group.List
import Mathlib.Algebra.Order.Floor.Ring
import Mathlib.Algebra.Order.Field.Basic
import Mathlib.Data.List.Induction

/-!
# Intervals of running totals

A list of weights cuts the range from zero to their sum into adjacent intervals, one for
each weight and as long as it. A point of the range lies in exactly one of them, and looking
for the first running total beyond the point finds it.

## Main definitions

* `totals ws` — the running totals of `ws`.
* `Owns ws x i` — `x` lies in the interval of the `i`-th weight.
* `modulo a b` — the representative of `a` modulo `b` between `0` and `b`.
-/

namespace Proxinator.Lib

/-! ## Running totals -/

section

variable {M : Type*} [AddMonoid M]

/-- The running totals of a list: each element together with all before it. -/
def totals (ws : List M) : List M :=
  (List.range ws.length).map fun i => (ws.take (i + 1)).sum

theorem getElem?_totals (ws : List M) {i : ℕ} (hi : i < ws.length) :
    (totals ws)[i]? = some (ws.take (i + 1)).sum := by
  simp [totals, hi]

theorem totals_concat (ws : List M) (w : M) : totals (ws ++ [w]) = totals ws ++ [ws.sum + w] := by
  rw [totals, totals, List.length_append, List.length_singleton, List.range_succ, List.map_append]
  congr 1
  · apply List.map_congr_left
    intro i hi
    rw [List.take_append_of_le_length (List.mem_range.mp hi)]
  · simp

/-- The running totals of a list begin with those of what it begins with. -/
theorem totals_begins {ws ws' : List M} (h : ws <+: ws') : totals ws <+: totals ws' := by
  obtain ⟨rest, rfl⟩ := h
  induction rest using List.reverseRecOn with
  | nil => simp
  | append_singleton rest w ih =>
      rw [← List.append_assoc, totals_concat]
      exact ih.trans (List.prefix_append _ _)

/-- A loop that adds each element to a pointer and records it computes the running totals. -/
theorem foldl_totals (ws : List M) :
    ws.foldl (fun (p : M × List M) w => (p.1 + w, p.2 ++ [p.1 + w])) (0, []) =
      (ws.sum, totals ws) := by
  induction ws using List.reverseRecOn with
  | nil => rfl
  | append_singleton ws w ih =>
      rw [List.foldl_append, ih, totals_concat]
      simp

end

/-! ## Intervals -/

section

variable {M : Type*} [AddCommMonoid M] [LinearOrder M]

/-- `x` lies in the interval between two neighbouring running totals. -/
def Owns (ws : List M) (x : M) (i : ℕ) : Prop := (ws.take i).sum ≤ x ∧ x < (ws.take (i + 1)).sum

/-- An index that owns a point is one of the list. -/
theorem Owns.lt_length {ws : List M} {x : M} {i : ℕ} (h : Owns ws x i) : i < ws.length := by
  by_contra hi
  have heq : ws.take (i + 1) = ws.take i := by
    rw [List.take_of_length_le (by omega), List.take_of_length_le (by omega)]
  exact absurd (heq ▸ h.2) (not_lt.mpr h.1)

/-- **The intervals cover the range.** -/
theorem exists_owns {ws : List M} {x : M} (h0 : 0 ≤ x) (hx : x < ws.sum) :
    ∃ i, i < ws.length ∧ Owns ws x i := by
  induction ws using List.reverseRecOn with
  | nil => exact absurd h0 (not_le.mpr hx)
  | append_singleton ws w ih =>
      by_cases hlast : x < ws.sum
      · obtain ⟨i, hi, hlower, hupper⟩ := ih hlast
        refine ⟨i, by simp; omega, ?_, ?_⟩
        · rwa [List.take_append_of_le_length hi.le]
        · rwa [List.take_append_of_le_length hi]
      · refine ⟨ws.length, by simp, ?_, ?_⟩
        · simpa using hlast
        · rwa [List.take_of_length_le (by simp)]

variable [IsOrderedCancelAddMonoid M]

/-- Running totals of non-negative weights grow. -/
theorem sum_take_le {ws : List M} (hws : ∀ w ∈ ws, 0 ≤ w) {i j : ℕ} (hij : i ≤ j) :
    (ws.take i).sum ≤ (ws.take j).sum := by
  obtain ⟨k, rfl⟩ := Nat.exists_eq_add_of_le hij
  rw [List.take_add, List.sum_append]
  apply le_add_of_nonneg_right
  apply List.sum_nonneg
  intro w hw
  exact hws w (List.mem_of_mem_drop (List.mem_of_mem_take hw))

/-- **The intervals do not overlap.** -/
theorem Owns.unique {ws : List M} (hws : ∀ w ∈ ws, 0 ≤ w) {x : M} {i j : ℕ} (hi : Owns ws x i)
    (hj : Owns ws x j) : i = j := by
  have hle : ∀ {i j}, Owns ws x i → Owns ws x j → i ≤ j := by
    intro i j hi hj
    by_contra hji
    have hsum := sum_take_le hws (show j + 1 ≤ i by omega)
    exact absurd (hj.2.trans_le hsum) (not_lt.mpr hi.1)
  exact Nat.le_antisymm (hle hi hj) (hle hj hi)

/-- **The first running total beyond a point is that of its interval.** -/
theorem find?_totals {α : Type*} {ws : List M} (hws : ∀ w ∈ ws, 0 ≤ w) {x : M} {i : ℕ}
    (h : Owns ws x i) (as : List α) (hlength : as.length = ws.length)
    (p : α × ℕ → Bool) (hp : ∀ a, ∀ j < ws.length, p (a, j) = decide (x < (ws.take (j + 1)).sum)) :
    as.zipIdx.find? p = some (as.get ⟨i, hlength ▸ h.lt_length⟩, i) := by
  have hi := h.lt_length
  rw [List.find?_eq_some_iff_getElem]
  constructor
  · rw [hp _ i hi]
    exact decide_eq_true h.2
  · refine ⟨i, by simpa [hlength] using hi, by simp, ?_⟩
    intro j hj
    have hbelow : (ws.take (j + 1)).sum ≤ x := (sum_take_le hws (show j + 1 ≤ i from hj)).trans h.1
    rw [List.getElem_zipIdx, Nat.zero_add, hp _ j (by omega)]
    simpa using hbelow

end

/-! ## Remainders -/

section

variable {K : Type*} [Field K]

/-- Totals of weights relative to a unit. -/
theorem sum_map_div (ws : List K) (m : K) : (ws.map (· / m)).sum = ws.sum / m := by
  simp only [div_eq_mul_inv, List.sum_map_mul_right, List.map_id']

variable [LinearOrder K]

/-- The interval of a weight relative to a unit. -/
theorem owns_map_div [IsStrictOrderedRing K] {ws : List K} {m x : K} (hm : 0 < m) {i : ℕ} :
    Owns (ws.map (· / m)) x i ↔ Owns ws (m * x) i := by
  rw [Owns, Owns, ← List.map_take, ← List.map_take, sum_map_div, sum_map_div, div_le_iff₀' hm,
    lt_div_iff₀' hm]

variable [FloorRing K]

/-- `a` modulo `b`: what is left of `a` after the whole multiples of `b`. -/
def modulo (a b : K) : K := a - b * ⌊a / b⌋

theorem modulo_eq_mul_fract {a b : K} (hb : b ≠ 0) : modulo a b = b * Int.fract (a / b) := by
  rw [modulo, Int.fract, mul_sub, mul_div_cancel₀ a hb]

variable [IsStrictOrderedRing K]

theorem modulo_nonneg (a : K) {b : K} (hb : 0 < b) : 0 ≤ modulo a b := by
  rw [modulo_eq_mul_fract hb.ne']
  exact mul_nonneg hb.le (Int.fract_nonneg _)

theorem modulo_lt (a : K) {b : K} (hb : 0 < b) : modulo a b < b := by
  rw [modulo_eq_mul_fract hb.ne']
  exact mul_lt_of_lt_one_right hb (Int.fract_lt_one _)

/-- A point of the range is its own representative. -/
theorem modulo_eq_self {a b : K} (ha : 0 ≤ a) (hab : a < b) : modulo a b = a := by
  have hb : 0 < b := ha.trans_lt hab
  have hfloor : ⌊a / b⌋ = 0 := by
    rw [Int.floor_eq_zero_iff]
    exact ⟨div_nonneg ha hb.le, (div_lt_one hb).mpr hab⟩
  rw [modulo, hfloor]
  simp

end

end Proxinator.Lib
