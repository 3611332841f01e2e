import Mathlib.Algebra.Order.Field.Basic
import Mathlib.Data.Int.Log
import Mathlib.Data.Rat.Floor
import Mathlib.Tactic.Linarith
import Mathlib.Tactic.NormNum
import Mathlib.Tactic.Ring

/-!
# Floating-point numbers

The result of an operation on floating-point numbers is the exact one, rounded to a number of `p`
binary digits. The error is at most half a unit in the last place, and so at most a part of
`2 ^ p` of the result, down to the smallest exponent that a number can have. Nothing here
overflows.

## Main results

* `abs_roundTo_sub_le` — the error of one rounding.
* `roundTo_near` — the same, where nothing underflows.
-/

namespace Proxinator.Lib

/-- The nearest integer, and of two the even one. -/
def roundHalfEven (x : ℚ) : ℤ :=
  let n := ⌊x⌋
  if x - n < 1 / 2 then n
  else if 1 / 2 < x - n then n + 1
  else if n % 2 = 0 then n
  else n + 1

/-- The unit in the last place of a number of `p` digits, the first at `2 ^ emin` or above. -/
def lastPlace (p : ℕ) (emin : ℤ) (x : ℚ) : ℚ := 2 ^ (max (Int.log 2 |x|) emin - (p - 1))

/-- The nearest number of `p` digits. -/
def roundTo (p : ℕ) (emin : ℤ) (x : ℚ) : ℚ :=
  roundHalfEven (x / lastPlace p emin x) * lastPlace p emin x

/-- The nearest double. -/
def toDouble (x : ℚ) : ℚ := roundTo 53 (-1022) x

theorem abs_roundHalfEven_sub_le (x : ℚ) : |(roundHalfEven x : ℚ) - x| ≤ 1 / 2 := by
  have hfloor := Int.floor_le x
  have hlt := Int.lt_floor_add_one x
  rw [roundHalfEven, abs_le]
  split_ifs
  · constructor <;> linarith
  · push_cast
    constructor <;> linarith
  · constructor <;> linarith
  · push_cast
    constructor <;> linarith

theorem roundHalfEven_nonneg {x : ℚ} (h : 0 ≤ x) : 0 ≤ roundHalfEven x := by
  have hfloor := Int.floor_nonneg.mpr h
  rw [roundHalfEven]
  split_ifs <;> omega

variable {p : ℕ} {emin : ℤ}

theorem lastPlace_pos (p : ℕ) (emin : ℤ) (x : ℚ) : 0 < lastPlace p emin x := zpow_pos two_pos _

@[simp] theorem roundTo_zero : roundTo p emin 0 = 0 := by
  rw [roundTo, zero_div]
  have hzero : roundHalfEven 0 = 0 := by decide +kernel
  rw [hzero, Int.cast_zero, zero_mul]

theorem roundTo_nonneg {x : ℚ} (h : 0 ≤ x) : 0 ≤ roundTo p emin x := by
  have hplace := (lastPlace_pos p emin x).le
  exact mul_nonneg (Int.cast_nonneg (roundHalfEven_nonneg (div_nonneg h hplace))) hplace

/-- Half a unit in the last place. -/
theorem half_lastPlace_le {x : ℚ} (hx : x ≠ 0) :
    lastPlace p emin x / 2 ≤ max |x| (2 ^ emin) * 2 ^ (-(p : ℤ)) := by
  have hhalf : lastPlace p emin x / 2 =
      2 ^ max (Int.log 2 |x|) emin * (2 : ℚ) ^ (-(p : ℤ)) := by
    have htwo : (2 : ℚ) ≠ 0 := two_ne_zero
    rw [lastPlace, ← zpow_add₀ htwo, div_eq_mul_inv, ← zpow_sub_one₀ htwo]
    congr 1
    ring
  have hlog : (2 : ℚ) ^ max (Int.log 2 |x|) emin ≤ max |x| (2 ^ emin) := by
    rcases max_choice (Int.log 2 |x|) emin with hmax | hmax
    · rw [hmax]
      exact (Int.zpow_log_le_self one_lt_two (abs_pos.mpr hx)).trans (le_max_left _ _)
    · rw [hmax]
      exact le_max_right _ _
  rw [hhalf]
  exact mul_le_mul_of_nonneg_right hlog (zpow_nonneg zero_le_two _)

/-- **The error of one rounding.** -/
theorem abs_roundTo_sub_le (x : ℚ) :
    |roundTo p emin x - x| ≤ max |x| (2 ^ emin) * 2 ^ (-(p : ℤ)) := by
  by_cases hx : x = 0
  · subst hx
    rw [roundTo_zero, sub_zero, abs_zero]
    exact mul_nonneg (le_max_left _ _) (zpow_nonneg zero_le_two _)
  · have hplace := lastPlace_pos p emin x
    have hsplit : roundTo p emin x - x =
        (roundHalfEven (x / lastPlace p emin x) - x / lastPlace p emin x) * lastPlace p emin x := by
      rw [roundTo, sub_mul, div_mul_cancel₀ _ hplace.ne']
    calc |roundTo p emin x - x|
        = |roundHalfEven (x / lastPlace p emin x) - x / lastPlace p emin x| *
            lastPlace p emin x := by rw [hsplit, abs_mul, abs_of_pos hplace]
      _ ≤ 1 / 2 * lastPlace p emin x := by
          gcongr
          exact abs_roundHalfEven_sub_le _
      _ = lastPlace p emin x / 2 := by ring
      _ ≤ max |x| (2 ^ emin) * 2 ^ (-(p : ℤ)) := half_lastPlace_le hx

/-- **A number that does not underflow is rounded to one that is near.** -/
theorem roundTo_near {x : ℚ} (h : 2 ^ emin ≤ x) :
    (1 - 2 ^ (-(p : ℤ))) * x ≤ roundTo p emin x ∧
      roundTo p emin x ≤ (1 + 2 ^ (-(p : ℤ))) * x := by
  have hpos : 0 < x := (zpow_pos two_pos emin).trans_le h
  have herror : |roundTo p emin x - x| ≤ max |x| (2 ^ emin) * 2 ^ (-(p : ℤ)) :=
    abs_roundTo_sub_le x
  rw [abs_of_pos hpos, max_eq_left h, abs_le] at herror
  constructor
  · linarith [herror.1]
  · linarith [herror.2]

end Proxinator.Lib
