import Mathlib.Algebra.BigOperators.Group.List.Basic
import Mathlib.Algebra.Order.Ring.Defs
import Mathlib.Data.Nat.Cast.Basic

/-!
# Amounts booked under keys

A ledger is a list of amounts with their keys. It can hold each amount by itself, or one entry
for each key to which every amount under it is added; the totals are the same.

## Main definitions

* `total p ledger` — the sum of the amounts whose keys pass a test.
* `book key amount ledger` — an amount is added to the entry of its key.
-/

namespace Proxinator.Lib

variable {κ : Type*}

/-- The sum of the amounts whose keys pass a test. -/
def total (p : κ → Bool) (ledger : List (κ × ℕ)) : ℕ :=
  ((ledger.filter fun entry => p entry.1).map Prod.snd).sum

/-- An amount is added to the entry of its key, which is made where there is none. -/
def book [DecidableEq κ] (key : κ) (amount : ℕ) : List (κ × ℕ) → List (κ × ℕ)
  | [] => [(key, amount)]
  | entry :: ledger =>
    if entry.1 = key then (key, entry.2 + amount) :: ledger else entry :: book key amount ledger

variable {p q : κ → Bool} {ledger : List (κ × ℕ)}

@[simp] theorem total_nil : total p [] = 0 := rfl

theorem total_cons (entry : κ × ℕ) (ledger : List (κ × ℕ)) :
    total p (entry :: ledger) = (if p entry.1 then entry.2 else 0) + total p ledger := by
  rw [total, List.filter_cons]
  split <;> simp [total]

theorem total_append (ledger ledger' : List (κ × ℕ)) :
    total p (ledger ++ ledger') = total p ledger + total p ledger' := by
  simp [total]

theorem total_concat (ledger : List (κ × ℕ)) (key : κ) (amount : ℕ) :
    total p (ledger ++ [(key, amount)]) = total p ledger + if p key then amount else 0 := by
  rw [total_append, total_cons, total_nil, Nat.add_zero]

/-- **Booking adds an amount to the totals**, like a further entry. -/
theorem total_book [DecidableEq κ] (key : κ) (amount : ℕ) (ledger : List (κ × ℕ)) :
    total p (book key amount ledger) = total p ledger + if p key then amount else 0 := by
  induction ledger with
  | nil => simp [book, total_cons]
  | cons entry ledger ih =>
      rw [book]
      split
      next heq =>
        rw [total_cons, total_cons, heq]
        split <;> omega
      next => rw [total_cons, total_cons, ih, Nat.add_assoc]

/-- A total of the entries that are left. -/
theorem total_filter (p q : κ → Bool) (ledger : List (κ × ℕ)) :
    total p (ledger.filter fun entry => q entry.1) = total (fun key => p key && q key) ledger := by
  rw [total, List.filter_filter, total]

theorem total_congr (h : ∀ entry ∈ ledger, p entry.1 = q entry.1) :
    total p ledger = total q ledger := by
  rw [total, List.filter_congr h, total]

/-- All that is booked. -/
theorem total_true (ledger : List (κ × ℕ)) : total (fun _ => true) ledger =
    (ledger.map Prod.snd).sum := by
  rw [total, List.filter_true]

/-- A total over two tests that no key passes both. -/
theorem total_or (h : ∀ key, p key = true → q key = false) (ledger : List (κ × ℕ)) :
    total (fun key => p key || q key) ledger = total p ledger + total q ledger := by
  induction ledger with
  | nil => rfl
  | cons entry ledger ih =>
      rw [total_cons, total_cons, total_cons, ih]
      cases hp : p entry.1 with
      | true =>
          rw [h _ hp]
          simp [Nat.add_assoc]
      | false => simp [Nat.add_left_comm]

/-- **What is booked under the keys of an interval**, if every key has at most so much. -/
theorem total_interval_le {R : Type*} [CommSemiring R] [PartialOrder R] [IsOrderedRing R]
    {ledger : List (ℤ × ℕ)} {r : R} (h : ∀ key, (total (· = key) ledger : R) ≤ r) (a : ℤ) (n : ℕ) :
    (total (fun key => a ≤ key ∧ key < a + n) ledger : R) ≤ n * r := by
  induction n with
  | zero =>
      have hnone : total (fun key => a ≤ key ∧ key < a + (0 : ℕ)) ledger = 0 := by
        rw [total, List.filter_eq_nil_iff.mpr]
        · rfl
        · intro entry _
          simp
      rw [hnone, Nat.cast_zero, zero_mul]
  | succ n ih =>
      have hsplit : total (fun key => a ≤ key ∧ key < a + (n + 1 : ℕ)) ledger =
          total (fun key => a ≤ key ∧ key < a + n) ledger + total (· = a + n) ledger := by
        rw [← total_or]
        · apply total_congr
          intro entry _
          rw [← Bool.decide_or, decide_eq_decide]
          omega
        · intro key
          simp only [decide_eq_true_eq, decide_eq_false_iff_not]
          omega
      rw [hsplit, Nat.cast_add, Nat.cast_succ, add_mul, one_mul]
      exact add_le_add ih (h (a + n))

end Proxinator.Lib
