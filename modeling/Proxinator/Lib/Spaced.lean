import Mathlib.Algebra.BigOperators.Group.List.Basic
import Mathlib.Algebra.Order.Monoid.Defs

/-!
# Jobs one after another

A worker that takes up its next job only when the one before has ended, and spends at least
its duration on each. The jobs are listed with the times at which they ended.

## Main results

* `spaced_append` — the jobs can be cut anywhere.
* `Spaced.sum_le` — the last job ends no earlier than after the durations of them all,
* `Spaced.sum_window_le` — and so for any jobs in a row.
-/

namespace Proxinator.Lib

variable {α M : Type*}

/-- When the last job ended, or else the start. -/
def lastEnd : M → List (α × M) → M
  | start, [] => start
  | _, job :: jobs => lastEnd job.2 jobs

@[simp] theorem lastEnd_nil (start : M) : lastEnd start ([] : List (α × M)) = start := rfl

@[simp] theorem lastEnd_concat (start : M) (jobs : List (α × M)) (job : α × M) :
    lastEnd start (jobs ++ [job]) = job.2 := by
  induction jobs generalizing start with
  | nil => rfl
  | cons first jobs ih => exact ih first.2

theorem lastEnd_append (start : M) (jobs jobs' : List (α × M)) :
    lastEnd start (jobs ++ jobs') = lastEnd (lastEnd start jobs) jobs' := by
  induction jobs generalizing start with
  | nil => rfl
  | cons first jobs ih => exact ih first.2

variable [AddCommMonoid M] [Preorder M]

/-- Every job ended no earlier than its duration after the one before. -/
def Spaced (duration : α → M) : M → List (α × M) → Prop
  | _, [] => True
  | start, job :: jobs => start + duration job.1 ≤ job.2 ∧ Spaced duration job.2 jobs

variable {duration : α → M} {start : M}

theorem spaced_append (jobs jobs' : List (α × M)) :
    Spaced duration start (jobs ++ jobs') ↔
      Spaced duration start jobs ∧ Spaced duration (lastEnd start jobs) jobs' := by
  induction jobs generalizing start with
  | nil => simp [Spaced]
  | cons job jobs ih => simp only [List.cons_append, Spaced, lastEnd, ih, and_assoc]

theorem spaced_concat (jobs : List (α × M)) (job : α × M) :
    Spaced duration start (jobs ++ [job]) ↔
      Spaced duration start jobs ∧ lastEnd start jobs + duration job.1 ≤ job.2 := by
  rw [spaced_append]
  simp [Spaced]

/-- **The last job ends no earlier than after all durations.** -/
theorem Spaced.sum_le [IsOrderedAddMonoid M] {jobs : List (α × M)}
    (h : Spaced duration start jobs) :
    start + (jobs.map fun job => duration job.1).sum ≤ lastEnd start jobs := by
  induction jobs generalizing start with
  | nil => simp
  | cons job jobs ih =>
      calc start + ((job :: jobs).map fun job => duration job.1).sum
          = start + duration job.1 + (jobs.map fun job => duration job.1).sum := by
            rw [List.map_cons, List.sum_cons, add_assoc]
        _ ≤ job.2 + (jobs.map fun job => duration job.1).sum := by gcongr; exact h.1
        _ ≤ lastEnd job.2 jobs := ih h.2

/-- **From the end of one job to that of a later one pass the durations between.** -/
theorem Spaced.sum_window_le [IsOrderedAddMonoid M] {jobs : List (α × M)}
    (h : Spaced duration start jobs) {i j : ℕ} (hij : i ≤ j) (hj : j < jobs.length) :
    lastEnd start (jobs.take i) +
        (((jobs.take (j + 1)).drop i).map fun job => duration job.1).sum ≤ jobs[j].2 := by
  have hsplit : jobs.take (j + 1) = jobs.take i ++ (jobs.take (j + 1)).drop i := by
    conv_lhs => rw [← List.take_append_drop i (jobs.take (j + 1))]
    rw [List.take_take, Nat.min_eq_left (by omega)]
  have hlast : lastEnd start (jobs.take (j + 1)) = jobs[j].2 := by
    rw [← List.take_concat_get' jobs j hj, lastEnd_concat]
  rw [← List.take_append_drop (j + 1) jobs, spaced_append] at h
  obtain ⟨hfront, -⟩ := h
  generalize (jobs.take (j + 1)).drop i = window at hsplit ⊢
  rw [hsplit, lastEnd_append] at hlast
  rw [hsplit, spaced_append] at hfront
  exact hlast ▸ hfront.2.sum_le

/-- So does every job, for the durations up to its own. -/
theorem Spaced.sum_take_le [IsOrderedAddMonoid M] {jobs : List (α × M)}
    (h : Spaced duration start jobs) {i : ℕ} (hi : i < jobs.length) :
    start + ((jobs.take (i + 1)).map fun job => duration job.1).sum ≤ jobs[i].2 := by
  simpa using h.sum_window_le (Nat.zero_le i) hi

end Proxinator.Lib
