import Proxinator.Lib.Spaced
import Mathlib.Algebra.Order.Group.Defs
import Mathlib.Data.List.Induction

/-!
# A worker that loses no time

Jobs arrive at a worker that takes them up one after another, each as soon as it has arrived and
the one before has ended (`Served`). When the last of them ends lies between the greatest times
that the jobs demand of such a worker, one that is as fast as it can be and one that is as slow
(`Served.demands_le`, `Served.le_demands`).
-/

namespace Proxinator.Lib

variable {α M : Type*} [AddCommGroup M]

/-- A job and those behind it demand that they are all done after it has arrived. -/
def demands (duration : α → M) (jobs : List (α × M)) : Set M :=
  {t | ∃ job rest, job :: rest <:+ jobs ∧
    t = job.2 + ((job :: rest).map fun job => duration job.1).sum}

variable {lo hi duration : α → M} {free : M} {jobs ends : List (α × M)}

/-- One more job takes its time after all that has been demanded, and after its arrival. -/
theorem mem_demands_concat {job : α × M} {t : M} :
    t ∈ demands duration (jobs ++ [job]) ↔
      t = job.2 + duration job.1 ∨ ∃ u ∈ demands duration jobs, t = u + duration job.1 := by
  constructor
  · rintro ⟨first, rest, hsuffix, rfl⟩
    rcases List.suffix_concat_iff.mp hsuffix with hnil | ⟨front, hfront, hbefore⟩
    · cases hnil
    · cases front with
      | nil =>
          obtain ⟨rfl, rfl⟩ := List.cons.inj hfront
          exact Or.inl (by simp)
      | cons first' front =>
          obtain ⟨rfl, rfl⟩ := List.cons.inj hfront
          refine Or.inr ⟨_, ⟨first, front, hbefore, rfl⟩, ?_⟩
          simp [add_assoc]
  · rintro (rfl | ⟨u, ⟨first, rest, hsuffix, rfl⟩, rfl⟩)
    · exact ⟨job, [], List.suffix_append _ _, by simp⟩
    · refine ⟨first, rest ++ [job], List.suffix_concat_iff.mpr (Or.inr ⟨_, rfl, hsuffix⟩), ?_⟩
      simp [add_assoc]

variable [LinearOrder M]

/-- The jobs that arrived at a worker, and the times at which they ended. It is free from a time
on, loses no time between two jobs, and spends at least `lo` and at most `hi` on each. -/
inductive Served (lo hi : α → M) (free : M) : List (α × M) → List (α × M) → Prop
  | nil : Served lo hi free [] []
  | concat {jobs ends : List (α × M)} {job : α × M} {t : M} (before : Served lo hi free jobs ends)
      (ge : max (lastEnd free ends) job.2 + lo job.1 ≤ t)
      (le : t ≤ max (lastEnd free ends) job.2 + hi job.1) :
      Served lo hi free (jobs ++ [job]) (ends ++ [(job.1, t)])

/-- What ends is what has arrived, in order. -/
theorem Served.map_fst (h : Served lo hi free jobs ends) :
    ends.map Prod.fst = jobs.map Prod.fst := by
  induction h with
  | nil => rfl
  | concat before ge le ih => simp [ih]

theorem Served.length_eq (h : Served lo hi free jobs ends) : ends.length = jobs.length := by
  simpa using congrArg List.length h.map_fst

theorem Served.take (h : Served lo hi free jobs ends) (n : ℕ) :
    Served lo hi free (jobs.take n) (ends.take n) := by
  induction h with
  | nil => simpa using Served.nil
  | @concat jobs ends job t before ge le ih =>
      by_cases hn : n ≤ jobs.length
      · rw [List.take_append_of_le_length hn,
          List.take_append_of_le_length (before.length_eq.symm ▸ hn)]
        exact ih
      · have hlength := before.length_eq
        rw [List.take_of_length_le (by simp; omega), List.take_of_length_le (by simp; omega)]
        exact .concat before ge le

variable [IsOrderedAddMonoid M]

/-- More jobs demand no less. -/
theorem exists_demands_append (hduration : ∀ a, 0 ≤ duration a) {t : M}
    (ht : t ∈ demands duration jobs) (more : List (α × M)) :
    ∃ u ∈ demands duration (jobs ++ more), t ≤ u := by
  induction more using List.reverseRecOn with
  | nil => exact ⟨t, by simpa using ht, le_rfl⟩
  | append_singleton more job ih =>
      obtain ⟨u, hu, hle⟩ := ih
      rw [← List.append_assoc]
      exact ⟨u + duration job.1, mem_demands_concat.mpr (Or.inr ⟨u, hu, rfl⟩),
        hle.trans (le_add_of_nonneg_right (hduration _))⟩

/-- **The last job ends no earlier than the jobs demand.** -/
theorem Served.demands_le (h : Served lo hi free jobs ends) :
    ∀ t ∈ demands lo jobs, t ≤ lastEnd free ends := by
  induction h with
  | nil =>
      rintro t ⟨first, rest, hsuffix, -⟩
      cases List.suffix_nil.mp hsuffix
  | @concat jobs ends job t before ge le ih =>
      intro demand hdemand
      rw [lastEnd_concat]
      rcases mem_demands_concat.mp hdemand with rfl | ⟨u, hu, rfl⟩
      · exact (add_le_add_left (le_max_right _ _) _).trans ge
      · exact (add_le_add_left ((ih u hu).trans (le_max_left _ _)) _).trans ge

/-- **The last job ends no later than the jobs demand of a slow worker.** -/
theorem Served.le_demands (h : Served lo hi free jobs ends) (hne : jobs ≠ [])
    (hfree : ∀ job ∈ jobs, free ≤ job.2) : ∃ t ∈ demands hi jobs, lastEnd free ends ≤ t := by
  induction h with
  | nil => exact absurd rfl hne
  | @concat jobs ends job t before ge le ih =>
      rw [lastEnd_concat]
      rcases max_choice (lastEnd free ends) job.2 with heq | heq
      · -- it had to wait for the job before, or for the start
        by_cases hjobs : jobs = []
        · subst hjobs
          cases List.length_eq_zero_iff.mp before.length_eq
          have harrival : max (lastEnd free ([] : List (α × M))) job.2 = job.2 :=
            max_eq_right (hfree job (by simp))
          rw [harrival] at le
          exact ⟨_, mem_demands_concat.mpr (Or.inl rfl), le⟩
        · obtain ⟨u, hu, hle⟩ := ih hjobs fun job' hjob' => hfree job' (by simp [hjob'])
          rw [heq] at le
          exact ⟨u + hi job.1, mem_demands_concat.mpr (Or.inr ⟨u, hu, rfl⟩),
            le.trans (add_le_add_left hle _)⟩
      · rw [heq] at le
        exact ⟨_, mem_demands_concat.mpr (Or.inl rfl), le⟩

end Proxinator.Lib
