import Proxinator.Measure.Slowdown
import Proxinator.Lib.Served

/-!
# A throttle holds nothing back for longer than it has to

A throttle whose `transform` is given the next chunk as soon as there is one, and whose timers fire
no later than some slack after they are due, is a worker that loses no time. So it emits a chunk
no earlier than its rate demands of this chunk and of those written before it, and later only by
the slack of each chunk in a row that ends with it (`slowdown_tight`).
-/

namespace Proxinator.Measure

open Lib

namespace Single

/-- Time does not go on while a chunk could be given, nor a slack after a callback is due. -/
def Prompt (slack : ℚ) (s : Single) (e : Event × ℚ) : Prop :=
  (s.stream.current = none → s.stream.queue ≠ [] → e.2 = s.now) ∧
    ∀ chunk due, s.stream.current = some (chunk, due) → e.2 ≤ due + slack

/-- The time that it takes for a chunk. -/
def duration (s : Single) (chunk : Bytes) : ℚ := s.stream.factory.delay chunk.length

/-- The time at which it is given a chunk. -/
def given (free : ℚ) (s : Single) (job : Bytes × ℚ) : ℚ := max (lastEnd free s.called) job.2

/-- **It works like a worker that loses no time**, from `free` on. -/
structure Busy (slack free : ℚ) (s : Single) : Prop where
  ordered : s.Ordered
  duration_nonneg : ∀ chunk, 0 ≤ s.duration chunk
  served : Served s.duration (fun chunk => s.duration chunk + slack) free
    (s.written.take s.called.length) s.called
  free_le : free ≤ s.now
  lastEnd_le : lastEnd free s.called ≤ s.now
  written_le : ∀ job ∈ s.written, free ≤ job.2 ∧ job.2 ≤ s.now
  /-- If it does not work, the next chunk could be given now. -/
  next_eq : s.stream.current = none → ∀ job, s.written[s.called.length]? = some job →
    s.now = s.given free job
  due_eq : ∀ chunk due, s.stream.current = some (chunk, due) →
    ∃ job, s.written[s.called.length]? = some job ∧ job.1 = chunk ∧
      due = s.given free job + s.duration chunk ∧ s.now ≤ due + slack

variable {slack free : ℚ} {s : Single}

@[simp] theorem duration_step (s : Single) (e : Event × ℚ) : (s.step e).duration = s.duration := by
  funext chunk
  rw [duration, factory_step, duration]

theorem busy_new {factory : Factory} (hfactory : ∀ length, 0 ≤ factory.delay length) (now : ℚ) :
    Busy slack now (new now factory) where
  ordered := rfl
  duration_nonneg _ := hfactory _
  served := .nil
  free_le := le_rfl
  lastEnd_le := le_rfl
  written_le _ hjob := nomatch hjob
  next_eq _ _ hjob := nomatch hjob
  due_eq _ _ hcurrent := nomatch hcurrent

theorem Busy.length_le (h : Busy slack free s) : s.called.length ≤ s.written.length := by
  have hordered := congrArg List.length h.ordered
  simp only [List.length_map, List.length_append] at hordered
  omega

/-- If it does not work, a chunk waits exactly if not all that was written has been called
back with. -/
theorem Busy.queue_eq (h : Busy slack free s) (hcurrent : s.stream.current = none) :
    s.stream.queue = (s.written.drop s.called.length).map Prod.fst := by
  have hordered := h.ordered
  rw [Ordered, hcurrent] at hordered
  rw [List.map_drop, hordered, ← List.length_map (f := Prod.fst)]
  exact (List.drop_left ..).symm

theorem Busy.queue_ne_nil (h : Busy slack free s) (hcurrent : s.stream.current = none)
    {job : Bytes × ℚ} (hjob : s.written[s.called.length]? = some job) : s.stream.queue ≠ [] := by
  obtain ⟨hlt, -⟩ := List.getElem?_eq_some_iff.mp hjob
  rw [h.queue_eq hcurrent, ne_eq, List.map_eq_nil_iff, List.drop_eq_nil_iff]
  omega

/-- The chunk that is given next was written first behind those that have been called back
with. -/
theorem Busy.exists_job (h : Busy slack free s) (hcurrent : s.stream.current = none)
    {chunk : Bytes} {queue : List Bytes} (hqueue : s.stream.queue = chunk :: queue) :
    ∃ job, s.written[s.called.length]? = some job ∧ job.1 = chunk := by
  have hhead : ((s.written.drop s.called.length).map Prod.fst).head? = some chunk := by
    rw [← h.queue_eq hcurrent, hqueue]
    rfl
  rw [List.head?_map, List.head?_drop] at hhead
  exact Option.map_eq_some_iff.mp hhead

/-- Up to the next chunk. -/
theorem take_called_succ {job : Bytes × ℚ} (hjob : s.written[s.called.length]? = some job) :
    s.written.take (s.called.length + 1) = s.written.take s.called.length ++ [job] := by
  rw [List.take_add_one, hjob]
  rfl

/-! ## One event -/

/-- Time goes on, but not over anything that could be done. -/
theorem Busy.wait (h : Busy slack free s) {e : Event × ℚ} (ht : s.now ≤ e.2)
    (hprompt : s.Prompt slack e) : Busy slack free { s with now := e.2 } where
  ordered := h.ordered
  duration_nonneg := h.duration_nonneg
  served := h.served
  free_le := h.free_le.trans ht
  lastEnd_le := h.lastEnd_le.trans ht
  written_le job hjob := (h.written_le job hjob).imp id fun hle => hle.trans ht
  next_eq hcurrent job hjob :=
    (hprompt.1 hcurrent (h.queue_ne_nil hcurrent hjob)).trans (h.next_eq hcurrent job hjob)
  due_eq chunk due hcurrent := by
    obtain ⟨job, hjob, hchunk, hdue, -⟩ := h.due_eq chunk due hcurrent
    exact ⟨job, hjob, hchunk, hdue, hprompt.2 chunk due hcurrent⟩

/-- A chunk is written. -/
theorem Busy.write (h : Busy slack free s) (chunk : Bytes) :
    Busy slack free (s.step (.write chunk, s.now)) where
  ordered := ordered_step h.ordered _
  duration_nonneg := h.duration_nonneg
  served := by
    have htake : (s.written ++ [(chunk, s.now)]).take s.called.length =
        s.written.take s.called.length := List.take_append_of_le_length h.length_le
    change Served _ _ _ ((s.written ++ [(chunk, s.now)]).take s.called.length) s.called
    rw [htake]
    exact h.served
  free_le := h.free_le
  lastEnd_le := h.lastEnd_le
  written_le job hjob := by
    rcases List.mem_append.mp hjob with hjob | hjob
    · exact h.written_le job hjob
    · rw [List.mem_singleton.mp hjob]
      exact ⟨h.free_le, le_rfl⟩
  next_eq hcurrent job hjob := by
    change (s.written ++ [(chunk, s.now)])[s.called.length]? = some job at hjob
    change s.now = s.given free job
    by_cases hlt : s.called.length < s.written.length
    · rw [List.getElem?_append_left hlt] at hjob
      exact h.next_eq hcurrent job hjob
    · -- all that was written before has been called back with
      obtain rfl : (chunk, s.now) = job := by
        rw [List.getElem?_append_right (by omega), Nat.sub_eq_zero_of_le h.length_le] at hjob
        exact Option.some.inj hjob
      exact (max_eq_right h.lastEnd_le).symm
  due_eq chunk' due hcurrent := by
    obtain ⟨job, hjob, hdue⟩ := h.due_eq chunk' due hcurrent
    refine ⟨job, ?_, hdue⟩
    obtain ⟨hlt, -⟩ := List.getElem?_eq_some_iff.mp hjob
    exact (List.getElem?_append_left hlt).trans hjob

/-- The next chunk is given, if one can be. -/
theorem Busy.give (h : Busy slack free s) (hslack : 0 ≤ slack) :
    Busy slack free (s.step (.give, s.now)) := by
  cases hcurrent : s.stream.current with
  | some busy =>
      have hstep : s.step (.give, s.now) = s := by simp [step, Stream.give, hcurrent]
      rwa [hstep]
  | none =>
      cases hqueue : s.stream.queue with
      | nil =>
          have hstep : s.step (.give, s.now) = s := by simp [step, Stream.give, hcurrent, hqueue]
          rwa [hstep]
      | cons chunk queue =>
          obtain ⟨job, hjob, rfl⟩ := h.exists_job hcurrent hqueue
          have hstream : (s.step (.give, s.now)).stream = { s.stream with
              queue := queue, current := some (job.1, s.now + s.duration job.1) } := by
            simp [step, Stream.give, hcurrent, hqueue, duration]
          have hcalled : (s.step (.give, s.now)).called = s.called := by
            rw [called, hstream, called]
          refine ⟨ordered_step h.ordered _, ?_, ?_, h.free_le, ?_, h.written_le, fun hnone => ?_,
            fun chunk due hsome => ?_⟩
          · rw [duration_step]
            exact h.duration_nonneg
          · rw [duration_step, hcalled]
            exact h.served
          · rw [hcalled]
            exact h.lastEnd_le
          · rw [hstream] at hnone
            cases hnone
          · rw [hstream] at hsome
            cases hsome
            refine ⟨job, hcalled ▸ hjob, rfl, ?_, ?_⟩
            · rw [given, hcalled, duration_step]
              exact congrArg (· + s.duration job.1) (h.next_eq hcurrent job hjob)
            · exact (le_add_of_nonneg_right (h.duration_nonneg job.1)).trans
                (le_add_of_nonneg_right hslack)

/-- It calls back, if it works on a chunk. -/
theorem Busy.callback (h : Busy slack free s)
    (hdue : ∀ chunk due, s.stream.current = some (chunk, due) → due ≤ s.now) :
    Busy slack free (s.step (.callback, s.now)) := by
  cases hcurrent : s.stream.current with
  | none =>
      have hstep : s.step (.callback, s.now) = s := by simp [step, Stream.callback, hcurrent]
      rwa [hstep]
  | some busy =>
      obtain ⟨chunk, due⟩ := busy
      obtain ⟨job, hjob, rfl, hstart, hlate⟩ := h.due_eq chunk due hcurrent
      have hstream : (s.step (.callback, s.now)).stream = { s.stream with
          current := none, output := s.stream.output ++ [(job.1, s.now)] } := by
        simp [step, Stream.callback, hcurrent]
      have hcalled : (s.step (.callback, s.now)).called = s.called ++ [(job.1, s.now)] := by
        rw [called, hstream, called]
      refine ⟨ordered_step h.ordered _, ?_, ?_, h.free_le, ?_, h.written_le, fun _ job hjob => ?_,
        fun chunk due hsome => ?_⟩
      · rw [duration_step]
        exact h.duration_nonneg
      · rw [duration_step, hcalled, List.length_append, List.length_singleton]
        change Served _ _ _ (s.written.take (s.called.length + 1)) _
        rw [take_called_succ hjob]
        refine .concat h.served ?_ ?_
        · exact hstart ▸ hdue job.1 due hcurrent
        · rw [hstart, given] at hlate
          rwa [← add_assoc]
      · rw [hcalled, lastEnd_concat]
        rfl
      · rw [given, hcalled, lastEnd_concat]
        exact (max_eq_left (h.written_le job (List.mem_of_getElem? hjob)).2).symm
      · rw [hstream] at hsome
        cases hsome

theorem Busy.step (h : Busy slack free s) (hslack : 0 ≤ slack) {e : Event × ℚ} (he : s.Admits e)
    (hprompt : s.Prompt slack e) : Busy slack free (s.step e) := by
  have hwait := h.wait he.1 hprompt
  obtain ⟨event, t⟩ := e
  cases event with
  | write chunk => exact hwait.write chunk
  | give => exact hwait.give hslack
  | callback => exact hwait.callback fun chunk due => he.2 chunk due rfl

/-! ## Runs -/

/-- What chunks demand of a slow worker. -/
theorem sum_slow (r slack : ℚ) (chunks : List (Bytes × ℚ)) :
    (chunks.map fun job => (slowdown (some r)).delay job.1.length + slack).sum =
      delays r chunks + chunks.length * slack := by
  rw [List.sum_map_add, List.map_const', List.sum_replicate, nsmul_eq_mul, delays]

/-- What has not been called back with could not have been by now, even by a worker that is
slow. -/
theorem Busy.now_le (h : Busy slack free s) (hslack : 0 ≤ slack) {job : Bytes × ℚ}
    (hjob : s.written[s.called.length]? = some job) :
    s.now ≤ s.given free job + (s.duration job.1 + slack) := by
  cases hcurrent : s.stream.current with
  | none =>
      rw [h.next_eq hcurrent job hjob]
      exact le_add_of_nonneg_right (add_nonneg (h.duration_nonneg _) hslack)
  | some busy =>
      obtain ⟨chunk, due⟩ := busy
      obtain ⟨job', hjob', rfl, hstart, hlate⟩ := h.due_eq chunk due hcurrent
      cases hjob.symm.trans hjob'
      rwa [hstart, add_assoc] at hlate

/-- The chunks up to one that was called back with. -/
theorem Busy.served_take (h : Busy slack free s) {i : ℕ} (hi : i < s.called.length) :
    Served s.duration (fun chunk => s.duration chunk + slack) free (s.written.take (i + 1))
      (s.called.take (i + 1)) := by
  have hserved := h.served.take (i + 1)
  rwa [List.take_take, Nat.min_eq_left hi] at hserved

theorem lastEnd_take {ends : List (Bytes × ℚ)} {i : ℕ} (hi : i < ends.length) :
    lastEnd free (ends.take (i + 1)) = ends[i].2 := by
  rw [← List.take_concat_get' ends i hi, lastEnd_concat]

/-- Some chunks demand of a slow worker that a chunk is not called back with before it is, or before
now if it is not yet. -/
theorem Busy.exists_demand (h : Busy slack free s) (hslack : 0 ≤ slack) {i : ℕ}
    (hi : i < s.written.length) :
    ∃ t ∈ demands (fun chunk => s.duration chunk + slack) (s.written.take (i + 1)),
      (s.called[i]?.map Prod.snd).getD s.now ≤ t := by
  have hslow : ∀ chunk, 0 ≤ s.duration chunk + slack :=
    fun chunk => add_nonneg (h.duration_nonneg chunk) hslack
  have hne : ∀ n, s.written.take (n + 1) ≠ [] := fun n => by
    have hwritten : s.written ≠ [] := List.ne_nil_of_length_pos (by omega)
    simp [hwritten]
  have hfree : ∀ n, ∀ job ∈ s.written.take n, free ≤ job.2 :=
    fun n job hjob => (h.written_le job (List.mem_of_mem_take hjob)).1
  by_cases hlt : i < s.called.length
  · obtain ⟨t, ht, hle⟩ := (h.served_take hlt).le_demands (hne i) (hfree _)
    rw [lastEnd_take hlt] at hle
    exact ⟨t, ht, by simpa [hlt] using hle⟩
  · -- the first chunk that has not been called back with is late enough already
    obtain ⟨job, hjob⟩ : ∃ job, s.written[s.called.length]? = some job :=
      ⟨_, List.getElem?_eq_getElem (by omega)⟩
    have hserved : Served s.duration (fun chunk => s.duration chunk + slack) free
        (s.written.take s.called.length ++ [job])
        (s.called ++ [(job.1, s.given free job + (s.duration job.1 + slack))]) :=
      .concat h.served (add_le_add_right (le_add_of_nonneg_right hslack) _) le_rfl
    rw [← take_called_succ hjob] at hserved
    obtain ⟨t, ht, hle⟩ := hserved.le_demands (hne _) (hfree _)
    rw [lastEnd_concat] at hle
    obtain ⟨u, hu, hlater⟩ := exists_demands_append hslow ht
      ((s.written.take (i + 1)).drop (s.called.length + 1))
    have hsplit : s.written.take (s.called.length + 1) = (s.written.take (i + 1)).take
        (s.called.length + 1) := by
      rw [List.take_take, Nat.min_eq_left (by omega)]
    rw [hsplit, List.take_append_drop] at hu
    refine ⟨u, hu, ?_⟩
    rw [List.getElem?_eq_none (by omega)]
    exact ((h.now_le hslack hjob).trans hle).trans hlater

end Single

end Proxinator.Measure
