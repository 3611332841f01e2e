import Proxinator.Measure
import Proxinator.Lib.Spaced
import Mathlib.Algebra.Order.BigOperators.Group.List
import Mathlib.Algebra.Order.Field.Basic
import Mathlib.Algebra.Order.Ring.Rat
import Mathlib.Tactic.Linarith
import Mathlib.Tactic.Ring

/-!
# A throttle inside a chain

A throttle paces what it calls back with, wherever it stands among the inner streams of a
chain. But the outer transform does not wait for it: a chunk is emitted as soon as the
consumer reads. So the output of a chain is paced only where writer and consumer are as slow
as the throttle by themselves.

## Main results

* `output_paced` — an inner stream paces its own output.
* `chain_throttle_iff` — when the output of the chain is paced.
-/

namespace Proxinator.Measure

open Lib

/-- The number of bytes. -/
def bytes (chunks : List (Bytes × ℚ)) : ℚ := (chunks.map fun c => (c.1.length : ℚ)).sum

/-- No chunk is emitted earlier than the bytes up to it allow at a rate, after the first
write. The chunks that are not emitted are empty and have none. -/
def PacedBy (r : ℚ) (written emitted : List (Bytes × ℚ)) : Prop :=
  ∀ i chunk t, emitted[i]? = some (chunk, t) →
    ∀ first ∈ written.head?, first.2 + bytes ((filled written).take (i + 1)) / r * 1000 ≤ t

theorem filled_append (chunks more : List (Bytes × ℚ)) :
    filled (chunks ++ more) = filled chunks ++ filled more := List.filter_append ..

theorem pushed_append (chunks more : List Bytes) :
    pushed (chunks ++ more) = pushed chunks ++ pushed more := List.filter_append ..

theorem map_fst_filled (chunks : List (Bytes × ℚ)) :
    (filled chunks).map Prod.fst = pushed (chunks.map Prod.fst) := by
  rw [filled, pushed, List.filter_map]
  rfl

/-- Empty chunks have no bytes. -/
theorem bytes_filled (chunks : List (Bytes × ℚ)) : bytes (filled chunks) = bytes chunks := by
  rw [bytes, bytes]
  induction chunks with
  | nil => rfl
  | cons chunk chunks ih =>
      rw [List.map_cons, List.sum_cons, ← ih, filled]
      by_cases hempty : chunk.1 = []
      · rw [List.filter_cons_of_neg (by simpa using hempty), hempty]
        simp [filled]
      · rw [List.filter_cons_of_pos (by simpa using hempty)]
        simp [filled]

theorem bytes_nonneg (chunks : List (Bytes × ℚ)) : 0 ≤ bytes chunks := by
  apply List.sum_nonneg
  intro length hlength
  obtain ⟨c, -, rfl⟩ := List.mem_map.mp hlength
  exact Nat.cast_nonneg _

theorem bytes_take_le (chunks : List (Bytes × ℚ)) (n : ℕ) :
    bytes (chunks.take n) ≤ bytes chunks := by
  have hsplit : bytes chunks = bytes (chunks.take n) + bytes (chunks.drop n) := by
    rw [bytes, bytes, bytes, ← List.sum_append, ← List.map_append, List.take_append_drop]
  have := bytes_nonneg (chunks.drop n)
  linarith

/-- What is written later is of no account. -/
theorem pacedBy_append {r : ℚ} {written emitted : List (Bytes × ℚ)}
    (hlength : emitted.length ≤ (filled written).length) (more : List (Bytes × ℚ)) :
    PacedBy r (written ++ more) emitted ↔ PacedBy r written emitted := by
  refine forall_congr' fun i => forall_congr' fun chunk => forall_congr' fun t =>
    imp_congr_right fun hemitted => ?_
  have hi : i < (filled written).length := by
    have := (List.getElem?_eq_some_iff.mp hemitted).1
    omega
  have hhead : (written ++ more).head? = written.head? := by
    cases written with
    | nil => simp [filled] at hi
    | cons first written => rfl
  rw [hhead, filled_append, List.take_append_of_le_length (by omega)]

/-- **Chunks that are let out together are paced if the last of them is.** -/
theorem pacedBy_release {r : ℚ} (hr : 0 < r) {written emitted : List (Bytes × ℚ)}
    {held : List Bytes} {t : ℚ}
    (hlength : (filled written).length = emitted.length + held.length)
    (hheld : held ≠ []) :
    PacedBy r written (emitted ++ held.map fun chunk => (chunk, t)) ↔
      PacedBy r written emitted ∧
        ∀ first ∈ written.head?, first.2 + bytes written / r * 1000 ≤ t := by
  constructor
  · intro h
    refine ⟨fun i chunk t' hi => ?_, ?_⟩
    · apply h i chunk t'
      rwa [List.getElem?_append_left (List.getElem?_eq_some_iff.mp hi).1]
    · -- the last chunk comes after all bytes
      have hpos := List.length_pos_iff.mpr hheld
      have hlast : (emitted ++ held.map fun chunk => (chunk, t))[(filled written).length - 1]? =
          some (held.getLast hheld, t) := by
        rw [List.getElem?_append_right (by omega),
          show (filled written).length - 1 - emitted.length = held.length - 1 by omega,
          List.getElem?_map, ← List.getLast?_eq_getElem?, List.getLast?_eq_getLast_of_ne_nil hheld]
        rfl
      have hall := h _ _ _ hlast
      rwa [Nat.sub_add_cancel (by omega), List.take_length, bytes_filled] at hall
  · rintro ⟨hold, hnew⟩ i chunk t' hi first hfirst
    rcases Nat.lt_or_ge i emitted.length with hlt | hge
    · rw [List.getElem?_append_left hlt] at hi
      exact hold i chunk t' hi first hfirst
    · rw [List.getElem?_append_right hge, List.getElem?_map] at hi
      obtain ⟨chunk', -, heq⟩ := Option.map_eq_some_iff.mp hi
      cases heq
      calc first.2 + bytes ((filled written).take (i + 1)) / r * 1000
          ≤ first.2 + bytes (filled written) / r * 1000 := by
            gcongr
            exact bytes_take_le _ (i + 1)
        _ = first.2 + bytes written / r * 1000 := by rw [bytes_filled]
        _ ≤ t := hnew first hfirst

namespace Chain

/-! ## The output of the chain -/

/-- The output of the chain is paced. -/
def Paced (r : ℚ) (s : Chain) : Prop := PacedBy r s.written s.emitted

/-- What has been written after an event. -/
def writtenAfter (s : Chain) (e : Event × ℚ) : List (Bytes × ℚ) :=
  match e.1 with
  | .write chunk => s.written ++ [(chunk, e.2)]
  | _ => s.written

/-- The event lets chunks out: a chunk is written while the consumer reads, or the consumer
begins to read while chunks wait for it. -/
def Releases (s : Chain) (e : Event × ℚ) : Prop :=
  match e.1 with
  | .write chunk => s.flowing = true ∧ chunk ≠ []
  | .flow => s.readable ++ pushed s.queue ≠ []
  | _ => False

/-- **Chunks are let out only so late that all bytes written until then are paced.** -/
def Late (r : ℚ) (s : Chain) (e : Event × ℚ) : Prop :=
  s.Releases e →
    ∀ first ∈ (s.writtenAfter e).head?, first.2 + bytes (s.writtenAfter e) / r * 1000 ≤ e.2

/-- Every chunk that was written was given to `transform` or waits for that, and what comes out
has been emitted or waits for the consumer to read. -/
structure Inv (s : Chain) : Prop where
  order : s.written.map Prod.fst = s.given ++ s.queue
  given_eq : pushed s.given = s.emitted.map Prod.fst ++ s.readable
  flowing_spec : s.flowing = true → s.readable ++ s.queue = []

theorem Inv.length {s : Chain} (h : s.Inv) :
    (filled s.written).length = s.emitted.length + (s.readable ++ pushed s.queue).length := by
  have hlength := congrArg List.length (map_fst_filled s.written)
  rw [h.order, pushed_append, h.given_eq, List.append_assoc, List.length_map, List.length_append,
    List.length_map] at hlength
  exact hlength

theorem inv_new (now : ℚ) (array : List Factory) : (new now array).Inv := ⟨rfl, rfl, fun _ => rfl⟩

theorem inv_drain {s : Chain} (horder : s.written.map Prod.fst = s.given ++ s.queue)
    (hgiven : pushed s.given = s.emitted.map Prod.fst ++ s.readable) : s.drain.Inv := by
  refine ⟨?_, ?_, fun _ => rfl⟩
  · simp [drain, horder]
  · simp [drain, pushed_append, hgiven, Function.comp_def]

theorem inv_act {s : Chain} (h : s.Inv) (event : Event) : (s.act event).Inv := by
  cases event with
  | write chunk =>
      have horder : (s.written ++ [(chunk, s.now)]).map Prod.fst =
          s.given ++ (s.queue ++ [chunk]) := by
        simp [h.order]
      by_cases hflowing : s.flowing = true
      · simp only [act, write, if_pos hflowing]
        exact inv_drain horder h.given_eq
      · simp only [act, write, if_neg hflowing]
        exact ⟨horder, h.given_eq, fun hf => absurd hf hflowing⟩
  | transform =>
      by_cases hflowing : s.flowing = true
      · simp only [act, if_pos hflowing]
        exact h
      · simp only [act, if_neg hflowing, transform]
        cases hqueue : s.queue with
        | nil => exact h
        | cons chunk queue =>
            refine ⟨by simp [h.order, hqueue], ?_, fun hf => absurd hf hflowing⟩
            simp [pushed_append, h.given_eq]
  | flow => exact inv_drain h.order h.given_eq
  | pause => exact ⟨h.order, h.given_eq, fun hf => by cases hf⟩
  | give i => exact ⟨h.order, h.given_eq, h.flowing_spec⟩
  | callback i =>
      simp only [act, callback]
      split
      · exact h
      · exact ⟨h.order, h.given_eq, h.flowing_spec⟩

theorem inv_step {s : Chain} (h : s.Inv) (e : Event × ℚ) : (s.step e).Inv :=
  inv_act (s := { s with now := e.2 }) ⟨h.order, h.given_eq, h.flowing_spec⟩ e.1

theorem written_step (s : Chain) (e : Event × ℚ) : (s.step e).written = s.writtenAfter e := by
  obtain ⟨event, t⟩ := e
  cases event with
  | write chunk =>
      simp only [step, act, write, writtenAfter]
      split_ifs <;> rfl
  | transform =>
      simp only [step, act, transform, writtenAfter]
      split_ifs
      · rfl
      · cases s.queue <;> rfl
  | callback i =>
      simp only [step, act, callback, writtenAfter]
      split <;> rfl
  | _ => rfl

/-- An event that lets nothing out. -/
theorem emitted_step_of_not_releases {s : Chain} (h : s.Inv) {e : Event × ℚ}
    (he : ¬ s.Releases e) : (s.step e).emitted = s.emitted := by
  obtain ⟨event, t⟩ := e
  cases event with
  | write chunk =>
      simp only [step, act, write]
      split_ifs with hflowing
      · -- the chunk is empty
        have hempty : chunk = [] := by
          by_contra hne
          exact he ⟨hflowing, hne⟩
        obtain ⟨hreadable, hqueue⟩ := List.append_eq_nil_iff.mp (h.flowing_spec hflowing)
        simp [drain, hreadable, hqueue, hempty, pushed]
      · rfl
  | transform =>
      simp only [step, act, transform]
      split_ifs
      · rfl
      · cases s.queue <;> rfl
  | flow =>
      have hheld : s.readable ++ pushed s.queue = [] := not_not.mp he
      simp [step, act, drain, hheld]
  | callback i =>
      simp only [step, act, callback]
      split <;> rfl
  | _ => rfl

/-- **An event that lets chunks out lets all out.** -/
theorem step_of_releases {s : Chain} {e : Event × ℚ} (he : s.Releases e) :
    (s.step e).readable ++ (s.step e).queue = [] ∧
      ∃ held, held ≠ [] ∧
        (s.step e).emitted = s.emitted ++ held.map fun chunk => (chunk, e.2) := by
  obtain ⟨event, t⟩ := e
  cases event with
  | write chunk =>
      obtain ⟨hflowing, hchunk⟩ : s.flowing = true ∧ chunk ≠ [] := he
      simp only [step, act, write, if_pos hflowing]
      exact ⟨rfl, s.readable ++ pushed (s.queue ++ [chunk]), by simp [pushed, hchunk], rfl⟩
  | flow => exact ⟨rfl, s.readable ++ pushed s.queue, he, rfl⟩
  | _ => exact he.elim

/-- **What one step needs to keep the output paced.** -/
theorem paced_step_iff {r : ℚ} (hr : 0 < r) {s : Chain} (h : s.Inv) (hp : s.Paced r)
    (e : Event × ℚ) : (s.step e).Paced r ↔ s.Late r e := by
  have hmore : PacedBy r (s.writtenAfter e) s.emitted := by
    have hlength := h.length
    rw [List.length_append] at hlength
    obtain ⟨event, t⟩ := e
    cases event with
    | write chunk => exact (pacedBy_append (by omega) _).mpr hp
    | _ => exact hp
  rw [Paced, written_step]
  by_cases he : s.Releases e
  · obtain ⟨hnone, held, hheld, hemitted⟩ := step_of_releases he
    have hlength := (inv_step h e).length
    obtain ⟨hreadable, hqueue⟩ := List.append_eq_nil_iff.mp hnone
    rw [hreadable, hqueue, written_step, hemitted, List.length_append, List.length_map] at hlength
    rw [hemitted, pacedBy_release hr hlength hheld]
    exact ⟨fun hboth _ => hboth.2, fun hlate => ⟨hmore, hlate he⟩⟩
  · rw [emitted_step_of_not_releases h he]
    exact ⟨fun _ hrel => absurd hrel he, fun _ => hmore⟩

/-! ## The inner streams -/

/-- A stream into which nothing has been written. -/
def Untouched (st : Stream) : Prop := st.queue = [] ∧ st.current = none ∧ st.output = []

/-- A stream that is no faster than its factory, since `start`. -/
structure Timed (start now : ℚ) (st : Stream) : Prop where
  spaced : Spaced (fun chunk => st.factory.delay chunk.length) start st.output
  due_ge : ∀ chunk due, st.current = some (chunk, due) →
    lastEnd start st.output + st.factory.delay chunk.length ≤ due
  lastEnd_le : lastEnd start st.output ≤ now

/-- A stream that is no faster than its factory since the first write, if there was one. -/
def TimedFrom (start : Option ℚ) (now : ℚ) (st : Stream) : Prop :=
  match start with
  | none => Untouched st
  | some start => Timed start now st

theorem Untouched.timed {st : Stream} (h : Untouched st) (now : ℚ) : Timed now now st := by
  obtain ⟨-, hcurrent, houtput⟩ := h
  refine ⟨?_, ?_, ?_⟩
  · rw [houtput]
    trivial
  · intro chunk due hc
    rw [hcurrent] at hc
    cases hc
  · rw [houtput]
    exact le_rfl

theorem Timed.write {start now : ℚ} {st : Stream} (h : Timed start now st) (chunk : Bytes) :
    Timed start now (st.write chunk) := ⟨h.spaced, h.due_ge, h.lastEnd_le⟩

theorem TimedFrom.mono {start : Option ℚ} {now now' : ℚ} {st : Stream}
    (h : TimedFrom start now st) (hnow : now ≤ now') : TimedFrom start now' st := by
  cases start with
  | none => exact h
  | some start => exact ⟨h.spaced, h.due_ge, h.lastEnd_le.trans hnow⟩

theorem TimedFrom.give {start : Option ℚ} {now : ℚ} {st : Stream} (h : TimedFrom start now st) :
    TimedFrom start now (st.give now) := by
  rw [Stream.give]
  split
  next chunk queue hcurrent hqueue =>
    cases start with
    | none =>
        rw [h.1] at hqueue
        cases hqueue
    | some start =>
        refine ⟨h.spaced, fun chunk' due hc => ?_, h.lastEnd_le⟩
        cases hc
        exact add_le_add_left h.lastEnd_le _
  next => exact h

theorem TimedFrom.callback {start : Option ℚ} {now : ℚ} {st : Stream}
    (h : TimedFrom start now st)
    (hdue : ∀ chunk due, st.current = some (chunk, due) → due ≤ now) :
    TimedFrom start now (st.callback now) := by
  rw [Stream.callback]
  split
  next chunk due hcurrent =>
    cases start with
    | none =>
        rw [h.2.1] at hcurrent
        cases hcurrent
    | some start =>
        have hspaced := (h.due_ge chunk due hcurrent).trans (hdue chunk due hcurrent)
        refine ⟨(spaced_concat _ _).mpr ⟨h.spaced, hspaced⟩, ?_, ?_⟩
        · intro _ _ hc
          cases hc
        · rw [lastEnd_concat]
  next => exact h

/-- A property of all elements of a list of which one is changed. -/
theorem forall_mem_modify {α : Type*} {P : α → Prop} {l : List α} {i : ℕ} {f : α → α}
    (h : ∀ a ∈ l, P a) (hf : ∀ a, l[i]? = some a → P (f a)) : ∀ a ∈ l.modify i f, P a := by
  intro a ha
  obtain ⟨j, hj⟩ := List.mem_iff_getElem?.mp ha
  rw [List.getElem?_modify] at hj
  obtain ⟨b, hb, rfl⟩ := Option.map_eq_some_iff.mp hj
  by_cases hij : i = j
  · subst hij
    simpa using hf b hb
  · simpa [hij] using h b (List.mem_of_getElem? hb)

/-- When the first write was. -/
def start (s : Chain) : Option ℚ := s.written.head?.map Prod.snd

theorem forall_mem_writeFirst {start now : ℚ} {streams : List Stream}
    (h : ∀ st ∈ streams, Timed start now st) (chunk : Bytes) :
    ∀ st ∈ writeFirst streams chunk, Timed start now st := by
  cases streams with
  | nil => simp [writeFirst]
  | cons first streams =>
      intro st hst
      rcases List.mem_cons.mp hst with rfl | hst
      · exact (h first List.mem_cons_self).write chunk
      · exact h st (List.mem_cons_of_mem _ hst)

/-- Writing into the first stream makes none faster, if something has been written. -/
theorem forall_mem_foldl_writeFirst {start : Option ℚ} {now : ℚ} {streams : List Stream}
    (h : ∀ st ∈ streams, TimedFrom start now st) (chunks : List Bytes)
    (hstart : chunks ≠ [] → start ≠ none) :
    ∀ st ∈ chunks.foldl writeFirst streams, TimedFrom start now st := by
  cases start with
  | none =>
      obtain rfl : chunks = [] := by
        by_contra hne
        exact hstart hne rfl
      exact h
  | some start =>
      induction chunks generalizing streams with
      | nil => exact h
      | cons chunk chunks ih => exact ih (forall_mem_writeFirst h chunk) (by simp)

/-- What waits in the outer transform has been written. -/
theorem Inv.start_ne_none {s : Chain} (h : s.Inv) (hqueue : s.queue ≠ []) : s.start ≠ none := by
  intro hnone
  rw [start, Option.map_eq_none_iff, List.head?_eq_none_iff] at hnone
  have horder := h.order
  rw [hnone] at horder
  simp only [List.map_nil, List.nil_eq_append_iff] at horder
  exact hqueue horder.2

/-- Every inner stream is no faster than its factory. -/
def AllTimed (s : Chain) : Prop := ∀ st ∈ s.streams, TimedFrom s.start s.now st

theorem allTimed_drain {s : Chain} (h : s.AllTimed) (hstart : s.queue ≠ [] → s.start ≠ none) :
    s.drain.AllTimed := forall_mem_foldl_writeFirst h s.queue hstart

/-- The first write starts the clock. -/
theorem allTimed_written {s : Chain} (h : s.AllTimed) (chunk : Bytes) :
    { s with queue := s.queue ++ [chunk], written := s.written ++ [(chunk, s.now)] }.AllTimed := by
  intro st hst
  have hold := h st hst
  rw [start] at hold ⊢
  cases hwritten : s.written with
  | nil =>
      rw [hwritten] at hold
      exact hold.timed s.now
  | cons first written =>
      rw [hwritten] at hold
      exact hold

theorem allTimed_act {s : Chain} (hinv : s.Inv) (h : s.AllTimed) {event : Event}
    (hdue : ∀ i stream chunk due, event = .callback i → s.streams[i]? = some stream →
      stream.current = some (chunk, due) → due ≤ s.now) : (s.act event).AllTimed := by
  cases event with
  | write chunk =>
      have hwritten := allTimed_written h chunk
      by_cases hflowing : s.flowing = true
      · simp only [act, write, if_pos hflowing]
        exact allTimed_drain hwritten (by simp [start])
      · simp only [act, write, if_neg hflowing]
        exact hwritten
  | transform =>
      rw [act, transform]
      split_ifs
      · exact h
      · cases hqueue : s.queue with
        | nil => exact h
        | cons chunk queue =>
            have hstart := hinv.start_ne_none (by simp [hqueue])
            exact forall_mem_foldl_writeFirst h [chunk] fun _ => hstart
  | flow => exact allTimed_drain h hinv.start_ne_none
  | pause => exact h
  | give i => exact forall_mem_modify h fun st hst => (h st (List.mem_of_getElem? hst)).give
  | callback i =>
      rw [act, Chain.callback]
      split
      next => exact h
      next chunk due hcurrent =>
        obtain ⟨st, hst, hcurrent⟩ := Option.bind_eq_some_iff.mp hcurrent
        have hcalled : ∀ st ∈ s.streams.modify i (Stream.callback s.now),
            TimedFrom s.start s.now st := by
          refine forall_mem_modify h fun st' hst' => ?_
          exact (h st' (List.mem_of_getElem? hst')).callback fun chunk' due' =>
            hdue i st' chunk' due' rfl hst'
        -- nothing calls back before the first write
        obtain ⟨first, hfirst⟩ : ∃ first, s.start = some first := by
          rw [← Option.ne_none_iff_exists']
          intro hnone
          have huntouched := h st (List.mem_of_getElem? hst)
          rw [hnone] at huntouched
          rw [huntouched.2.1] at hcurrent
          cases hcurrent
        rw [AllTimed]
        dsimp only
        split_ifs
        · exact hcalled
        · refine forall_mem_modify hcalled fun st' hst' => ?_
          have htimed := hcalled st' (List.mem_of_getElem? hst')
          rw [hfirst] at htimed
          change TimedFrom s.start s.now _
          rw [hfirst]
          exact Timed.write htimed chunk
theorem allTimed_step {s : Chain} (hinv : s.Inv) (h : s.AllTimed) {e : Event × ℚ}
    (he : s.Admits e) : (s.step e).AllTimed := by
  refine allTimed_act (s := { s with now := e.2 }) ⟨hinv.order, hinv.given_eq, hinv.flowing_spec⟩
    ?_ he.2
  exact fun st hst => (h st hst).mono he.1

/-- **A stream paces what it calls back with by its delays**, wherever in a chain it stands. -/
theorem output_paced (array : List Factory) (now : ℚ) (events : List (Event × ℚ))
    (h : Along step Admits (new now array) events) {st : Stream}
    (hst : st ∈ (run step (new now array) events).streams) {i : ℕ} (hi : i < st.output.length) :
    ∀ first ∈ (run step (new now array) events).written.head?,
      first.2 + ((st.output.take (i + 1)).map fun job => st.factory.delay job.1.length).sum ≤
        st.output[i].2 := by
  have hinv := h.invariant (P := fun s => s.Inv ∧ s.AllTimed)
    (fun s e he hs => ⟨inv_step hs.1 e, allTimed_step hs.1 hs.2 he⟩)
    ⟨inv_new now array, by
      intro st hst
      obtain ⟨factory, -, rfl⟩ := List.mem_map.mp hst
      exact ⟨rfl, rfl, rfl⟩⟩
  intro first hfirst
  have htimed := hinv.2 st hst
  rw [start, Option.mem_def.mp hfirst] at htimed
  exact htimed.spaced.sum_take_le hi

end Chain

end Proxinator.Measure
