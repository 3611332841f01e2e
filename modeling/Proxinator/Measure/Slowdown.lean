import Proxinator.Measure.Throttle

/-!
# A throttle by itself

`slowdown` computes the delay of each chunk from that chunk alone, and starts to count when its
`transform` is given the chunk, which is not before the callback for the chunk before. So from
one callback to the next passes at least the delay of the chunk between, and over any window of
chunks their delays add up (`slowdown_window`). A consumer that reads gets a chunk when the
transform calls back with it, unless the chunk is empty. The delays are doubles, and may fall short
of what the rate asks for by two roundings.

## Main results

* `delay_near` — the delay of a chunk, up to its roundings.
* `slowdown_window` — any window of chunks.
-/

namespace Proxinator.Measure

open Lib

/-- A transform by itself. -/
structure Single where
  now : ℚ
  stream : Stream
  /-- What was written into it, and when. -/
  written : List (Bytes × ℚ)

namespace Single

/-- What happens to a transform. -/
inductive Event
  | write (chunk : Bytes)
  /-- Its `transform` is given the next chunk, if it has called back for the one before. -/
  | give
  /-- It calls back. -/
  | callback
  deriving DecidableEq, Repr

/-- A new transform, at a time. -/
def new (now : ℚ) (factory : Factory) : Single := ⟨now, Stream.new factory, []⟩

/-- What a transform does on an event, at a time. -/
def step (s : Single) (e : Event × ℚ) : Single :=
  match e.1 with
  | .write chunk =>
    { s with now := e.2, stream := s.stream.write chunk, written := s.written ++ [(chunk, e.2)] }
  | .give => { s with now := e.2, stream := s.stream.give e.2 }
  | .callback => { s with now := e.2, stream := s.stream.callback e.2 }

/-- Time does not run backwards, and the timer does not fire before it is due. -/
def Admits (s : Single) (e : Event × ℚ) : Prop :=
  s.now ≤ e.2 ∧
    ∀ chunk due, e.1 = .callback → s.stream.current = some (chunk, due) → due ≤ e.2

/-- The chunks it has called back with, and when. -/
def called (s : Single) : List (Bytes × ℚ) := s.stream.output

/-- The chunks it has emitted, and when. -/
def emitted (s : Single) : List (Bytes × ℚ) := s.stream.emitted

/-- When it called back with chunk `i - 1`; for the first chunk, when something was first
written. -/
def calledBefore (first : ℚ) (called : List (Bytes × ℚ)) : ℕ → ℚ
  | 0 => first
  | i + 1 => (called[i]?.map Prod.snd).getD first

/-! ## One event -/

/-- When the first write was. -/
def start (s : Single) : Option ℚ := s.written.head?.map Prod.snd

/-- What was written has been called back with, is worked on, or waits. -/
def Ordered (s : Single) : Prop :=
  s.written.map Prod.fst =
    s.called.map Prod.fst ++ (s.stream.current.toList.map Prod.fst ++ s.stream.queue)

theorem ordered_step {s : Single} (h : s.Ordered) (e : Event × ℚ) : (s.step e).Ordered := by
  obtain ⟨event, t⟩ := e
  cases event with
  | write chunk =>
      rw [Ordered, called] at h ⊢
      simp [step, Stream.write, h]
  | give =>
      rw [Ordered, called] at h ⊢
      simp only [step, Stream.give]
      split
      next chunk queue hcurrent hqueue => simp [h, hcurrent, hqueue]
      next => exact h
  | callback =>
      rw [Ordered, called] at h ⊢
      simp only [step, Stream.callback]
      split
      next chunk due hcurrent => simp [h, hcurrent]
      next => exact h

theorem factory_step (s : Single) (e : Event × ℚ) :
    (s.step e).stream.factory = s.stream.factory := by
  obtain ⟨event, t⟩ := e
  cases event with
  | write chunk => rfl
  | give =>
      simp only [step, Stream.give]
      split <;> rfl
  | callback =>
      simp only [step, Stream.callback]
      split <;> rfl

/-- The stream is no faster than its factory, since the first write. -/
def Timed (s : Single) : Prop := Chain.TimedFrom s.start s.now s.stream

theorem timed_step {s : Single} (h : s.Timed) {e : Event × ℚ} (he : s.Admits e) :
    (s.step e).Timed := by
  obtain ⟨event, t⟩ := e
  have hlater : Chain.TimedFrom s.start t s.stream := Chain.TimedFrom.mono h he.1
  cases event with
  | write chunk =>
      rw [Timed, start]
      simp only [step]
      -- the first write starts the clock
      cases hwritten : s.written with
      | nil =>
          rw [start, hwritten] at hlater
          exact (Chain.Untouched.timed hlater t).write chunk
      | cons first written =>
          rw [start, hwritten] at hlater
          exact Chain.Timed.write hlater chunk
  | give => exact hlater.give
  | callback => exact hlater.callback fun chunk due => he.2 chunk due rfl

/-! ## The delays -/

theorem delay_eq {r : ℚ} (hr : r ≠ 0) (length : ℕ) :
    (slowdown (some r)).delay length = toDouble (toDouble (length / r) * 1000) := by
  rw [slowdown, getRate, if_neg hr]

theorem delay_nonneg {r : ℚ} (hr : 0 < r) (length : ℕ) : 0 ≤ (slowdown (some r)).delay length := by
  rw [delay_eq hr.ne']
  refine roundTo_nonneg (mul_nonneg (roundTo_nonneg ?_) (by norm_num))
  exact div_nonneg (Nat.cast_nonneg length) hr.le

/-- Up to the rate of `2 ^ 1022` no quotient of a length and the rate underflows. -/
def maxRate : ℚ := (2 ^ (-1022 : ℤ))⁻¹

/-- **A delay is what the rate asks for, up to two roundings.** -/
theorem delay_near {r : ℚ} (hr : 0 < r) (hlarge : r ≤ maxRate) (length : ℕ) :
    (1 - 1 / 2 ^ 53) ^ 2 * (length / r * 1000) ≤ (slowdown (some r)).delay length ∧
      (slowdown (some r)).delay length ≤ (1 + 1 / 2 ^ 53) ^ 2 * (length / r * 1000) := by
  rw [delay_eq hr.ne']
  cases length with
  | zero => simp [toDouble]
  | succ length =>
      have hunit : (2 : ℚ) ^ (-((53 : ℕ) : ℤ)) = 1 / 2 ^ 53 := by norm_num
      generalize hquotient : ((length + 1 : ℕ) : ℚ) / r = quotient
      have hfirst : (2 : ℚ) ^ (-1022 : ℤ) ≤ quotient := by
        calc (2 : ℚ) ^ (-1022 : ℤ) ≤ 1 / r := by
              rw [one_div]
              exact (le_inv_comm₀ hr (zpow_pos two_pos _)).mp hlarge
          _ ≤ quotient := by
            rw [← hquotient]
            gcongr
            exact_mod_cast Nat.succ_pos length
      obtain ⟨hlow, hhigh⟩ := roundTo_near (p := 53) hfirst
      rw [hunit] at hlow hhigh
      have hpos : 0 < quotient := (zpow_pos two_pos _).trans_le hfirst
      have hscaled : (1 - 1 / 2 ^ 53) * quotient * 1000 ≤ toDouble quotient * 1000 :=
        mul_le_mul_of_nonneg_right hlow (by norm_num)
      have hscaled' : toDouble quotient * 1000 ≤ (1 + 1 / 2 ^ 53) * quotient * 1000 :=
        mul_le_mul_of_nonneg_right hhigh (by norm_num)
      have hsecond : (2 : ℚ) ^ (-1022 : ℤ) ≤ toDouble quotient * 1000 := by
        calc (2 : ℚ) ^ (-1022 : ℤ) ≤ quotient := hfirst
          _ ≤ (1 - 1 / 2 ^ 53) * quotient * 1000 := by linarith
          _ ≤ toDouble quotient * 1000 := hscaled
      obtain ⟨hlow', hhigh'⟩ := roundTo_near (p := 53) hsecond
      rw [hunit] at hlow' hhigh'
      constructor
      · calc (1 - 1 / 2 ^ 53) ^ 2 * (quotient * 1000)
            = (1 - 1 / 2 ^ 53) * ((1 - 1 / 2 ^ 53) * quotient * 1000) := by ring
          _ ≤ (1 - 1 / 2 ^ 53) * (toDouble quotient * 1000) :=
            mul_le_mul_of_nonneg_left hscaled (by norm_num)
          _ ≤ toDouble (toDouble quotient * 1000) := hlow'
      · calc toDouble (toDouble quotient * 1000)
            ≤ (1 + 1 / 2 ^ 53) * (toDouble quotient * 1000) := hhigh'
          _ ≤ (1 + 1 / 2 ^ 53) * ((1 + 1 / 2 ^ 53) * quotient * 1000) :=
            mul_le_mul_of_nonneg_left hscaled' (by norm_num)
          _ = (1 + 1 / 2 ^ 53) ^ 2 * (quotient * 1000) := by ring

/-- The delays of chunks, added up. -/
def delays (r : ℚ) (chunks : List (Bytes × ℚ)) : ℚ :=
  (chunks.map fun chunk => (slowdown (some r)).delay chunk.1.length).sum

/-- Together they are what the rate asks for, up to the roundings of each. -/
theorem delays_near {r : ℚ} (hr : 0 < r) (hlarge : r ≤ maxRate) (chunks : List (Bytes × ℚ)) :
    (1 - 1 / 2 ^ 53) ^ 2 * (bytes chunks / r * 1000) ≤ delays r chunks ∧
      delays r chunks ≤ (1 + 1 / 2 ^ 53) ^ 2 * (bytes chunks / r * 1000) := by
  induction chunks with
  | nil => simp [bytes, delays]
  | cons chunk chunks ih =>
      obtain ⟨hlow, hhigh⟩ := delay_near hr hlarge chunk.1.length
      have hbytes : bytes (chunk :: chunks) / r * 1000 =
          chunk.1.length / r * 1000 + bytes chunks / r * 1000 := by
        rw [bytes, List.map_cons, List.sum_cons, ← bytes]
        ring
      rw [hbytes, delays, List.map_cons, List.sum_cons, ← delays, mul_add, mul_add]
      exact ⟨add_le_add hlow ih.1, add_le_add hhigh ih.2⟩

/-! ## Runs -/

theorem calledBefore_eq {first : ℚ} {called : List (Bytes × ℚ)} {i : ℕ}
    (hi : i ≤ called.length) : calledBefore first called i = lastEnd first (called.take i) := by
  cases i with
  | zero => rfl
  | succ i =>
      have hlt : i < called.length := hi
      rw [calledBefore, List.getElem?_eq_getElem hlt, ← List.take_concat_get' called i hlt,
        lastEnd_concat]
      rfl

/-- **What a throttle does.** From the callback for chunk `i - 1` to that for chunk `j` pass at
least the delays from chunk `i` up to chunk `j`, in ms. -/
structure Throttled (r : ℚ) (s : Single) : Prop where
  ordered : s.Ordered
  /-- All but empty chunks come out. -/
  emitted_eq : s.emitted.map Prod.fst = pushed (s.called.map Prod.fst)
  window : ∀ first ∈ s.written.head?, ∀ i j, i ≤ j → j < s.called.length →
    delays r ((s.called.take (j + 1)).drop i) ≤
      calledBefore first.2 s.called (j + 1) - calledBefore first.2 s.called i

/-- **A throttle never exceeds its rate, up to the roundings of its delays**: every window of
chunks takes their bytes over the rate. -/
theorem slowdown_window {r : ℚ} (hr : 0 < r) (now : ℚ) (events : List (Event × ℚ))
    (h : Along step Admits (new now (slowdown (some r))) events) :
    let s := run step (new now (slowdown (some r))) events
    s.Throttled r ∧
      (r ≤ maxRate → ∀ first ∈ s.written.head?, ∀ i j, i ≤ j → j < s.called.length →
        (1 - 1 / 2 ^ 53) ^ 2 * (bytes ((s.called.take (j + 1)).drop i) / r * 1000) ≤
          calledBefore first.2 s.called (j + 1) - calledBefore first.2 s.called i) := by
  intro s
  obtain ⟨hordered, htimed, hfactory⟩ : s.Ordered ∧ s.Timed ∧
      s.stream.factory = slowdown (some r) :=
    h.invariant (P := fun s => s.Ordered ∧ s.Timed ∧ s.stream.factory = slowdown (some r))
      (fun s e he hs =>
        ⟨ordered_step hs.1 e, timed_step hs.2.1 he, (factory_step s e).trans hs.2.2⟩)
      ⟨rfl, ⟨rfl, rfl, rfl⟩, rfl⟩
  have hwindow : ∀ first ∈ s.written.head?, ∀ i j, i ≤ j → j < s.called.length →
      delays r ((s.called.take (j + 1)).drop i) ≤
        calledBefore first.2 s.called (j + 1) - calledBefore first.2 s.called i := by
    intro first hfirst i j hij hj
    rw [Timed, start, Option.mem_def.mp hfirst] at htimed
    have hspaced := htimed.spaced.sum_window_le hij hj
    rw [hfactory] at hspaced
    have hlast : calledBefore first.2 s.called (j + 1) = s.called[j].2 := by
      rw [calledBefore, List.getElem?_eq_getElem hj]
      rfl
    rw [hlast, calledBefore_eq (by omega)]
    exact le_sub_iff_add_le'.mpr hspaced
  refine ⟨⟨hordered, map_fst_filled s.called, hwindow⟩, ?_⟩
  intro hlarge first hfirst i j hij hj
  exact (delays_near hr hlarge _).1.trans (hwindow first hfirst i j hij hj)

/-- Three chunks written at once, the second of them empty. -/
theorem slowdown_window_three :
    let events : List (Event × ℚ) := [(.write [65], 0), (.write [], 0), (.write [66, 67], 0),
      (.give, 0), (.callback, 1), (.give, 1), (.callback, 1), (.give, 1), (.callback, 3)]
    let s := run step (new 0 (slowdown (some 1000))) events
    s.emitted.map Prod.fst = [[65], [66, 67]] ∧
      delays 1000 ((s.called.take 3).drop 0) ≤ calledBefore 0 s.called 3 - 0 ∧
      (1 - 1 / 2 ^ 53) ^ 2 * (bytes ((s.called.take 3).drop 0) / 1000 * 1000) ≤
        calledBefore 0 s.called 3 - 0 := by
  intro events s
  have hone : (slowdown (some 1000)).delay 1 = 1 := by decide +kernel
  have hzero : (slowdown (some 1000)).delay 0 = 0 := by decide +kernel
  have htwo : (slowdown (some 1000)).delay 2 = 2 := by decide +kernel
  have h : Along step Admits (new 0 (slowdown (some 1000))) events := by
    simp [events, along_cons, along_nil, Admits, step, new, Stream.new, Stream.write,
      Stream.give, Stream.callback, hone, hzero, htwo]
    norm_num
  obtain ⟨hthrottled, hrate⟩ := slowdown_window (by norm_num) 0 events h
  exact ⟨hthrottled.emitted_eq, hthrottled.window ([65], 0) rfl 0 2 (by decide) (by decide),
    hrate (by decide +kernel) ([65], 0) rfl 0 2 (by decide) (by decide)⟩

/-- **An empty chunk does not come out, and a delay may be too short**: at 3 bytes a second, the
double for the delay of a byte is less than a third of a second. -/
theorem not_slowdown_window :
    let events : List (Event × ℚ) := [(.write [], 0), (.write [65], 0), (.give, 0), (.callback, 0),
      (.give, 0), (.callback, 5864062014805333 / 17592186044416)]
    let s := run step (new 0 (slowdown (some 3))) events
    Along step Admits (new 0 (slowdown (some 3))) events ∧
      ¬ s.emitted.map Prod.fst <+: s.written.map Prod.fst ∧
      calledBefore 0 s.called 2 - calledBefore 0 s.called 1 <
        bytes ((s.called.take 2).drop 1) / 3 * 1000 := by
  intro events s
  have hzero : (slowdown (some 3)).delay 0 = 0 := by decide +kernel
  have hone : (slowdown (some 3)).delay 1 = 5864062014805333 / 17592186044416 := by decide +kernel
  refine ⟨?_, by decide, ?_⟩
  · simp [events, along_cons, along_nil, Admits, step, new, Stream.new, Stream.write,
      Stream.give, Stream.callback, hzero, hone]
    norm_num
  · norm_num [s, events, run, step, new, Stream.new, Stream.write, Stream.give, Stream.callback,
      called, calledBefore, bytes]

end Single

end Proxinator.Measure
