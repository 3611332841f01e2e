import Proxinator.Lib.Run
import Proxinator.Lib.Buffer
import Proxinator.Lib.Ledger
import Mathlib.Data.Rat.Floor
import Mathlib.Tactic.NormNum
import Mathlib.Tactic.Linarith

/-!
# The speed meter

`measure.speed` adds up the bytes of each second, and `getSpeed()` averages over the entries that
are not older than `AVERAGE_DURATION` seconds. Those are the entries of the current second and of
the five before it, six in all, and it divides by five: it reports more than the peak rate when
the six together have more than five times the peak (`speed_le_iff`), and at most a fifth more.

Times are in ms; those of `performance.now()` do not run backwards (`Meter.Admits`).
-/

namespace Proxinator.Measure

open Lib

/-- Rolling window duration in seconds for speed averaging. -/
def averageDuration : ℕ := 5

/-- `Math.floor(performance.now() / 1000)`. -/
def second (now : ℚ) : ℤ := ⌊now / 1000⌋

/-- A speed meter. -/
structure Meter where
  now : ℚ
  /-- `measurements`, by second. -/
  measurements : List (ℤ × ℕ)
  /-- What was written into it, and when it measured it. -/
  written : List (Bytes × ℚ)
  /-- What it has called back with. -/
  output : List Bytes
  /-- The speeds it has emitted and returned. -/
  speeds : List ℚ

namespace Meter

/-- A new meter, at a time. -/
def new (now : ℚ) : Meter := ⟨now, [], [], [], []⟩

/-- `prune(now)`. -/
def prune (now : ℤ) (m : Meter) : Meter :=
  { m with measurements := m.measurements.filter fun entry => ¬ entry.1 < now - averageDuration }

/-- `transform.getSpeed()`. -/
def getSpeed (now : ℚ) (m : Meter) : Meter × ℚ :=
  let m := { m with now := now }.prune (second now)
  (m, ((m.measurements.map Prod.snd).sum : ℕ) / averageDuration)

/-- A speed is emitted or returned. -/
def report (now : ℚ) (m : Meter) : Meter :=
  let (m, speed) := m.getSpeed now
  { m with speeds := m.speeds ++ [speed] }

/-- What happens to a meter. -/
inductive Event
  /-- Its `transform` is given a chunk; the clock is read again when the speed is emitted. -/
  | transform (chunk : Bytes) (now later : ℚ)
  | getSpeed (now : ℚ)
  deriving DecidableEq, Repr

/-- `transform(chunk)` up to the speed that it emits. -/
def measure (chunk : Bytes) (now : ℚ) (m : Meter) : Meter :=
  let m := { m with now := now }.prune (second now)
  { m with
    measurements := book (second now) chunk.length m.measurements
    written := m.written ++ [(chunk, now)] }

/-- What a meter does on an event. -/
def step (m : Meter) : Event → Meter
  | .transform chunk now later =>
    let m := (m.measure chunk now).report later
    { m with output := m.output ++ [chunk] }
  | .getSpeed now => m.report now

/-- Time does not run backwards. -/
def Admits (m : Meter) : Event → Prop
  | .transform _ now later => m.now ≤ now ∧ now ≤ later
  | .getSpeed now => m.now ≤ now

/-- The bytes of its chunks, by second. -/
def carried (m : Meter) : List (ℤ × ℕ) := m.written.map fun w => (second w.2, w.1.length)

/-- The bytes of the second of a time and of the seconds averaged over before it. -/
def window (m : Meter) (now : ℚ) : ℕ :=
  total (fun s => second now - averageDuration ≤ s) m.carried

/-- The bytes of the six seconds up to the reading are not more than five seconds carry. -/
def Within (r : ℚ) (m : Meter) : Event → Prop
  | .transform chunk now later => ((m.measure chunk now).window later : ℚ) ≤ averageDuration * r
  | .getSpeed now => (m.window now : ℚ) ≤ averageDuration * r

/-- No speed is above a rate. -/
def Peak (r : ℚ) (m : Meter) : Prop := ∀ speed ∈ m.speeds, speed ≤ r

/-! ## What is kept -/

/-- The entries that are not too old have all that was written in their seconds. -/
structure Kept (m : Meter) : Prop where
  recent : ∀ oldest, second m.now - averageDuration ≤ oldest →
    total (fun s => oldest ≤ s) m.measurements = total (fun s => oldest ≤ s) m.carried
  past : ∀ entry ∈ m.carried, entry.1 ≤ second m.now

theorem second_mono {now later : ℚ} (h : now ≤ later) : second now ≤ second later := by
  apply Int.floor_le_floor
  linarith

theorem carried_measure (chunk : Bytes) (now : ℚ) (m : Meter) :
    (m.measure chunk now).carried = m.carried ++ [(second now, chunk.length)] := by
  simp [carried, measure, prune]

theorem Kept.prune {m : Meter} (h : m.Kept) {now : ℚ} (hnow : m.now ≤ now) :
    ({ m with now := now }.prune (second now) : Meter).Kept := by
  have hsecond := second_mono hnow
  constructor
  · intro oldest holdest
    have hkept : total (fun s => oldest ≤ s) (m.measurements.filter fun entry =>
        ¬ entry.1 < second now - averageDuration) = total (fun s => oldest ≤ s) m.measurements := by
      rw [total_filter _ fun s => ¬ s < second now - averageDuration]
      apply total_congr
      intro entry _
      rw [← Bool.decide_and, decide_eq_decide]
      have holdest : second now - averageDuration ≤ oldest := holdest
      omega
    exact hkept.trans (h.recent oldest (by
      have holdest : second now - averageDuration ≤ oldest := holdest
      omega))
  · intro entry hentry
    exact (h.past entry hentry).trans hsecond

theorem Kept.measure {m : Meter} (h : m.Kept) (chunk : Bytes) {now : ℚ} (hnow : m.now ≤ now) :
    (m.measure chunk now).Kept := by
  have hpruned := h.prune hnow
  constructor
  · intro oldest holdest
    rw [carried_measure, total_concat]
    simp only [Meter.measure]
    rw [total_book]
    exact congrArg (· + _) (hpruned.recent oldest holdest)
  · intro entry hentry
    rw [carried_measure] at hentry
    rcases List.mem_append.mp hentry with hentry | hentry
    · exact hpruned.past entry hentry
    · rw [List.mem_singleton.mp hentry]
      exact le_rfl

theorem Kept.report {m : Meter} (h : m.Kept) {now : ℚ} (hnow : m.now ≤ now) :
    (m.report now).Kept := by
  obtain ⟨hrecent, hpast⟩ := h.prune hnow
  exact ⟨hrecent, hpast⟩

/-- **What a reading reports**: the window over its duration. -/
theorem speeds_report {m : Meter} (h : m.Kept) {now : ℚ} (hnow : m.now ≤ now) :
    (m.report now).speeds = m.speeds ++ [(m.window now : ℚ) / averageDuration] := by
  have hpruned := (h.prune hnow).recent (second now - averageDuration) le_rfl
  have hall : (({ m with now := now }.prune (second now) : Meter).measurements.map Prod.snd).sum =
      m.window now := by
    rw [← total_true, window]
    refine (total_congr ?_).trans hpruned
    intro entry hentry
    have hnew := (List.mem_filter.mp hentry).2
    simpa using hnew
  rw [report, getSpeed]
  simp only [hall]
  rfl

/-- A speed is at most a rate exactly if the window is within it. -/
theorem peak_concat {r : ℚ} {speeds : List ℚ} {n : ℕ} (h : ∀ speed ∈ speeds, speed ≤ r) :
    (∀ speed ∈ speeds ++ [(n : ℚ) / averageDuration], speed ≤ r) ↔
      (n : ℚ) ≤ averageDuration * r := by
  have hpos : (0 : ℚ) < averageDuration := by norm_num [averageDuration]
  simp only [List.mem_append, List.mem_singleton]
  rw [← div_le_iff₀' hpos]
  constructor
  · intro hall
    exact hall _ (Or.inr rfl)
  · intro hlast speed hspeed
    rcases hspeed with hspeed | rfl
    · exact h speed hspeed
    · exact hlast

/-! ## One event -/

theorem Kept.step {m : Meter} (h : m.Kept) {e : Event} (he : m.Admits e) : (m.step e).Kept := by
  cases e with
  | transform chunk now later =>
      obtain ⟨hrecent, hpast⟩ := (h.measure chunk he.1).report he.2
      exact ⟨hrecent, hpast⟩
  | getSpeed now => exact h.report he

theorem step_peak_iff {r : ℚ} {m : Meter} (h : m.Kept) (hpeak : m.Peak r) {e : Event}
    (he : m.Admits e) : (m.step e).Peak r ↔ Within r m e := by
  cases e with
  | transform chunk now later =>
      have hspeeds : (m.step (.transform chunk now later)).speeds =
          m.speeds ++ [((m.measure chunk now).window later : ℚ) / averageDuration] :=
        speeds_report (h.measure chunk he.1) he.2
      rw [Peak, hspeeds]
      exact peak_concat hpeak
  | getSpeed now =>
      have hspeeds : (m.step (.getSpeed now)).speeds =
          m.speeds ++ [(m.window now : ℚ) / averageDuration] := speeds_report h he
      rw [Peak, hspeeds]
      exact peak_concat hpeak

/-! ## Runs -/

/-- **No speed is above a rate exactly if every window is within it.** -/
theorem throughout_peak_iff (r now : ℚ) (events : List Event)
    (h : Along step Admits (new now) events) :
    Throughout step (Peak r) (new now) events ↔ Along step (Within r) (new now) events := by
  refine throughout_iff_along (Q := Kept) h ?_ ?_ ?_ ?_
  · exact ⟨fun _ _ => rfl, by simp [carried, new]⟩
  · simp [Peak, new]
  · intro m e he hkept hpeak
    exact step_peak_iff hkept hpeak he
  · intro m e he hkept _ _
    exact hkept.step he

/-- What an event adds to the bytes of the chunks. -/
def Event.added : Event → List (ℤ × ℕ)
  | .transform chunk now _ => [(second now, chunk.length)]
  | .getSpeed _ => []

theorem carried_step (m : Meter) (e : Event) : (m.step e).carried = m.carried ++ e.added := by
  cases e with
  | transform chunk now later => exact carried_measure chunk now m
  | getSpeed now => exact (List.append_nil _).symm

theorem carried_run (m : Meter) (events : List Event) :
    (run step m events).carried = m.carried ++ events.flatMap Event.added :=
  foldl_append_component carried carried_step events m

/-- The window has six seconds. -/
theorem window_le {r : ℚ} {m : Meter} {now : ℚ} (hpast : ∀ entry ∈ m.carried, entry.1 ≤ second now)
    (hrate : ∀ s, (total (· = s) m.carried : ℚ) ≤ r) : (m.window now : ℚ) ≤ 6 * r := by
  have hsix : m.window now = total (fun s => second now - averageDuration ≤ s ∧
      s < second now - averageDuration + (6 : ℕ)) m.carried := by
    apply total_congr
    intro entry hentry
    have hle := hpast entry hentry
    rw [decide_eq_decide, averageDuration]
    omega
  rw [hsix]
  exact total_interval_le hrate _ 6

theorem within_of_rate {r : ℚ} {m : Meter} (h : m.Kept) {e : Event} (he : m.Admits e)
    (hrate : ∀ s, (total (· = s) (m.step e).carried : ℚ) ≤ r) : Within (6 / 5 * r) m e := by
  have hfive : (averageDuration : ℚ) * (6 / 5 * r) = 6 * r := by
    rw [averageDuration]
    ring
  cases e with
  | transform chunk now later =>
      rw [Within, hfive]
      refine window_le ?_ hrate
      intro entry hentry
      exact ((h.measure chunk he.1).past entry hentry).trans (second_mono he.2)
  | getSpeed now =>
      rw [Within, hfive]
      refine window_le ?_ hrate
      intro entry hentry
      exact (h.past entry hentry).trans (second_mono he)

/-- **When the meter reports no more than the peak rate**: exactly if at each reading the bytes of
the current second and of the five before are within five times the peak. It never reports more
than six fifths of it. -/
theorem speed_le_iff (r now : ℚ) (events : List Event) (h : Along step Admits (new now) events)
    (hrate : ∀ s, (total (· = s) (run step (new now) events).carried : ℚ) ≤ r) :
    (Throughout step (Peak r) (new now) events ↔ Along step (Within r) (new now) events) ∧
      Throughout step (Peak (6 / 5 * r)) (new now) events := by
  refine ⟨throughout_peak_iff r now events h, ?_⟩
  rw [throughout_peak_iff _ now events h]
  intro pre e hpre
  obtain ⟨post, rfl⟩ := hpre
  obtain ⟨hadmits, -⟩ := (along_append (pre ++ [e]) post).mp h
  obtain ⟨hadmits, he⟩ := (along_concat pre e).mp hadmits
  have hkept : (run step (new now) pre).Kept :=
    hadmits.invariant (fun m e he hkept => Kept.step hkept he)
      ⟨fun _ _ => rfl, by simp [carried, new]⟩
  refine within_of_rate hkept he ?_
  intro s
  refine le_trans ?_ (hrate s)
  rw [run_append, run_concat, carried_run, total_append]
  exact_mod_cast Nat.le_add_right _ _

/-- Five bytes in a second, and five in the next. -/
def twoSeconds : List Event :=
  [.transform [1, 2, 3, 4, 5] 0 0, .transform [1, 2, 3, 4, 5] 1000 1000, .getSpeed 2000]

theorem speed_le_twoSeconds : Throughout step (Peak 5) (new 0) twoSeconds := by
  refine (speed_le_iff 5 0 twoSeconds ?_ ?_).1.mpr ?_
  · simp only [twoSeconds, along_cons, along_nil, and_true]
    exact ⟨⟨le_rfl, le_rfl⟩, ⟨by decide +kernel, le_rfl⟩, (by norm_num : (1000 : ℚ) ≤ 2000)⟩
  · intro s
    have hcarried : (run step (new 0) twoSeconds).carried = [(0, 5), (1, 5)] := by decide +kernel
    rw [hcarried, total_cons, total_cons, total_nil]
    simp only [decide_eq_true_eq]
    norm_cast
    split_ifs <;> omega
  · simp only [twoSeconds, along_cons, along_nil, and_true]
    refine ⟨?_, ?_, ?_⟩
    · rw [Within]
      decide +kernel
    · rw [Within]
      decide +kernel
    · rw [Within]
      decide +kernel

/-- Five bytes in each of six seconds. -/
def sixSeconds : List Event :=
  [.transform [1, 2, 3, 4, 5] 0 0, .transform [1, 2, 3, 4, 5] 1000 1000,
    .transform [1, 2, 3, 4, 5] 2000 2000, .transform [1, 2, 3, 4, 5] 3000 3000,
    .transform [1, 2, 3, 4, 5] 4000 4000, .transform [1, 2, 3, 4, 5] 5000 5000]

/-- **Six bytes per second are reported of five.** -/
theorem not_speed_le_sixSeconds :
    Along step Admits (new 0) sixSeconds ∧
      (∀ s, (total (· = s) (run step (new 0) sixSeconds).carried : ℚ) ≤ 5) ∧
      (run step (new 0) sixSeconds).speeds = [1, 2, 3, 4, 5, 6] ∧
      ¬ Throughout step (Peak 5) (new 0) sixSeconds := by
  have hspeeds : (run step (new 0) sixSeconds).speeds = [1, 2, 3, 4, 5, 6] := by decide +kernel
  refine ⟨?_, ?_, hspeeds, ?_⟩
  · simp only [sixSeconds, along_cons, along_nil, and_true]
    refine ⟨⟨le_rfl, le_rfl⟩, ⟨?_, le_rfl⟩, ⟨?_, le_rfl⟩, ⟨?_, le_rfl⟩, ⟨?_, le_rfl⟩, ?_, le_rfl⟩ <;>
      decide +kernel
  · intro s
    have hcarried : (run step (new 0) sixSeconds).carried =
        [(0, 5), (1, 5), (2, 5), (3, 5), (4, 5), (5, 5)] := by decide +kernel
    rw [hcarried]
    simp only [total_cons, total_nil, decide_eq_true_eq]
    norm_cast
    split_ifs <;> omega
  · intro h
    have hlast : (6 : ℚ) ≤ 5 := h.last 6 (by rw [hspeeds]; decide)
    norm_num at hlast

end Meter

end Proxinator.Measure
