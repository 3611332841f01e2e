import Proxinator.Lib.Run

/-!
# Deadlines

A machine with timers, and a clock. A timer is armed by events of the machine, runs as long as
the machine says, and fires with an event. If timers fire when their time has come, neither
earlier nor later, then no timer runs longer than its delay (`Punctual.running_le`), and what
only the firing of a timer brings about is not seen before (`Punctual.fired_le`).

## Main definitions

* `Clocked` — the state of a machine, the time, and when each timer was armed last.
* `Punctual` — timers fire when their time has come.
-/

namespace Proxinator.Lib

/-- The state of a machine, the time, and when each timer was armed last. -/
structure Clocked (σ κ : Type*) where
  state : σ
  now : ℕ
  since : κ → ℕ

namespace Clocked

variable {σ ε κ : Type*}

/-- An event of the machine, or time goes on. -/
inductive Event (ε : Type*)
  | event (e : ε)
  | tick

/-- The event of the machine, if it is one. -/
def Event.event? : Event ε → Option ε
  | .event e => some e
  | .tick => none

/-- A machine at time 0. -/
def start (s : σ) : Clocked σ κ := ⟨s, 0, fun _ => 0⟩

/-- The reaction to an event, where `arms` are the timers that one arms. -/
def step (react : σ → ε → σ) (arms : σ → ε → κ → Bool) (t : Clocked σ κ) :
    Event ε → Clocked σ κ
  | .event e =>
    { t with
      state := react t.state e
      since := fun k => if arms t.state e k then t.now else t.since k }
  | .tick => { t with now := t.now + 1 }

/-- An event that fires a timer comes when its delay is over, and time does not go on before. -/
def Punctual (running : σ → κ → Prop) (fires : ε → κ → Prop) (delay : ℕ) (t : Clocked σ κ) :
    Event ε → Prop
  | .event e => ∀ k, fires e k → t.since k + delay ≤ t.now
  | .tick => ∀ k, running t.state k → t.now < t.since k + delay

variable {react : σ → ε → σ} {arms : σ → ε → κ → Bool}

/-- What the clock shows has no influence on the machine. -/
theorem state_run (t : Clocked σ κ) (events : List (Event ε)) :
    (run (step react arms) t events).state = run react t.state (events.filterMap Event.event?) := by
  induction events generalizing t with
  | nil => rfl
  | cons e events ih =>
      rw [run_cons, ih]
      cases e with
      | event e => rfl
      | tick => rfl

variable {running : σ → κ → Prop} {fires : ε → κ → Prop} {delay : ℕ} {t : Clocked σ κ}
  {events : List (Event ε)}

/-- Time goes on. -/
theorem run_ticks (t : Clocked σ κ) (n : ℕ) :
    run (step react arms) t (List.replicate n .tick) = { t with now := t.now + n } := by
  induction n generalizing t with
  | zero => rfl
  | succ n ih =>
      rw [List.replicate_succ, run_cons, ih, step]
      simp [Nat.add_assoc, Nat.add_comm 1]

/-- Time goes on until a delay is over. -/
theorem along_ticks {n : ℕ} (h : ∀ k, running t.state k → t.now + n ≤ t.since k + delay) :
    Along (step react arms) (Punctual running fires delay) t (List.replicate n .tick) := by
  induction n with
  | zero => exact along_nil
  | succ n ih =>
      rw [List.replicate_succ', along_concat, run_ticks]
      refine ⟨ih fun k hk => ?_, fun k hk => ?_⟩
      · have hle := h k hk
        omega
      · have hle := h k hk
        simp only
        omega

/-- **A timer runs no longer than its delay**, if it runs only once it has been armed. -/
theorem Punctual.running_le
    (hruns : ∀ s e k, running (react s e) k → running s k ∨ arms s e k = true)
    (h : Along (step react arms) (Punctual running fires delay) t events)
    (h0 : ∀ k, running t.state k → t.now ≤ t.since k + delay) {k : κ}
    (hk : running (run (step react arms) t events).state k) :
    (run (step react arms) t events).now ≤
      (run (step react arms) t events).since k + delay := by
  refine h.invariant (P := fun t => ∀ k, running t.state k → t.now ≤ t.since k + delay)
    (fun t e he ht k hk => ?_) h0 k hk
  cases e with
  | event e =>
      by_cases harms : arms t.state e k = true
      · simp [step, harms]
      · have hrunning : running t.state k := (hruns _ _ _ hk).resolve_right harms
        simpa [step, harms] using ht k hrunning
  | tick =>
      have hlt := he k hk
      simp only [step]
      omega

/-- **What only the firing of a timer brings about is not seen before its delay is over.** -/
theorem Punctual.fired_le {P : σ → κ → Prop}
    (hfired : ∀ s e k, P (react s e) k → arms s e k = false ∧ (P s k ∨ fires e k))
    (h : Along (step react arms) (Punctual running fires delay) t events)
    (h0 : ∀ k, ¬ P t.state k) {k : κ} (hk : P (run (step react arms) t events).state k) :
    (run (step react arms) t events).since k + delay ≤
      (run (step react arms) t events).now := by
  refine h.invariant (P := fun t => ∀ k, P t.state k → t.since k + delay ≤ t.now)
    (fun t e he ht k hk => ?_) (fun k hk => absurd hk (h0 k)) k hk
  cases e with
  | event e =>
      obtain ⟨harms, hold | hfires⟩ := hfired _ _ _ hk
      · simpa [step, harms] using ht k hold
      · simpa [step, harms] using he k hfires
  | tick => exact (ht k hk).trans (Nat.le_succ t.now)

end Clocked

end Proxinator.Lib
