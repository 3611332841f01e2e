import Mathlib.Data.List.Infix

/-!
# Runs of an event machine

A machine is a step function on states and events, and a run folds it over a list of
events. This module has what every safety argument about such runs goes through: an
invariant that each step keeps holds after every run (`run_invariant`), and a property
of states is compared with a condition on steps (`throughout_iff_along`). That a run can be
brought to an end is shown by a measure (`exists_along_of_measure`).

## Main definitions

* `run step s events` — the state after the events.
* `Throughout step P s events` — `P` holds of every state of the run, the first included.
* `Along step C s events` — every step of the run is taken in a state and on an event that
  meet `C`.
-/

namespace Proxinator.Lib

variable {σ ε : Type*}

/-- The state after the events. -/
def run (step : σ → ε → σ) (s : σ) (events : List ε) : σ := events.foldl step s

/-- Every state of the run satisfies `P`. -/
def Throughout (step : σ → ε → σ) (P : σ → Prop) (s : σ) (events : List ε) : Prop :=
  ∀ pre, pre <+: events → P (run step s pre)

/-- Every step of the run meets `C`. -/
def Along (step : σ → ε → σ) (C : σ → ε → Prop) (s : σ) (events : List ε) : Prop :=
  ∀ pre e, pre ++ [e] <+: events → C (run step s pre) e

section

variable {step : σ → ε → σ} {P Q : σ → Prop} {C D : σ → ε → Prop} {s : σ}

@[simp] theorem run_nil : run step s [] = s := rfl

@[simp] theorem run_cons (e : ε) (es : List ε) : run step s (e :: es) = run step (step s e) es :=
  rfl

theorem run_append (es es' : List ε) :
    run step s (es ++ es') = run step (run step s es) es' :=
  List.foldl_append

@[simp] theorem run_concat (es : List ε) (e : ε) :
    run step s (es ++ [e]) = step (run step s es) e := by
  rw [run_append]
  rfl

/-- **What every step keeps holds after every run.** -/
theorem run_invariant (hstep : ∀ s e, P s → P (step s e)) (h0 : P s) (events : List ε) :
    P (run step s events) := by
  induction events generalizing s with
  | nil => exact h0
  | cons e es ih => exact ih (hstep s e h0)

/-- A component that no step changes. -/
theorem foldl_component {α β : Type*} (component : σ → β) {f : σ → α → σ}
    (hf : ∀ s a, component (f s a) = component s) (as : List α) (s : σ) :
    component (as.foldl f s) = component s := by
  induction as generalizing s with
  | nil => rfl
  | cons a as ih => exact (ih (f s a)).trans (hf s a)

/-- A component that a function does not change, however often it is applied. -/
theorem iterate_component {β : Type*} (component : σ → β) {f : σ → σ}
    (hf : ∀ s, component (f s) = component s) (n : ℕ) (s : σ) :
    component (Nat.iterate f n s) = component s := by
  induction n generalizing s with
  | zero => rfl
  | succ n ih => exact (ih (f s)).trans (hf s)

/-- A log to which entries with a property were appended, twice. -/
theorem exists_append_trans {α : Type*} {P : α → Prop} {log log' log'' : List α}
    (h : ∃ extra, log' = log ++ extra ∧ ∀ a ∈ extra, P a)
    (h' : ∃ extra, log'' = log' ++ extra ∧ ∀ a ∈ extra, P a) :
    ∃ extra, log'' = log ++ extra ∧ ∀ a ∈ extra, P a := by
  obtain ⟨extra, rfl, hextra⟩ := h
  obtain ⟨extra', rfl, hextra'⟩ := h'
  refine ⟨extra ++ extra', by rw [List.append_assoc], fun a ha => ?_⟩
  exact (List.mem_append.mp ha).elim (hextra a) (hextra' a)

/-- A component to which every step appends. -/
theorem foldl_append_component {α β : Type*} (component : σ → List β) {f : σ → α → σ}
    {g : α → List β} (hf : ∀ s a, component (f s a) = component s ++ g a) (as : List α) (s : σ) :
    component (as.foldl f s) = component s ++ as.flatMap g := by
  induction as generalizing s with
  | nil => simp
  | cons a as ih => rw [List.foldl_cons, ih, hf, List.flatMap_cons, List.append_assoc]

/-- A component that no event of the run changes. -/
theorem run_component {β : Type*} (component : σ → β) {es : List ε}
    (h : ∀ e ∈ es, ∀ s, component (step s e) = component s) :
    component (run step s es) = component s := by
  induction es generalizing s with
  | nil => rfl
  | cons e es ih =>
      rw [run_cons, ih fun e' he' => h e' (List.mem_cons_of_mem _ he')]
      exact h e List.mem_cons_self s

@[simp] theorem throughout_nil : Throughout step P s [] ↔ P s := by
  simp [Throughout]

theorem throughout_concat (es : List ε) (e : ε) :
    Throughout step P s (es ++ [e]) ↔ Throughout step P s es ∧ P (step (run step s es) e) := by
  simp only [Throughout, List.prefix_concat_iff]
  constructor
  · intro h
    constructor
    · intro pre hpre
      exact h pre (Or.inr hpre)
    · have hlast := h (es ++ [e]) (Or.inl rfl)
      rwa [run_concat] at hlast
  · rintro ⟨h, hlast⟩ pre (rfl | hpre)
    · rwa [run_concat]
    · exact h pre hpre

theorem Throughout.last {es : List ε} (h : Throughout step P s es) : P (run step s es) :=
  h es List.prefix_rfl

@[simp] theorem along_nil : Along step C s [] := by
  simp [Along]

theorem along_concat (es : List ε) (e : ε) :
    Along step C s (es ++ [e]) ↔ Along step C s es ∧ C (run step s es) e := by
  simp only [Along, List.prefix_concat_iff]
  constructor
  · intro h
    exact ⟨fun pre e' hpre => h pre e' (Or.inr hpre), h es e (Or.inl rfl)⟩
  · rintro ⟨h, hlast⟩ pre e' (heq | hpre)
    · obtain ⟨rfl, rfl⟩ := List.append_inj' heq rfl |>.imp id (List.singleton_inj.mp ·)
      exact hlast
    · exact h pre e' hpre

theorem along_cons (e : ε) (es : List ε) :
    Along step C s (e :: es) ↔ C s e ∧ Along step C (step s e) es := by
  constructor
  · intro h
    constructor
    · exact h [] e (by simp)
    · intro pre e' hpre
      exact h (e :: pre) e' (by simpa using hpre)
  · rintro ⟨he, hes⟩ pre e' hpre
    cases pre with
    | nil =>
        obtain rfl : e' = e := by simpa using hpre
        exact he
    | cons e'' pre =>
        obtain ⟨rfl, htail⟩ : e'' = e ∧ pre ++ [e'] <+: es := by simpa using hpre
        exact hes pre e' htail

instance decidableAlong [∀ s e, Decidable (C s e)] :
    ∀ (s : σ) (es : List ε), Decidable (Along step C s es)
  | _, [] => isTrue along_nil
  | s, e :: es =>
    have := decidableAlong (step s e) es
    decidable_of_iff _ (along_cons e es).symm

theorem along_append (es es' : List ε) :
    Along step C s (es ++ es') ↔ Along step C s es ∧ Along step C (run step s es) es' := by
  induction es generalizing s with
  | nil => simp
  | cons e es ih => rw [List.cons_append, along_cons, along_cons, ih, run_cons, and_assoc]

/-- A condition that every event meets in every state. -/
theorem Along.of_forall {es : List ε} (h : ∀ e ∈ es, ∀ s, C s e) : Along step C s es := by
  intro pre e hpre
  exact h e (hpre.subset (by simp)) _

/-- **An invariant along steps that meet a condition.** -/
theorem Along.invariant {es : List ε} (h : Along step C s es)
    (hstep : ∀ s e, C s e → P s → P (step s e)) (h0 : P s) : P (run step s es) := by
  induction es using List.reverseRecOn with
  | nil => exact h0
  | append_singleton es e ih =>
      obtain ⟨hes, he⟩ := (along_concat es e).mp h
      rw [run_concat]
      exact hstep _ e he (ih hes)

/-- **A run can be brought to an end**: where it is not, some step that meets the condition takes
the measure down. -/
theorem exists_along_of_measure (μ : σ → ℕ) (hkeep : ∀ s e, C s e → Q s → Q (step s e))
    (hnext : ∀ s, Q s → ¬ P s → ∃ e, C s e ∧ μ (step s e) < μ s) (h0 : Q s) :
    ∃ es, Along step C s es ∧ P (run step s es) := by
  induction hn : μ s using Nat.strong_induction_on generalizing s with
  | _ n ih =>
      by_cases hP : P s
      · exact ⟨[], along_nil, hP⟩
      · obtain ⟨e, he, hlt⟩ := hnext s h0 hP
        obtain ⟨es, hes, hlast⟩ := ih _ (hn ▸ hlt) (hkeep s e he h0) rfl
        exact ⟨e :: es, (along_cons e es).mpr ⟨he, hes⟩, hlast⟩

/-- **Along the steps `D` allows, a property holds in every state exactly when every step
meets `C`**, where `C` is what a single step needs to keep it. The invariant `Q` may rely on
the property. -/
theorem throughout_iff_along {es : List ε} (hD : Along step D s es) (hQ : Q s) (hP : P s)
    (hkeep : ∀ s e, D s e → Q s → P s → (P (step s e) ↔ C s e))
    (hQ' : ∀ s e, D s e → Q s → P s → C s e → Q (step s e)) :
    Throughout step P s es ↔ Along step C s es := by
  have key : (Throughout step P s es ↔ Along step C s es) ∧
      (Along step C s es → Q (run step s es)) := by
    induction es using List.reverseRecOn with
    | nil => exact ⟨by simpa using hP, fun _ => hQ⟩
    | append_singleton es e ih =>
        obtain ⟨hDes, hDe⟩ := (along_concat es e).mp hD
        obtain ⟨hiff, hq⟩ := ih hDes
        rw [throughout_concat, along_concat, run_concat]
        refine ⟨⟨?_, ?_⟩, ?_⟩
        · rintro ⟨hpre, hlast⟩
          have hC := hiff.mp hpre
          exact ⟨hC, (hkeep _ e hDe (hq hC) hpre.last).mp hlast⟩
        · rintro ⟨hC, he⟩
          have hpre := hiff.mpr hC
          exact ⟨hpre, (hkeep _ e hDe (hq hC) hpre.last).mpr he⟩
        · rintro ⟨hC, he⟩
          exact hQ' _ e hDe (hq hC) (hiff.mpr hC).last he
  exact key.1

end

end Proxinator.Lib
