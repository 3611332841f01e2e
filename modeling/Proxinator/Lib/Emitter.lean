import Mathlib.Data.List.Nodup
import Mathlib.Logic.Function.Basic

/-!
# Event emitters

The listeners of one event at several emitters. A callback is put on an emitter by itself, or in a
wrapper that runs it once: when the wrapper is called for the first time, it is taken off its
target, and then the callback runs. An emission calls what was on the emitter when it began, in
order. A wrapper is taken off its target alone, wherever else it was put on.

## Main definitions

* `Emitters.on`, `Emitters.once`, `Emitters.removeListener` — the calls on an emitter.
* `Emitters.emit` — an emission, and which callbacks it runs.
* `Emitters.Called` — what comes of calling a list of entries.
-/

namespace Proxinator.Lib

/-- What is put on an emitter. `call` is the call that put it on. -/
inductive Entry (ι β : Type*)
  | listener (call : ℕ) (callback : β)
  /-- The wrapper that `once` makes. -/
  | wrapper (call : ℕ) (callback : β) (target : ι)
  deriving DecidableEq, Repr

namespace Entry

variable {ι β : Type*}

/-- The call that put it on. -/
def call : Entry ι β → ℕ
  | listener call _ => call
  | wrapper call _ _ => call

/-- What runs when it is called. -/
def callback : Entry ι β → β
  | listener _ callback => callback
  | wrapper _ callback _ => callback

/-- What a wrapper is taken off. -/
def target? : Entry ι β → Option ι
  | listener _ _ => none
  | wrapper _ _ target => some target

end Entry

/-! ## Removal -/

section

variable {α : Type*} {p : α → Bool} {as : List α}

/-- The last element that passes a test is removed. -/
def removeLast (p : α → Bool) (as : List α) : List α := (as.reverse.eraseP p).reverse

/-- An element that is in the list once is removed. -/
theorem removeLast_beq [DecidableEq α] (h : as.Nodup) (a : α) :
    removeLast (· == a) as = as.filter (· ≠ a) := by
  rw [removeLast, ← List.erase_eq_eraseP', (List.nodup_reverse.mpr h).erase_eq_filter,
    List.filter_reverse, List.reverse_reverse]
  apply List.filter_congr
  intro b _
  by_cases hb : b = a <;> simp [hb]

/-- The element that is removed is the first that is found from the end. -/
theorem removeLast_of_find? [DecidableEq α] {a : α} (ha : as.reverse.find? p = some a) :
    removeLast p as = removeLast (· == a) as := by
  rw [removeLast, removeLast]
  congr 1
  generalize as.reverse = as at ha
  induction as with
  | nil => cases ha
  | cons b as ih =>
      rw [List.find?_cons] at ha
      split at ha
      next hb =>
        obtain rfl := Option.some.inj ha
        simp [hb]
      next hb =>
        have hne : b ≠ a := by
          rintro rfl
          rw [List.find?_some ha] at hb
          cases hb
        rw [List.eraseP_cons_of_neg (by simp [hb]), List.eraseP_cons_of_neg (by simp [hne]), ih ha]

theorem removeLast_of_find?_none (h : as.reverse.find? p = none) : removeLast p as = as := by
  rw [removeLast, List.eraseP_of_forall_not, List.reverse_reverse]
  intro a ha
  simpa using List.find?_eq_none.mp h a ha

end

/-! ## Emitters -/

/-- The listeners of an event. -/
structure Emitters (ι β : Type*) where
  listeners : ι → List (Entry ι β)
  /-- The wrappers that have been called. -/
  fired : List (Entry ι β)

namespace Emitters

variable {ι β : Type*} [DecidableEq ι]

/-- No listeners. -/
def new : Emitters ι β := ⟨fun _ => [], []⟩

/-- `on`. -/
def on (e : ι) (entry : Entry ι β) (s : Emitters ι β) : Emitters ι β :=
  { s with listeners := Function.update s.listeners e (s.listeners e ++ [entry]) }

theorem listeners_on (e e' : ι) (entry : Entry ι β) (s : Emitters ι β) :
    (s.on e entry).listeners e' = s.listeners e' ++ if e' = e then [entry] else [] := by
  rw [on]
  by_cases he : e' = e
  · subst he
    simp
  · simp [he]

@[simp] theorem fired_on (e : ι) (entry : Entry ι β) (s : Emitters ι β) :
    (s.on e entry).fired = s.fired := rfl

/-- `once`: a wrapper is put on, and the emitter is its target. -/
def once (e : ι) (call : ℕ) (callback : β) (s : Emitters ι β) : Emitters ι β :=
  s.on e (.wrapper call callback e)

/-- `removeListener`: the last entry that matches is taken off. -/
def removeListener (e : ι) (p : Entry ι β → Bool) (s : Emitters ι β) : Emitters ι β :=
  { s with listeners := Function.update s.listeners e (removeLast p (s.listeners e)) }

@[simp] theorem listeners_removeListener_self (e : ι) (p : Entry ι β → Bool) (s : Emitters ι β) :
    (s.removeListener e p).listeners e = removeLast p (s.listeners e) := Function.update_self ..

theorem listeners_removeListener_of_ne {e e' : ι} (h : e' ≠ e) (p : Entry ι β → Bool)
    (s : Emitters ι β) : (s.removeListener e p).listeners e' = s.listeners e' :=
  Function.update_of_ne h ..

variable [DecidableEq β]

/-- An entry is called; the calls whose callbacks run. -/
def callEntry (s : Emitters ι β) : Entry ι β → Emitters ι β × List ℕ
  | .listener call _ => (s, [call])
  | .wrapper call callback target =>
    if .wrapper call callback target ∈ s.fired then
      (s, [])
    else
      let s := s.removeListener target (· == .wrapper call callback target)
      ({ s with fired := s.fired ++ [.wrapper call callback target] }, [call])

/-- Entries are called in order. -/
def callAll (s : Emitters ι β) : List (Entry ι β) → Emitters ι β × List ℕ
  | [] => (s, [])
  | entry :: entries =>
    let (s, ran) := s.callEntry entry
    let (s, ran') := s.callAll entries
    (s, ran ++ ran')

/-- An emission. -/
def emit (e : ι) (s : Emitters ι β) : Emitters ι β × List ℕ := s.callAll (s.listeners e)

/-! ## What comes of an emission -/

/-- It is a wrapper that was not called yet. -/
def Fresh (s : Emitters ι β) (entry : Entry ι β) : Prop :=
  entry.target? ≠ none ∧ entry ∉ s.fired

/-- Its callback runs when it is called. -/
def Live (s : Emitters ι β) (entry : Entry ι β) : Prop :=
  entry.target? = none ∨ entry ∉ s.fired

instance (s : Emitters ι β) : DecidablePred s.Fresh := fun _ => instDecidableAnd
instance (s : Emitters ι β) : DecidablePred s.Live := fun _ => instDecidableOr

/-- No emitter has an entry twice. -/
def Distinct (s : Emitters ι β) : Prop := ∀ e, (s.listeners e).Nodup

/-- What comes of calling entries in a state. -/
structure Called (s : Emitters ι β) (entries : List (Entry ι β)) (s' : Emitters ι β)
    (ran : List ℕ) : Prop where
  /-- The callbacks of the live entries run. -/
  ran_eq : ran = (entries.filter fun entry => s.Live entry).map Entry.call
  /-- The wrappers among them have fired. -/
  mem_fired : ∀ entry, entry ∈ s'.fired ↔ entry ∈ s.fired ∨ entry ∈ entries ∧ s.Fresh entry
  /-- They have been taken off their targets. -/
  listeners : ∀ e, s'.listeners e = (s.listeners e).filter fun entry =>
    ¬ (entry ∈ entries ∧ s.Fresh entry ∧ entry.target? = some e)

/-- Nothing comes of an entry that is no fresh wrapper, but that it runs if it is live. -/
theorem called_of_not_fresh {s : Emitters ι β} {entry : Entry ι β} (h : ¬ s.Fresh entry)
    {ran : List ℕ} (hran : ran = ([entry].filter fun entry => s.Live entry).map Entry.call) :
    Called s [entry] s ran := by
  have hnone : ∀ other, ¬ (other ∈ [entry] ∧ s.Fresh other) := by
    intro other hother
    rw [List.mem_singleton.mp hother.1] at hother
    exact h hother.2
  constructor
  · exact hran
  · intro other
    exact ⟨Or.inl, fun hother => hother.resolve_right (hnone other)⟩
  · intro e
    symm
    apply List.filter_eq_self.mpr
    intro other _
    exact decide_eq_true fun hfresh => hnone other ⟨hfresh.1, hfresh.2.1⟩

theorem called_callEntry {s : Emitters ι β} (hs : s.Distinct) (entry : Entry ι β) :
    Called s [entry] (s.callEntry entry).1 (s.callEntry entry).2 := by
  cases entry with
  | listener call callback =>
      apply called_of_not_fresh (fun hfresh => hfresh.1 rfl)
      simp [callEntry, Live, Entry.target?, Entry.call]
  | wrapper call callback target =>
      rw [callEntry]
      split_ifs with hfired
      · apply called_of_not_fresh (fun hfresh => hfresh.2 hfired)
        simp [Live, Entry.target?, hfired]
      · have hfresh : s.Fresh (.wrapper call callback target) := ⟨by simp [Entry.target?], hfired⟩
        constructor
        · simp [Live, hfired, Entry.call]
        · intro other
          simp only [removeListener, List.mem_append, List.mem_singleton]
          constructor
          · rintro (hother | rfl)
            · exact Or.inl hother
            · exact Or.inr ⟨rfl, hfresh⟩
          · rintro (hother | ⟨rfl, -⟩)
            · exact Or.inl hother
            · exact Or.inr rfl
        · intro e
          simp only [List.mem_singleton]
          by_cases he : e = target
          · subst he
            rw [listeners_removeListener_self, removeLast_beq (hs e)]
            apply List.filter_congr
            intro other _
            rw [decide_eq_decide]
            refine not_congr ⟨?_, And.left⟩
            rintro rfl
            exact ⟨rfl, hfresh, rfl⟩
          · rw [listeners_removeListener_of_ne he]
            symm
            apply List.filter_eq_self.mpr
            intro other _
            apply decide_eq_true
            rintro ⟨rfl, -, htarget⟩
            exact he (Option.some.inj htarget).symm

/-- Some entries are called, and then others. -/
theorem Called.append {s s' s'' : Emitters ι β} {entries entries' : List (Entry ι β)}
    {ran ran' : List ℕ} (h : Called s entries s' ran) (h' : Called s' entries' s'' ran')
    (hdisjoint : ∀ entry ∈ entries', entry ∉ entries) :
    Called s (entries ++ entries') s'' (ran ++ ran') := by
  have hfired : ∀ entry ∈ entries', (entry ∈ s'.fired ↔ entry ∈ s.fired) := by
    intro entry hentry
    rw [h.mem_fired]
    simp [hdisjoint entry hentry]
  have hfresh : ∀ entry ∈ entries', (s'.Fresh entry ↔ s.Fresh entry) := by
    intro entry hentry
    rw [Fresh, Fresh, hfired entry hentry]
  constructor
  · rw [List.filter_append, List.map_append, ← h.ran_eq, h'.ran_eq]
    congr 2
    apply List.filter_congr
    intro entry hentry
    rw [decide_eq_decide, Live, Live, hfired entry hentry]
  · intro entry
    rw [h'.mem_fired, h.mem_fired, List.mem_append, or_assoc]
    have hsame : entry ∈ entries' ∧ s'.Fresh entry ↔ entry ∈ entries' ∧ s.Fresh entry :=
      and_congr_right (hfresh entry)
    rw [hsame, ← or_and_right]
  · intro e
    rw [h'.listeners, h.listeners, List.filter_filter]
    apply List.filter_congr
    intro entry _
    have hsame : entry ∈ entries' ∧ s'.Fresh entry ∧ entry.target? = some e ↔
        entry ∈ entries' ∧ s.Fresh entry ∧ entry.target? = some e := by
      rw [and_congr_right_iff]
      intro hentry
      rw [hfresh entry hentry]
    rw [← Bool.decide_and, decide_eq_decide, hsame, List.mem_append]
    tauto

theorem Distinct.called {s s' : Emitters ι β} (hs : s.Distinct) {entries : List (Entry ι β)}
    {ran : List ℕ} (h : Called s entries s' ran) : s'.Distinct := by
  intro e
  rw [h.listeners]
  exact (hs e).filter _

theorem called_callAll {entries : List (Entry ι β)} (hentries : entries.Nodup) {s : Emitters ι β}
    (hs : s.Distinct) : Called s entries (s.callAll entries).1 (s.callAll entries).2 := by
  induction entries generalizing s with
  | nil => exact ⟨rfl, by simp [callAll], by simp [callAll]⟩
  | cons entry entries ih =>
      obtain ⟨hnotMem, hentries⟩ := List.nodup_cons.mp hentries
      have hfirst := called_callEntry hs entry
      refine hfirst.append (ih hentries (hs.called hfirst)) ?_
      intro other hother hmem
      rw [List.mem_singleton.mp hmem] at hother
      exact hnotMem hother

/-- **What comes of an emission.** -/
theorem called_emit {s : Emitters ι β} (hs : s.Distinct) (e : ι) :
    Called s (s.listeners e) (s.emit e).1 (s.emit e).2 :=
  called_callAll (hs e) hs

end Emitters

end Proxinator.Lib
