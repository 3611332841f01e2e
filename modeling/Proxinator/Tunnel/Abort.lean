import Proxinator.Tunnel.HalfClose

/-!
# How errors abort a tunnel

Both sockets have the handler `onError`, which destroys them, so an error of a socket always
aborts the tunnel. That covers the errors raised by writing to a socket after `end()`, be it
by the other socket or by a transform. The transforms have no handler: `pipe` unpipes the
one that fails and throws its error again, and the sockets stay as they are.

## Main results

* `step_aborted` — an error of a socket, whatever the tunnel was doing.
* `abortsOnErrors_iff` — runs.
-/

namespace Proxinator

open Lib

namespace Tunnel

variable {opts : Options} {t : Tunnel}

/-- The event makes one of the four streams emit `error`: -/
inductive Raises (opts : Options) (t : Tunnel) : Event → Prop
  /-- a socket by itself, -/
  | socket (side : Side) (code : Option String) : Raises opts t (.error side code)
  /-- a transform, -/
  | transform {side : Side} (htransform : (opts.transform side).isSome = true) :
      Raises opts t (.transformError side)
  /-- or a socket that is written to after `end()`, by the other socket -/
  | data {side : Side} (chunk : Bytes) (full : Bool) (hnone : opts.transform side = none)
      (hopen : t.destroyed side.other = false) (hended : (t.flow side).ended = true) :
      Raises opts t (.data side chunk full)
  /-- or by a transform. -/
  | emit {side : Side} (full : Bool) (htransform : (opts.transform side).isSome = true)
      (hopen : t.destroyed side.other = false) (hlate : (t.flow side).Late) :
      Raises opts t (.emit side full)

/-- The tunnel is aborted: both sockets are destroyed, and no exception has escaped. -/
structure Aborted (t : Tunnel) : Prop where
  destroyed_all : ∀ side, t.destroyed side = true
  caught : t.uncaught = false

/-- **Every error that is raised in the run aborts the tunnel.** -/
def AbortsOnErrors (opts : Options) (events : List Event) : Prop :=
  Along (step opts) (fun t e => Raises opts t e → Aborted (t.step opts e)) new events

/-- An error that nothing handles. -/
def Event.FailsTransform (opts : Options) (e : Event) : Prop :=
  ∃ side, e = .transformError side ∧ (opts.transform side).isSome = true

/-! ## One event -/

@[simp] theorem onError_destroyed (side side' : Side) (code : Option String) :
    (t.onError opts side code).destroyed side' = true := rfl

@[simp] theorem onError_uncaught (side : Side) (code : Option String) :
    (t.onError opts side code).uncaught = t.uncaught := by
  rw [onError]
  split_ifs <;> rfl

@[simp] theorem write_uncaught (side : Side) (chunk : Bytes) :
    (t.write opts side chunk).uncaught = t.uncaught := by
  rw [write]
  split_ifs
  · rfl
  · exact onError_uncaught _ _
  · rfl

/-- A write after `end()` is handled like any error of the socket. -/
theorem write_late {side : Side} {f : Flow} (chunk : Bytes)
    (hopen : t.destroyed side.other = false) (hended : f.ended = true) :
    (t.setFlow side f).write opts side chunk =
      (t.setFlow side f).onError opts side.other (some "ERR_STREAM_WRITE_AFTER_END") := by
  simp [write, hopen, hended]

/-- Nothing but the failure of a transform escapes. -/
theorem step_uncaught {e : Event} (he : ¬ e.FailsTransform opts) :
    (t.step opts e).uncaught = t.uncaught := by
  cases e with
  | data side chunk full =>
      rw [step, onData]
      split
      · rfl
      · exact write_uncaught _ _
  | emit side full =>
      rw [step]
      split
      · rw [onEmit]
        split_ifs
        · rfl
        · split
          · exact write_uncaught _ _
          · rfl
      · rfl
  | transformError side =>
      cases hT : opts.transform side with
      | some T => exact absurd ⟨side, rfl, by simp [hT]⟩ he
      | none => simp [step, hT]
  | error side code => exact onError_uncaught side code
  | timeout side =>
      rw [step, onIdle]
      split_ifs <;> rfl
  | «end» side =>
      rw [step, onEnd]
      split <;> rfl
  | transformEnd side =>
      rw [step]
      split
      · split_ifs <;> rfl
      · rfl
  | process side | flush side | transformDrain side =>
      rw [step]
      split <;> rfl
  | drain side =>
      rw [step]
      split_ifs
      · rfl
      · split <;> rfl
  | finish side =>
      rw [step]
      split_ifs <;> rfl
  | close side => rfl

/-- **An error of a socket destroys both**, whichever stream caused it and whatever the
transforms hold. -/
theorem step_destroyed_of_raises {e : Event} (hraises : Raises opts t e)
    (he : ¬ e.FailsTransform opts) (side : Side) : (t.step opts e).destroyed side = true := by
  cases hraises with
  | socket side' code => rfl
  | transform htransform => exact absurd ⟨_, rfl, htransform⟩ he
  | data chunk full hnone hopen hended =>
      simp only [step, onData, hnone]
      rw [write_late chunk hopen]
      · exact onError_destroyed _ _ _
      · exact hended
  | emit full htransform hopen hlate =>
      obtain ⟨T, hT⟩ := Option.isSome_iff_exists.mp htransform
      obtain ⟨hended, hpaused, hread⟩ := hlate
      obtain ⟨⟨chunk, buffered⟩, hsome⟩ := Option.ne_none_iff_exists'.mp hread
      simp only [step, hT, onEmit, hpaused, hsome, Bool.false_eq_true, if_false]
      rw [write_late chunk hopen]
      · exact onError_destroyed _ _ _
      · exact hended

theorem step_aborted {e : Event} (hraises : Raises opts t e) (he : ¬ e.FailsTransform opts)
    (hcaught : t.uncaught = false) : Aborted (t.step opts e) :=
  ⟨step_destroyed_of_raises hraises he, (step_uncaught he).trans hcaught⟩

/-- The failure of a transform is thrown. -/
theorem not_aborted_of_failsTransform {e : Event} (he : e.FailsTransform opts) :
    Raises opts t e ∧ ¬ Aborted (t.step opts e) := by
  obtain ⟨side, rfl, htransform⟩ := he
  refine ⟨.transform htransform, fun h => ?_⟩
  obtain ⟨T, hT⟩ := Option.isSome_iff_exists.mp htransform
  have hcaught := h.caught
  simp [step, hT] at hcaught

/-! ## Runs -/

/-- **Every error of a run aborts the tunnel exactly if no transform fails.** -/
theorem abortsOnErrors_iff (opts : Options) (events : List Event) :
    AbortsOnErrors opts events ↔
      ∀ side, (opts.transform side).isSome = true → .transformError side ∉ events := by
  constructor
  · intro h side htransform hmem
    obtain ⟨pre, post, rfl⟩ := List.mem_iff_append.mp hmem
    obtain ⟨hraises, hnot⟩ :=
      not_aborted_of_failsTransform (t := run (step opts) new pre) ⟨side, rfl, htransform⟩
    exact hnot (h pre (.transformError side) ⟨post, by simp⟩ hraises)
  · intro h
    have hkeeps : ∀ e ∈ events, ¬ e.FailsTransform opts := by
      rintro e he ⟨side, rfl, htransform⟩
      exact h side htransform he
    intro pre e hpre hraises
    refine step_aborted hraises (hkeeps e (hpre.subset (by simp))) ?_
    refine run_component uncaught fun e' he' t => step_uncaught (hkeeps e' ?_)
    exact hpre.subset (List.mem_append_left [e] he')

/-- **A transform that fails on its first chunk.** The tunnel destroys no socket. -/
theorem not_abortsOnErrors_up :
    let opts : Options := ⟨some Transform.identity, none, 0, true, true⟩
    let events := [Event.data .target [0] false, .transformError .target]
    let t := run (step opts) new events
    ¬ AbortsOnErrors opts events ∧ t.uncaught = true ∧ ∀ side, t.destroyed side = false := by
  intro opts events t
  refine ⟨fun h => ?_, rfl, fun side => rfl⟩
  have haborted := h [.data .target [0] false] (.transformError .target) List.prefix_rfl
    (.transform rfl)
  cases haborted.caught

end Tunnel

end Proxinator
