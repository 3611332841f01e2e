import Proxinator.Tunnel
import Proxinator.Lib.Run

/-!
# Half-closing a tunnel with transforms

When a source ends, the tunnel ends the receiver at once, whatever the transform between
them still holds. So a half-close keeps all data exactly when the transform has nothing
left to emit at that moment (`halfClose_intact_iff`). A chunk that the transform holds back
is lost (`halfClose_truncates`): once the receiver has finished, `pipe` has unpiped it and the
chunk stays in the transform; before that, the chunk is written after `end()`, which destroys
both sockets.

`Flow.Sound` is the invariant: what the receiver was given and what the transform will
still emit make up the output for all that the source sent.
-/

namespace Proxinator

open Lib

namespace Tunnel

variable {opts : Options}

/-- What Node promises about the events of a run without socket error or timeout: a source
emits nothing after its `end`, while it is paused, or once it is destroyed, and a socket closes
only after its `end` or when it is destroyed. -/
def Admits (t : Tunnel) : Event → Prop
  | .data side _ _ => (t.flow side).sourceEnded = false ∧ (t.flow side).sourcePaused = false ∧
    t.destroyed side = false
  | .close side => (t.flow side).sourceEnded = true ∨ t.destroyed side = true
  | .error _ _ | .timeout _ | .transformError _ => False
  | _ => True

/-- No socket is destroyed, and a receiver on which `end()` was called has been given the
output for all that its source sent. -/
def Intact (opts : Options) (t : Tunnel) : Prop :=
  ∀ side, t.destroyed side = false ∧
    ((t.flow side).ended = true → (t.flow side).given = opts.outputs side (t.flow side).sent)

/-- The transform holds nothing back when its source ends. -/
def EndsDrained (opts : Options) (t : Tunnel) (e : Event) : Prop :=
  ∀ side, e = .end side → (t.flow side).remains opts side = []

/-! ## The accounting of one direction -/

/-- What a receiver was given accounts for what the source sent. -/
def Flow.Accounted (opts : Options) (side : Side) (f : Flow) : Prop :=
  match opts.transform side with
  | some T => Buffered.Consistent T f.sent f.given f.buffered
  | none => f.given = f.sent

/-- A direction whose data is accounted for, and whose receiver is ended together with its
source. -/
structure Flow.Sound (opts : Options) (side : Side) (f : Flow) : Prop where
  accounted : f.Accounted opts side
  ending_spec : f.buffered.ending = true → f.sourceEnded = true
  ended_eq : f.ended = f.sourceEnded

namespace Flow

variable {side : Side} {f : Flow}

theorem sound_new (opts : Options) (side : Side) : Flow.new.Sound opts side := by
  refine ⟨?_, nofun, rfl⟩
  rw [Accounted]
  split
  · exact Buffered.Consistent.new
  · rfl

/-- **What was given and what the transform will still emit are the output for all that
was sent.** -/
theorem Accounted.append_remains (h : f.Accounted opts side) :
    f.given ++ f.remains opts side = opts.outputs side f.sent := by
  rw [Accounted] at h
  rw [remains, Options.outputs]
  cases hT : opts.transform side with
  | some T =>
      simp only [hT] at h ⊢
      exact h.append_remains
  | none =>
      simp only [hT] at h ⊢
      rw [h, List.append_nil]

/-- All has been given exactly when nothing remains. -/
theorem Accounted.given_eq_iff (h : f.Accounted opts side) :
    f.given = opts.outputs side f.sent ↔ f.remains opts side = [] := by
  rw [← h.append_remains]
  exact List.self_eq_append_right

end Flow

/-! ## Unpiping -/

@[simp] theorem Flow.sent_unpipe (side : Side) (f : Flow) :
    (f.unpipe opts side).sent = f.sent := by
  rw [unpipe]
  split <;> rfl

@[simp] theorem Flow.given_unpipe (side : Side) (f : Flow) :
    (f.unpipe opts side).given = f.given := by
  rw [unpipe]
  split <;> rfl

@[simp] theorem Flow.buffered_unpipe (side : Side) (f : Flow) :
    (f.unpipe opts side).buffered = f.buffered := by
  rw [unpipe]
  split <;> rfl

@[simp] theorem Flow.sourceEnded_unpipe (side : Side) (f : Flow) :
    (f.unpipe opts side).sourceEnded = f.sourceEnded := by
  rw [unpipe]
  split <;> rfl

@[simp] theorem Flow.ended_unpipe (side : Side) (f : Flow) :
    (f.unpipe opts side).ended = f.ended := by
  rw [unpipe]
  split <;> rfl

@[simp] theorem Flow.remains_unpipe (side : Side) (f : Flow) :
    (f.unpipe opts side).remains opts side = f.remains opts side := by
  simp only [remains, buffered_unpipe]

theorem Flow.Accounted.unpipe {side : Side} {f : Flow} (h : f.Accounted opts side) :
    (f.unpipe opts side).Accounted opts side := by
  simpa only [Accounted, sent_unpipe, given_unpipe, buffered_unpipe] using h

theorem Flow.Sound.unpipe {side : Side} {f : Flow} (h : f.Sound opts side) :
    (f.unpipe opts side).Sound opts side where
  accounted := h.accounted.unpipe
  ending_spec := by simpa using h.ending_spec
  ended_eq := by simpa using h.ended_eq

/-- A direction whose transform has nothing left once its receiver is ended. -/
def Flow.Drained (opts : Options) (side : Side) (f : Flow) : Prop :=
  f.ended = true → f.remains opts side = []

/-- The transform of a direction would emit output after the end of the receiver. -/
def Flow.Late (f : Flow) : Prop :=
  f.ended = true ∧ f.transformPaused = false ∧ f.buffered.read ≠ none

/-! ## One step -/

@[simp] theorem setFlow_flow (t : Tunnel) (side : Side) (f : Flow) :
    (t.setFlow side f).flow = Function.update t.flow side f := rfl

@[simp] theorem setFlow_destroyed (t : Tunnel) (side : Side) (f : Flow) :
    (t.setFlow side f).destroyed = t.destroyed := rfl

@[simp] theorem endSocket_flow (t : Tunnel) (side : Side) :
    (t.endSocket side.other).flow =
      Function.update t.flow side { t.flow side with ended := true } := by
  rw [endSocket, Side.other_other]
  rfl

@[simp] theorem endSocket_destroyed (t : Tunnel) (side : Side) :
    (t.endSocket side).destroyed = t.destroyed := rfl

@[simp] theorem unpipe_flow (t : Tunnel) (side : Side) :
    (t.unpipe opts side).flow = Function.update t.flow side ((t.flow side).unpipe opts side) := rfl

@[simp] theorem unpipe_destroyed (t : Tunnel) (side : Side) :
    (t.unpipe opts side).destroyed = t.destroyed := rfl

/-- A write to a socket that is neither destroyed nor ended. -/
theorem write_eq (t : Tunnel) {side : Side} (chunk : Bytes)
    (hdestroyed : t.destroyed side.other = false) (hended : (t.flow side).ended = false) :
    t.write opts side chunk =
      t.setFlow side { t.flow side with given := (t.flow side).given ++ [chunk] } := by
  simp [write, hdestroyed, hended]

/-- What an event does to a tunnel `t`: it changes one direction, which stays sound,
and destroys no socket. -/
structure Moves (opts : Options) (t t' : Tunnel) (side : Side) (f : Flow) : Prop where
  flow_eq : t'.flow = Function.update t.flow side f
  destroyed_eq : t'.destroyed = t.destroyed
  sound : f.Sound opts side

variable {t : Tunnel}

/-- A tunnel that does not change moves along any of its directions. -/
theorem Moves.refl (side : Side) (hs : (t.flow side).Sound opts side) :
    Moves opts t t side (t.flow side) :=
  ⟨(Function.update_eq_self side t.flow).symm, rfl, hs⟩

theorem onData_moves {side : Side} (chunk : Bytes) (full : Bool)
    (hs : (t.flow side).Sound opts side) (hd : t.destroyed side.other = false)
    (hopen : (t.flow side).sourceEnded = false) :
    ∃ f, Moves opts t (t.onData opts side chunk full) side f ∧ f.ended = false := by
  have hended : (t.flow side).ended = false := hs.ended_eq.trans hopen
  have hending : (t.flow side).buffered.ending = false := by
    by_contra h
    exact absurd (hs.ending_spec (by simpa using h)) (by simp [hopen])
  have haccounted := hs.accounted
  rw [Flow.Accounted] at haccounted
  cases hT : opts.transform side with
  | some T =>
      simp only [hT] at haccounted
      refine ⟨{ t.flow side with
        sent := (t.flow side).sent ++ [chunk]
        sourcePaused := full
        buffered := (t.flow side).buffered.write chunk }, ⟨?_, ?_, ?_, ?_, ?_⟩, hended⟩
      · simp [onData, hT]
      · simp [onData, hT]
      · simp only [Flow.Accounted, hT]
        exact haccounted.write hending chunk
      · exact hs.ending_spec
      · exact hs.ended_eq
  | none =>
      simp only [hT] at haccounted
      refine ⟨{ t.flow side with
        sent := (t.flow side).sent ++ [chunk]
        sourcePaused := full
        given := (t.flow side).given ++ [chunk] }, ⟨?_, ?_, ?_, ?_, ?_⟩, hended⟩
      · simp [onData, hT, write_eq, hd, hended]
      · simp [onData, hT, write_eq, hd, hended]
      · simp only [Flow.Accounted, hT]
        exact congrArg (· ++ [chunk]) haccounted
      · exact hs.ending_spec
      · exact hs.ended_eq

theorem onEnd_moves (side : Side) (hs : (t.flow side).Sound opts side) :
    ∃ f, Moves opts t (t.onEnd opts side) side f ∧ f.ended = true ∧
      f.remains opts side = (t.flow side).remains opts side := by
  have haccounted := hs.accounted
  rw [Flow.Accounted] at haccounted
  cases hT : opts.transform side with
  | some T =>
      simp only [hT] at haccounted
      refine ⟨{ t.flow side with
        sourceEnded := true
        ended := true
        buffered := (t.flow side).buffered.finish }, ⟨?_, ?_, ?_, ?_, ?_⟩, rfl, ?_⟩
      · simp [onEnd, hT]
      · simp [onEnd, hT]
      · simp only [Flow.Accounted, hT]
        exact haccounted.finish
      · exact fun _ => rfl
      · exact rfl
      · simp only [Flow.remains, hT]
        exact rfl
  | none =>
      simp only [hT] at haccounted
      refine ⟨{ t.flow side with sourceEnded := true, ended := true }, ⟨?_, ?_, ?_, ?_, ?_⟩,
        rfl, ?_⟩
      · simp [onEnd, hT]
      · simp [onEnd, hT]
      · simp only [Flow.Accounted, hT]
        exact haccounted
      · exact fun _ => rfl
      · exact rfl
      · simp only [Flow.remains, hT]

/-- The transform of a direction works on what it holds. -/
theorem buffered_moves {side : Side} {T : Transform Bytes} {buffered : Buffered Bytes}
    (hT : opts.transform side = some T) (hs : (t.flow side).Sound opts side)
    (hb : ∀ sent taken, Buffered.Consistent T sent taken (t.flow side).buffered →
      Buffered.Consistent T sent taken buffered)
    (hending : buffered.ending = (t.flow side).buffered.ending) :
    ∃ f, Moves opts t (t.setFlow side { t.flow side with buffered := buffered }) side f ∧
      ((t.flow side).Drained opts side → f.Drained opts side) := by
  have haccounted := hs.accounted
  simp only [Flow.Accounted, hT] at haccounted
  have hb' := hb _ _ haccounted
  refine ⟨_, ⟨rfl, rfl, ?_, ?_, hs.ended_eq⟩, ?_⟩
  · simpa only [Flow.Accounted, hT] using hb'
  · simpa only [hending] using hs.ending_spec
  · intro hdrained h
    have hnil := hdrained h
    simp only [Flow.remains, hT] at hnil ⊢
    exact (haccounted.remains_eq hb').trans hnil

/-- The transform of a direction emits its next piece of output, unless that is late. -/
theorem onEmit_moves {side : Side} {T : Transform Bytes} (full : Bool)
    (hT : opts.transform side = some T) (hs : (t.flow side).Sound opts side)
    (hd : t.destroyed side.other = false) (hlate : ¬ (t.flow side).Late) :
    ∃ f, Moves opts t (t.onEmit opts side full) side f ∧
      ((t.flow side).Drained opts side → f.Drained opts side) := by
  have haccounted := hs.accounted
  simp only [Flow.Accounted, hT] at haccounted
  rw [onEmit]
  by_cases hpaused : (t.flow side).transformPaused = true
  · rw [if_pos hpaused]
    exact ⟨_, Moves.refl side hs, id⟩
  rw [if_neg hpaused]
  cases hread : (t.flow side).buffered.read with
  | none => exact ⟨_, Moves.refl side hs, id⟩
  | some output =>
      obtain ⟨chunk, buffered⟩ := output
      have hended : (t.flow side).ended = false := by
        by_contra h
        exact hlate ⟨by simpa using h, by simpa using hpaused, by simp [hread]⟩
      have hending : buffered.ending = (t.flow side).buffered.ending :=
        Buffered.ending_of_read hread
      refine ⟨{ t.flow side with
        buffered := buffered
        transformPaused := full
        given := (t.flow side).given ++ [chunk] }, ⟨?_, ?_, ?_, ?_, hs.ended_eq⟩,
        fun _ h => absurd h (by simp [hended])⟩
      · simp [write_eq, hd, hended]
      · simp [write_eq, hd, hended]
      · simp only [Flow.Accounted, hT]
        exact haccounted.read hread
      · simpa only [hending] using hs.ending_spec

/-- What goes to a receiver is unpiped from it. -/
theorem unpipe_moves {side : Side} (hs : (t.flow side).Sound opts side) :
    ∃ f, Moves opts t (t.unpipe opts side) side f ∧
      ((t.flow side).Drained opts side → f.Drained opts side) := by
  refine ⟨_, ⟨rfl, rfl, hs.unpipe⟩, fun hdrained hended => ?_⟩
  rw [Flow.remains_unpipe]
  exact hdrained (by simpa using hended)

/-- The receiver of a direction that has nothing left is ended (again). -/
theorem endSocket_moves {side : Side} (hs : (t.flow side).Sound opts side)
    (hended : (t.flow side).sourceEnded = true) :
    Moves opts t (t.endSocket side.other) side { t.flow side with ended := true } :=
  ⟨endSocket_flow t side, rfl, hs.accounted, hs.ending_spec, hended.symm⟩

/-- An event that makes a transform emit late. -/
def EmitsLate (opts : Options) (t : Tunnel) (e : Event) : Prop :=
  ∃ side full, e = .emit side full ∧ (opts.transform side).isSome = true ∧ (t.flow side).Late

/-- **An event other than the end of a source moves the tunnel along one direction**, unless it
makes a transform emit late. -/
theorem step_moves {e : Event} (hadm : t.Admits e) (hs : ∀ side, (t.flow side).Sound opts side)
    (hd : ∀ side, t.destroyed side = false) (hlate : ¬ t.EmitsLate opts e)
    (he : ∀ side, e ≠ .end side) :
    ∃ side f, Moves opts t (t.step opts e) side f ∧
      ((t.flow side).Drained opts side → f.Drained opts side) := by
  have hstay : ∀ side, ∃ side f, Moves opts t t side f ∧
      ((t.flow side).Drained opts side → f.Drained opts side) :=
    fun side => ⟨side, _, Moves.refl side (hs side), id⟩
  cases e with
  | data side chunk full =>
      obtain ⟨f, hmoves, hopen⟩ := onData_moves chunk full (hs side) (hd side.other) hadm.1
      exact ⟨side, f, hmoves, fun _ h => absurd h (by simp [hopen])⟩
  | process side =>
      rw [step]
      cases hT : opts.transform side with
      | none => exact hstay side
      | some T => exact ⟨side, buffered_moves hT (hs side) (fun _ _ h => h.process) (by simp)⟩
  | flush side =>
      rw [step]
      cases hT : opts.transform side with
      | none => exact hstay side
      | some T => exact ⟨side, buffered_moves hT (hs side) (fun _ _ h => h.flush) (by simp)⟩
  | emit side full =>
      rw [step]
      cases hT : opts.transform side with
      | none => exact hstay side
      | some T =>
          have hlate' : ¬ (t.flow side).Late := fun h =>
            hlate ⟨side, full, rfl, by rw [hT]; rfl, h⟩
          exact ⟨side, onEmit_moves full hT (hs side) (hd side.other) hlate'⟩
  | transformDrain side =>
      rw [step]
      cases hT : opts.transform side with
      | none => exact hstay side
      | some T =>
          exact ⟨side, _, ⟨rfl, rfl, (hs side).accounted, (hs side).ending_spec,
            (hs side).ended_eq⟩, id⟩
  | transformEnd side =>
      rw [step]
      cases hT : opts.transform side with
      | none => exact hstay side
      | some T =>
          have haccounted := (hs side).accounted
          simp only [Flow.Accounted, hT] at haccounted
          by_cases hdone : (t.flow side).buffered.flushed = true ∧
              (t.flow side).buffered.readable = [] ∧ ¬ (t.flow side).transformPaused = true
          · have hending := (haccounted.flushed_spec hdone.1).1
            refine ⟨side, { t.flow side with ended := true }, ?_, ?_⟩
            · simpa only [if_pos hdone] using
                endSocket_moves (hs side) ((hs side).ending_spec hending)
            · intro _ _
              simp only [Flow.remains, hT]
              exact haccounted.remains_eq_nil hdone.1 hdone.2.1
          · simpa only [if_neg hdone] using hstay side
  | transformError side => exact hadm.elim
  | drain side =>
      rw [step]
      split_ifs
      · exact hstay side
      · cases hT : opts.transform side with
        | none =>
            exact ⟨side, _, ⟨rfl, rfl, (hs side).accounted, (hs side).ending_spec,
              (hs side).ended_eq⟩, id⟩
        | some T =>
            exact ⟨side, _, ⟨rfl, rfl, (hs side).accounted, (hs side).ending_spec,
              (hs side).ended_eq⟩, id⟩
  | finish side =>
      rw [step]
      split_ifs
      · exact ⟨side, unpipe_moves (hs side)⟩
      · exact hstay side
  | «end» side => exact absurd (rfl) (he side)
  | close side =>
      -- the receiver of its data is ended already
      have hended : (t.flow side).ended = true :=
        (hs side).ended_eq.trans (hadm.resolve_right (by simp [hd side]))
      have hsame : (t.endSocket side.other).flow = t.flow := by
        rw [endSocket_flow, ← hended]
        exact Function.update_eq_self side t.flow
      rw [step]
      refine ⟨side.other, (t.flow side.other).unpipe opts side.other, ⟨?_, rfl, ?_⟩, ?_⟩
      · rw [unpipe_flow, hsame]
      · exact (hs side.other).unpipe
      · intro hdrained hended'
        rw [Flow.remains_unpipe]
        exact hdrained (by simpa using hended')
  | error side code => exact hadm.elim
  | timeout side => exact hadm.elim

/-- No transform of an intact tunnel has anything to emit late. -/
theorem Intact.not_emitsLate (hI : t.Intact opts) (hs : ∀ side, (t.flow side).Sound opts side)
    (e : Event) : ¬ t.EmitsLate opts e := by
  rintro ⟨side, full, -, htransform, hended, -, hread⟩
  have hnil := (hs side).accounted.given_eq_iff.mp ((hI side).2 hended)
  obtain ⟨T, hT⟩ := Option.isSome_iff_exists.mp htransform
  simp only [Flow.remains, hT] at hnil
  exact hread (Buffered.Consistent.read_eq_none hnil)

/-! ## Runs -/

/-- Whether a tunnel stays intact shows in the direction along which it moves. -/
theorem Moves.intact_iff {t' : Tunnel} {side : Side} {f : Flow} (h : Moves opts t t' side f)
    (hI : t.Intact opts) :
    t'.Intact opts ↔ f.Drained opts side := by
  constructor
  · intro hI' hended
    have := (hI' side).2
    rw [h.flow_eq, Function.update_self] at this
    exact h.sound.accounted.given_eq_iff.mp (this hended)
  · intro hf side'
    rw [h.flow_eq, h.destroyed_eq]
    refine ⟨(hI side').1, ?_⟩
    intro hended
    by_cases hside : side' = side
    · subst hside
      rw [Function.update_self] at hended ⊢
      exact h.sound.accounted.given_eq_iff.mpr (hf hended)
    · rw [Function.update_of_ne hside] at hended ⊢
      exact (hI side').2 hended

theorem Moves.sound_all {t' : Tunnel} {side : Side} {f : Flow} (h : Moves opts t t' side f)
    (hs : ∀ side, (t.flow side).Sound opts side) :
    ∀ side, (t'.flow side).Sound opts side := by
  intro side'
  rw [h.flow_eq]
  by_cases hside : side' = side
  · subst hside
    rw [Function.update_self]
    exact h.sound
  · rw [Function.update_of_ne hside]
    exact hs side'

/-- Every step keeps all directions sound, -/
theorem sound_step {e : Event} (hadm : t.Admits e) (hs : ∀ side, (t.flow side).Sound opts side)
    (hI : t.Intact opts) : ∀ side, ((t.step opts e).flow side).Sound opts side := by
  by_cases he : ∃ side, e = .end side
  · obtain ⟨side, rfl⟩ := he
    obtain ⟨f, hmoves, -⟩ := onEnd_moves side (hs side)
    exact hmoves.sound_all hs
  · obtain ⟨side, f, hmoves, -⟩ :=
      step_moves hadm hs (fun side => (hI side).1) (hI.not_emitsLate hs e) (by simpa using he)
    exact hmoves.sound_all hs

/-- and keeps an intact tunnel intact exactly if it ends no source whose transform still
holds something. -/
theorem intact_step_iff {e : Event} (hadm : t.Admits e)
    (hs : ∀ side, (t.flow side).Sound opts side) (hI : t.Intact opts) :
    (t.step opts e).Intact opts ↔ t.EndsDrained opts e := by
  by_cases he : ∃ side, e = .end side
  · obtain ⟨side, rfl⟩ := he
    obtain ⟨f, hmoves, hended, hremains⟩ := onEnd_moves side (hs side)
    rw [step, hmoves.intact_iff hI, Flow.Drained, hremains]
    constructor
    · intro h side' heq
      cases heq
      exact h hended
    · intro h _
      exact h side rfl
  · obtain ⟨side, f, hmoves, hf⟩ :=
      step_moves hadm hs (fun side => (hI side).1) (hI.not_emitsLate hs e) (by simpa using he)
    have hdrained : (t.flow side).Drained opts side := fun h =>
      (hs side).accounted.given_eq_iff.mp ((hI side).2 h)
    rw [hmoves.intact_iff hI]
    exact ⟨fun _ side' heq => absurd ⟨side', heq⟩ he, fun _ => hf hdrained⟩

theorem intact_new (opts : Options) : new.Intact opts :=
  fun _ => ⟨rfl, fun h => by cases h⟩

/-- **A tunnel with transforms keeps all data over a run without socket error or timeout
exactly if every source ends when its transform holds nothing back.** -/
theorem halfClose_intact_iff (opts : Options) (events : List Event)
    (h : Along (step opts) Admits new events) :
    Throughout (step opts) (Intact opts) new events ↔
      Along (step opts) (EndsDrained opts) new events :=
  throughout_iff_along (Q := fun t => ∀ side, (t.flow side).Sound opts side) h
    (fun side => Flow.sound_new opts side) (intact_new opts)
    (fun _ _ hadm hs hI => intact_step_iff hadm hs hI)
    (fun _ _ hadm hs hI _ => sound_step hadm hs hI)

/-! ## Two runs -/

/-- The up transform passes data on as it is. -/
private def echo : Options := ⟨some Transform.identity, none, 0, true, true⟩

theorem halfClose_intact_drained :
    Throughout (step echo) (Intact echo) new
      [.data .target [65] false, .process .target, .emit .target true, .drain .target,
        .end .target, .flush .target, .transformEnd .target, .finish .target] := by
  refine (halfClose_intact_iff echo _ ?_).mpr ?_
  · simp only [along_cons, along_nil, and_true]
    exact ⟨⟨rfl, rfl, rfl⟩, trivial, trivial, trivial, trivial, trivial, trivial, trivial⟩
  · simp only [along_cons, along_nil, and_true]
    have hother : ∀ {t : Tunnel} {e : Event}, (∀ side, e ≠ .end side) → t.EndsDrained echo e :=
      fun he side heq => absurd heq (he side)
    refine ⟨hother (by simp), hother (by simp), hother (by simp), hother (by simp), ?_,
      hother (by simp), hother (by simp), hother (by simp)⟩
    intro side hside
    cases hside
    rfl

/-- **A chunk that the transform has not emitted when its source ends is lost.** If the receiver
has finished by then, the chunk stays in the transform; else both sockets are destroyed. -/
theorem halfClose_truncates :
    let late : List Event :=
      [.data .target [65] false, .end .target, .finish .target, .process .target,
        .emit .target false]
    let early : List Event :=
      [.data .target [65] false, .end .target, .process .target, .emit .target false,
        .finish .target]
    (Along (step echo) Admits new late ∧ ¬ Throughout (step echo) (Intact echo) new late ∧
        ((run (step echo) new late).flow .target).given = [] ∧
        ((run (step echo) new late).flow .target).remains echo .target = [[65]] ∧
        ∀ side, (run (step echo) new late).destroyed side = false) ∧
      Along (step echo) Admits new early ∧ ¬ Throughout (step echo) (Intact echo) new early ∧
        ((run (step echo) new early).flow .target).given = [] ∧
        ∀ side, (run (step echo) new early).destroyed side = true := by
  intro late early
  refine ⟨⟨?_, fun h => ?_, rfl, rfl, fun side => rfl⟩, ?_, fun h => ?_, rfl, fun side => rfl⟩
  · simp only [late, along_cons, along_nil, and_true]
    exact ⟨⟨rfl, rfl, rfl⟩, trivial, trivial, trivial, trivial⟩
  · exact absurd ((h.last .target).2 rfl) (by decide)
  · simp only [early, along_cons, along_nil, and_true]
    exact ⟨⟨rfl, rfl, rfl⟩, trivial, trivial, trivial, trivial⟩
  · exact absurd (h.last .client).1 (by decide)

end Tunnel

end Proxinator
