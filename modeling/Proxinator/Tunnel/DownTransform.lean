import Proxinator.Tunnel.Teardown
import Proxinator.Forward
import Proxinator.Reverse

/-!
# What reaches the target through the down transform

`bind` of the forward and of the reverse server writes the buffered head to the target
itself and leaves what comes later to the tunnel, whose transform sees only that. So the
target is given the transform of the whole client stream exactly if there is no head, and
if the tunnel loses nothing: the client does not end or close while its transform holds
something, and the transform emits nothing to a target that has been destroyed. In a run without
socket error or timeout only a write after `end()` destroys the sockets (`alive_of_timely`).

## Main results

* `transformed_step_iff` — one step of the tunnel.
* `down_transform_iff` — runs of the tunnel behind `bind` of either server.
-/

namespace Proxinator

open Lib

namespace Tunnel

variable {opts : Options}

/-- The head as the first chunk of the client's stream, if there is one. -/
def headChunks (head : Bytes) : List Bytes := if 0 < head.length then [head] else []

/-- **The target is given the transform `T` of the client's stream**, the head included, and
nothing past it: `direct` is what `bind` wrote to the target. -/
structure Transformed (opts : Options) (T : Transform Bytes) (head : Bytes) (direct : List Bytes)
    (t : Tunnel) : Prop where
  /-- No byte of the client has gone around the transform. -/
  through : direct = []
  /-- What the target was given is the output for what the client sent, up to what the
  transform still holds, -/
  received : direct ++ (t.flow .client).given ++ (t.flow .client).remains opts .client =
    T.outputs (headChunks head ++ (t.flow .client).sent)
  /-- and all of it once its stream is ended. -/
  complete : (t.flow .client).ended = true →
    direct ++ (t.flow .client).given = T.outputs (headChunks head ++ (t.flow .client).sent)

/-- The client ends or closes only when its transform holds nothing, and the transform emits
nothing to a target that has been destroyed. -/
structure Keeps (opts : Options) (t : Tunnel) (e : Event) : Prop where
  drained : e = .end .client ∨ e = .close .client → (t.flow .client).remains opts .client = []
  alive : ∀ full, e = .emit .client full → t.destroyed .target = true →
    (t.flow .client).transformPaused = true ∨ (t.flow .client).buffered.read = none

/-- The invariant of the client's direction: what the target was given is accounted for. -/
structure Fed (opts : Options) (t : Tunnel) : Prop where
  accounted : (t.flow .client).Accounted opts .client
  ending_spec : (t.flow .client).buffered.ending = true → (t.flow .client).sourceEnded = true
  ended_spec : (t.flow .client).ended = true →
    (t.flow .client).sourceEnded = true ∨ t.destroyed .client = true

theorem fed_new (opts : Options) : new.Fed opts :=
  ⟨(Flow.sound_new opts .client).accounted, (Flow.sound_new opts .client).ending_spec,
    fun h => by cases h⟩

variable {T : Transform Bytes} {t : Tunnel}

/-- Without a head the target is given all that is accounted for. -/
theorem transformed_iff (hT : opts.down = some T) (ht : t.Fed opts) :
    Transformed opts T [] [] t ↔ (t.flow .client).Drained opts .client := by
  have houtputs : ∀ chunks, opts.outputs .client chunks = T.outputs chunks := by
    intro chunks
    simp only [Options.outputs, Options.transform, hT]
  have hall := ht.accounted.append_remains
  rw [houtputs] at hall
  constructor
  · intro h hended
    have hcomplete := h.complete hended
    rw [← ht.accounted.given_eq_iff, houtputs]
    exact hcomplete
  · intro hdrained
    refine ⟨rfl, hall, fun hended => ?_⟩
    have hgiven := ht.accounted.given_eq_iff.mpr (hdrained hended)
    rwa [houtputs] at hgiven

/-! ## The events of the target's direction -/

/-- The socket whose data, or the transform of whose data, an event is about. -/
def Event.source : Event → Side
  | .data side _ _ | .process side | .flush side | .emit side _ | .transformDrain side
  | .transformEnd side | .transformError side | .drain side | .finish side | .end side
  | .close side | .error side _ | .timeout side => side

/-- What there is to know of the client's data. -/
def clientData (t : Tunnel) : (List Bytes × Bool) × Buffered Bytes × List Bytes × Bool :=
  (((t.flow .client).sent, (t.flow .client).sourceEnded), (t.flow .client).buffered,
    (t.flow .client).given, (t.flow .client).ended)

@[simp] theorem clientData_setFlow (f : Flow) :
    (t.setFlow .target f).clientData = t.clientData := by
  simp [clientData]

@[simp] theorem clientData_unpipe (side : Side) :
    (t.unpipe opts side).clientData = t.clientData := by
  cases side with
  | client => simp [clientData]
  | target => exact clientData_setFlow _

@[simp] theorem clientData_endSocket : (t.endSocket .client).clientData = t.clientData := by
  simp [clientData, endSocket, Side.other]

theorem clientData_onError (side : Side) (code : Option String) :
    (t.onError opts side code).clientData = t.clientData := by
  rw [onError]
  split_ifs
  · exact clientData_unpipe side.other
  · exact clientData_unpipe side.other

theorem clientData_write (chunk : Bytes) :
    (t.write opts .target chunk).clientData = t.clientData := by
  rw [write]
  split_ifs
  · rfl
  · exact clientData_onError _ _
  · exact clientData_setFlow _

theorem clientData_onEmit (full : Bool) :
    (t.onEmit opts .target full).clientData = t.clientData := by
  rw [onEmit]
  split_ifs
  · rfl
  · cases (t.flow .target).buffered.read with
    | none => rfl
    | some output => exact (clientData_write _).trans (clientData_setFlow _)

/-- **The client's data is not touched by the events of the target's direction.** -/
theorem clientData_step {e : Event} (hadm : t.Admits e) (he : e.source = .target) :
    (t.step opts e).clientData = t.clientData := by
  cases e with
  | data side chunk full =>
      cases he
      rw [step, onData]
      cases opts.transform .target with
      | none => exact (clientData_write _).trans (clientData_setFlow _)
      | some T => exact clientData_setFlow _
  | emit side full =>
      cases he
      rw [step]
      cases opts.transform .target with
      | none => rfl
      | some T => exact clientData_onEmit full
  | transformEnd side =>
      cases he
      rw [step]
      cases opts.transform .target with
      | none => rfl
      | some T =>
          dsimp only
          split_ifs
          · exact clientData_endSocket
          · rfl
  | «end» side =>
      cases he
      rw [step, onEnd]
      cases opts.transform .target with
      | none => exact clientData_endSocket.trans (clientData_endSocket.trans (clientData_setFlow _))
      | some T =>
          exact (clientData_setFlow _).trans (clientData_endSocket.trans (clientData_setFlow _))
  | process side | flush side | transformDrain side =>
      cases he
      rw [step]
      cases opts.transform .target with
      | none => rfl
      | some T => exact clientData_setFlow _
  | drain side =>
      cases he
      rw [step]
      split_ifs
      · rfl
      · cases opts.transform .target with
        | none => exact clientData_setFlow _
        | some T => exact clientData_setFlow _
  | finish side =>
      cases he
      rw [step]
      split_ifs
      · exact clientData_unpipe .target
      · rfl
  | close side =>
      cases he
      exact (clientData_unpipe .client).trans clientData_endSocket
  | transformError | error | timeout => exact hadm.elim

/-! ## One step -/

/-- What changes nothing of the client's data changes nothing of what the target gets. -/
theorem fed_of_clientData {t' : Tunnel} (h : t'.clientData = t.clientData)
    (hdestroyed : t.destroyed .client = true → t'.destroyed .client = true) (ht : t.Fed opts) :
    t'.Fed opts ∧
      ((t.flow .client).Drained opts .client → (t'.flow .client).Drained opts .client) := by
  simp only [clientData, Prod.mk.injEq] at h
  obtain ⟨⟨hsent, hsource⟩, hbuffered, hgiven, hended⟩ := h
  refine ⟨⟨?_, ?_, ?_⟩, ?_⟩
  · simpa only [Flow.Accounted, hsent, hbuffered, hgiven] using ht.accounted
  · simpa only [hbuffered, hsource] using ht.ending_spec
  · rw [hended, hsource]
    exact fun h => (ht.ended_spec h).imp_right hdestroyed
  · simpa only [Flow.Drained, Flow.remains, hended, hbuffered] using id

/-- The transform of the client's data works on what it holds. -/
theorem fed_buffered {buffered : Buffered Bytes} (hT : opts.down = some T)
    (hb : ∀ sent taken, Buffered.Consistent T sent taken (t.flow .client).buffered →
      Buffered.Consistent T sent taken buffered)
    (hending : buffered.ending = (t.flow .client).buffered.ending) (ht : t.Fed opts) :
    let t' := t.setFlow .client { t.flow .client with buffered := buffered }
    t'.Fed opts ∧
      ((t.flow .client).Drained opts .client → (t'.flow .client).Drained opts .client) := by
  have htransform : opts.transform .client = some T := hT
  have haccounted := ht.accounted
  simp only [Flow.Accounted, htransform] at haccounted
  have hb' := hb _ _ haccounted
  refine ⟨⟨?_, ?_, ?_⟩, ?_⟩
  · simpa only [setFlow_flow, Function.update_self, Flow.Accounted, htransform] using hb'
  · simpa [hending] using ht.ending_spec
  · simpa using ht.ended_spec
  · simp only [setFlow_flow, Function.update_self, Flow.Drained, Flow.remains, htransform]
    exact fun hdrained hended => (haccounted.remains_eq hb').trans (hdrained hended)

/-- **The transform of the client's data emits**: that loses a chunk exactly if the target has
been destroyed. -/
theorem transformed_onEmit (hT : opts.down = some T) (ht : t.Fed opts)
    (hdrained : (t.flow .client).Drained opts .client) (full : Bool) :
    (Transformed opts T [] [] (t.onEmit opts .client full) ↔ t.Keeps opts (.emit .client full)) ∧
      (t.Keeps opts (.emit .client full) → (t.onEmit opts .client full).Fed opts) := by
  have htransform : opts.transform .client = some T := hT
  have hsame := (transformed_iff hT ht).mpr hdrained
  rw [onEmit]
  by_cases hpaused : (t.flow .client).transformPaused = true
  · rw [if_pos hpaused]
    exact ⟨iff_of_true hsame ⟨by simp, fun _ _ _ => Or.inl hpaused⟩, fun _ => ht⟩
  rw [if_neg hpaused]
  cases hread : (t.flow .client).buffered.read with
  | none => exact ⟨iff_of_true hsame ⟨by simp, fun _ _ _ => Or.inr hread⟩, fun _ => ht⟩
  | some output =>
      obtain ⟨chunk, buffered⟩ := output
      have hremains := Buffered.remains_of_read T hread
      by_cases hdestroyed : t.destroyed .target = true
      · -- the chunk is read and goes nowhere
        have hkeeps : ¬ t.Keeps opts (.emit .client full) := by
          intro h
          rcases h.alive full rfl hdestroyed with h | h
          · exact hpaused h
          · rw [hread] at h
            cases h
        refine ⟨iff_of_false (fun h => ?_) hkeeps, fun h => absurd h hkeeps⟩
        have hall := h.received
        simp only [write, Side.other, setFlow_destroyed, hdestroyed, if_true, setFlow_flow,
          Function.update_self, Flow.remains, htransform] at hall
        have hbefore := hsame.received
        simp only [Flow.remains, htransform, hremains] at hbefore
        have hlength := congrArg List.length (hall.trans hbefore.symm)
        simp only [List.length_append, List.length_cons] at hlength
        omega
      · rw [Bool.not_eq_true] at hdestroyed
        have hended : (t.flow .client).ended = false := by
          by_contra h
          have hnil := hdrained (by simpa using h)
          simp only [Flow.remains, htransform, hremains] at hnil
          cases hnil
        have haccounted := ht.accounted
        simp only [Flow.Accounted, htransform] at haccounted
        have hflow : ∀ f : Flow, f.ended = false →
            ((t.setFlow .client f).write opts .client chunk).flow .client =
              { f with given := f.given ++ [chunk] } ∧
            ((t.setFlow .client f).write opts .client chunk).destroyed = t.destroyed := by
          intro f hf
          simp [write_eq, hdestroyed, hf, Side.other]
        obtain ⟨hflow', hdestroyed'⟩ := hflow { t.flow .client with
          buffered := buffered
          transformPaused := full } hended
        have hfed : ((t.setFlow .client { t.flow .client with
            buffered := buffered
            transformPaused := full }).write opts .client chunk).Fed opts := by
          refine ⟨?_, ?_, ?_⟩
          · rw [hflow']
            simpa only [Flow.Accounted, htransform] using haccounted.read hread
          · rw [hflow']
            simpa only [Buffered.ending_of_read hread] using ht.ending_spec
          · rw [hflow', hdestroyed']
            exact ht.ended_spec
        refine ⟨iff_of_true ((transformed_iff hT hfed).mpr ?_) ⟨by simp, ?_⟩, fun _ => hfed⟩
        · rw [hflow']
          intro h
          rw [hended] at h
          cases h
        · intro _ _ h
          rw [hdestroyed] at h
          cases h

/-- The client's direction after a step that keeps everything. -/
theorem transformed_kept {t' : Tunnel} {e : Event} (hT : opts.down = some T)
    (he : ∀ full, e ≠ .emit .client full) (hend : e ≠ .end .client) (hclose : e ≠ .close .client)
    (h : t'.Fed opts ∧ (t'.flow .client).Drained opts .client) :
    (Transformed opts T [] [] t' ↔ t.Keeps opts e) ∧ (t.Keeps opts e → t'.Fed opts) :=
  ⟨iff_of_true ((transformed_iff hT h.1).mpr h.2)
    ⟨fun h => (h.elim hend hclose).elim, fun full h => absurd h (he full)⟩, fun _ => h.1⟩

/-- The client's stream has ended. -/
theorem transformed_ended {t' : Tunnel} {e : Event} (hT : opts.down = some T)
    (he : e = .end .client ∨ e = .close .client) (hfed : t'.Fed opts)
    (hended : (t'.flow .client).ended = true)
    (hremains : (t'.flow .client).remains opts .client = (t.flow .client).remains opts .client) :
    (Transformed opts T [] [] t' ↔ t.Keeps opts e) ∧ (t.Keeps opts e → t'.Fed opts) := by
  refine ⟨?_, fun _ => hfed⟩
  rw [transformed_iff hT hfed, Flow.Drained, hremains]
  constructor
  · intro h
    refine ⟨fun _ => h hended, fun full heq => ?_⟩
    rcases he with rfl | rfl <;> cases heq
  · exact fun h _ => h.drained he

/-- **A step keeps the target's stream transformed exactly if it loses nothing**, and then the
accounting goes on. -/
theorem transformed_step_iff (hT : opts.down = some T) {e : Event} (hadm : t.Admits e)
    (ht : t.Fed opts) (hP : Transformed opts T [] [] t) :
    (Transformed opts T [] [] (t.step opts e) ↔ t.Keeps opts e) ∧
      (t.Keeps opts e → (t.step opts e).Fed opts) := by
  have htransform : opts.transform .client = some T := hT
  have hdrained := (transformed_iff hT ht).mp hP
  have haccounted := ht.accounted
  simp only [Flow.Accounted, htransform] at haccounted
  have hquiet : ∀ {t' : Tunnel}, t'.clientData = t.clientData →
      (t.destroyed .client = true → t'.destroyed .client = true) →
      t'.Fed opts ∧ (t'.flow .client).Drained opts .client := by
    intro t' hdata hdestroyed
    obtain ⟨hfed, hdrained'⟩ := fed_of_clientData hdata hdestroyed ht
    exact ⟨hfed, hdrained' hdrained⟩
  by_cases hsource : e.source = .target
  · refine transformed_kept hT ?_ ?_ ?_ (hquiet (clientData_step hadm hsource) (destroyed_step e))
    · rintro full rfl
      cases hsource
    · rintro rfl
      cases hsource
    · rintro rfl
      cases hsource
  have hclient : e.source = .client := by
    cases hside : e.source with
    | client => rfl
    | target => exact absurd hside hsource
  cases e with
  | data side chunk full =>
      cases hclient
      obtain ⟨hopen, -, halive⟩ := hadm
      have hending : (t.flow .client).buffered.ending = false := by
        by_contra h
        have hended := ht.ending_spec (by simpa using h)
        rw [hopen] at hended
        cases hended
      have hended : (t.flow .client).ended = false := by
        by_contra h
        rcases ht.ended_spec (by simpa using h) with h | h
        · rw [hopen] at h
          cases h
        · rw [halive] at h
          cases h
      refine transformed_kept hT (by simp) (by simp) (by simp) ⟨⟨?_, ?_, ?_⟩, ?_⟩
      · simpa [step, onData, htransform, Flow.Accounted] using haccounted.write hending chunk
      · simpa [step, onData, htransform, Buffered.write] using ht.ending_spec
      · simp [step, onData, htransform, hended]
      · intro h
        simp [step, onData, htransform, hended] at h
  | process side =>
      cases hclient
      obtain ⟨hfed, hdrained'⟩ := fed_buffered hT
        (fun _ _ (h : Buffered.Consistent T _ _ _) => h.process) (by simp) ht
      simp only [step, htransform]
      exact transformed_kept hT (by simp) (by simp) (by simp) ⟨hfed, hdrained' hdrained⟩
  | flush side =>
      cases hclient
      obtain ⟨hfed, hdrained'⟩ := fed_buffered hT
        (fun _ _ (h : Buffered.Consistent T _ _ _) => h.flush) (by simp) ht
      simp only [step, htransform]
      exact transformed_kept hT (by simp) (by simp) (by simp) ⟨hfed, hdrained' hdrained⟩
  | emit side full =>
      cases hclient
      simp only [step, htransform]
      exact transformed_onEmit hT ht hdrained full
  | transformDrain side =>
      cases hclient
      simp only [step, htransform]
      exact transformed_kept hT (by simp) (by simp) (by simp) (hquiet (by simp [clientData]) id)
  | transformEnd side =>
      cases hclient
      simp only [step, htransform]
      refine transformed_kept hT (by simp) (by simp) (by simp) ?_
      split_ifs with hdone
      · have hnil := haccounted.remains_eq_nil hdone.1 hdone.2.1
        have hsourceEnded := ht.ending_spec (haccounted.flushed_spec hdone.1).1
        refine ⟨⟨?_, ?_, ?_⟩, ?_⟩
        · simpa [Flow.Accounted, htransform] using haccounted
        · simpa using ht.ending_spec
        · simp [hsourceEnded]
        · simpa [Flow.Drained, Flow.remains, htransform] using hnil
      · exact ⟨ht, hdrained⟩
  | drain side =>
      cases hclient
      simp only [step, htransform]
      refine transformed_kept hT (by simp) (by simp) (by simp) ?_
      split_ifs
      · exact ⟨ht, hdrained⟩
      · exact hquiet (by simp [clientData]) id
  | finish side =>
      cases hclient
      rw [step]
      refine transformed_kept hT (by simp) (by simp) (by simp) ?_
      split_ifs
      · exact hquiet (clientData_unpipe .client) id
      · exact ⟨ht, hdrained⟩
  | «end» side =>
      cases hclient
      have hflow : (t.onEnd opts .client).flow .client = { t.flow .client with
          sourceEnded := true
          ended := true
          buffered := (t.flow .client).buffered.finish } := by
        simp [onEnd, htransform]
      refine transformed_ended hT (Or.inl rfl) ⟨?_, ?_, ?_⟩ ?_ ?_
      · simpa only [step, hflow, Flow.Accounted, htransform] using haccounted.finish
      · simp [step, hflow]
      · simp [step, hflow]
      · simp [step, hflow]
      · simp only [step, hflow, Flow.remains, htransform]
        rfl
  | close side =>
      cases hclient
      have hflow : (t.step opts (.close .client)).flow .client =
          { t.flow .client with ended := true } := by
        have hended := endSocket_flow t .client
        rw [Side.other] at hended
        simp [step, Side.other, hended]
      refine transformed_ended hT (Or.inr rfl) ⟨?_, ?_, ?_⟩ ?_ ?_
      · simpa only [hflow, Flow.Accounted, htransform] using haccounted
      · simpa only [hflow] using ht.ending_spec
      · rw [hflow]
        exact fun _ => hadm
      · rw [hflow]
      · rw [hflow]
        rfl
  | transformError | error | timeout => exact hadm.elim

/-- **Behind `bind` with a head and what it writes directly.** -/
theorem transformed_throughout_iff (hT : opts.down = some T) (head : Bytes) (events : List Event)
    (h : Along (step opts) Admits new events) :
    Throughout (step opts) (Transformed opts T head (headChunks head)) new events ↔
      head = [] ∧ Along (step opts) (Keeps opts) new events := by
  by_cases hhead : head = []
  · subst hhead
    have hiff : Throughout (step opts) (Transformed opts T [] []) new events ↔
        Along (step opts) (Keeps opts) new events :=
      throughout_iff_along h (fed_new opts)
        ((transformed_iff hT (fed_new opts)).mpr fun h => by cases h)
        (fun _ _ hadm ht hP => (transformed_step_iff hT hadm ht hP).1)
        (fun _ _ hadm ht hP hC => (transformed_step_iff hT hadm ht hP).2 hC)
    exact hiff.trans (by simp)
  · have hdirect : headChunks head ≠ [] := by
      simp [headChunks, List.length_pos_iff, hhead]
    constructor
    · intro hall
      exact absurd (hall [] List.nil_prefix).through hdirect
    · intro hkeeps
      exact absurd hkeeps.1 hhead

/-- **In a run without socket error or timeout only late output destroys a socket.** -/
theorem alive_of_timely {events : List Event}
    (h : Along (step opts) (fun t e => t.Admits e ∧ ¬ t.EmitsLate opts e) new events)
    (side : Side) : (run (step opts) new events).destroyed side = false := by
  refine (h.invariant (P := fun t => (∀ side, (t.flow side).Sound opts side) ∧
    ∀ side, t.destroyed side = false) (fun t e he ht => ?_)
    ⟨fun side => Flow.sound_new opts side, fun _ => rfl⟩).2 side
  obtain ⟨hsound, halive⟩ := ht
  have hmoved : ∀ {t' : Tunnel} {side : Side} {f : Flow}, Moves opts t t' side f →
      (∀ side, (t'.flow side).Sound opts side) ∧ ∀ side, t'.destroyed side = false := by
    intro t' side f hmoves
    refine ⟨hmoves.sound_all hsound, fun side' => ?_⟩
    rw [hmoves.destroyed_eq]
    exact halive side'
  by_cases hend : ∃ side, e = .end side
  · obtain ⟨side, rfl⟩ := hend
    obtain ⟨f, hmoves, -⟩ := onEnd_moves side (hsound side)
    exact hmoved hmoves
  · obtain ⟨side, f, hmoves, -⟩ := step_moves he.1 hsound halive he.2 (by simpa using hend)
    exact hmoved hmoves

end Tunnel

/-! ## The servers -/

namespace Forward.Connection

/-- Only `bind` writes to the target directly. -/
theorem written_step {c : Connection} {e : Event} (he : e ≠ .bind) :
    (c.step e).written = c.written := by
  cases e with
  | bind => exact absurd rfl he
  | refuse message status headers =>
      simp only [step, refuse, endSocket, writeResponse]
      split_ifs <;> rfl
  | «end» => rfl
  | data data =>
      rw [step, onData]
      split_ifs <;> rfl
  | error code =>
      rw [step, onError]
      split_ifs
      · rfl
      · rfl
      · apply foldl_component written
        intro c listener
        cases listener with
        | server => rfl
        | tunnel =>
            rw [callErrorListener]
            split_ifs <;> rfl
  | close =>
      rw [step, onClose]
      split_ifs <;> rfl

/-- What the first `bind` writes. -/
theorem written_bind (head : Bytes) (events : List Event) (hbind : .bind ∉ events) :
    let c := run step (accepted head) events
    (c.step .bind).written = Tunnel.headChunks c.head := by
  intro c
  have hnone : c.written = [] :=
    run_component written fun e he _ => written_step fun heq => hbind (heq ▸ he)
  simp only [step, bind, writeResponse, Tunnel.headChunks, hnone]
  split_ifs <;> rfl

end Forward.Connection

namespace Reverse.Connection

/-- Only `bind` writes to the target directly. -/
theorem written_step {c : Connection} {e : Event} (he : e ≠ .bind) :
    (c.step e).written = c.written := by
  cases e with
  | bind => exact absurd rfl he
  | waitSNI | «end» => rfl
  | read =>
      rw [step, read]
      split_ifs
      · split
        · rfl
        · apply foldl_component written
          intro c listener
          cases listener with
          | pipe => rfl
          | waitSNI call =>
              simp only [callDataListener, onData]
              split_ifs <;> rfl
      · rfl
  | timeout call =>
      rw [step, onTimeout]
      split_ifs <;> rfl
  | close =>
      rw [step, close]
      split_ifs
      · rfl
      · apply foldl_component written
        intro c listener
        cases listener <;> rfl
  | error code =>
      rw [step, error]
      split_ifs
      · rfl
      · rfl
      · apply iterate_component written
        intro c
        rw [onError]
        split_ifs <;> rfl

/-- What the first `bind` writes. -/
theorem written_bind (chunks : List Bytes) (events : List Event) (hbind : .bind ∉ events) :
    let c := run step (accepted chunks) events
    (c.step .bind).written = Tunnel.headChunks c.head := by
  intro c
  have hnone : c.written = [] :=
    run_component written fun e he _ => written_step fun heq => hbind (heq ▸ he)
  simp only [step, bind, Tunnel.headChunks, hnone]
  split_ifs <;> rfl

end Reverse.Connection

namespace Tunnel

/-- **Every byte of the client passes through the down transform exactly if `bind` found no
head** and the tunnel loses nothing, for the forward and for the reverse server, whatever
happened to their connection before. -/
theorem down_transform_iff (opts : Options) (T : Transform Bytes) (hT : opts.down = some T)
    (events : List Event) (h : Along (step opts) Admits new events)
    (head : Bytes) (forwardEvents : List Forward.Event) (hforward : .bind ∉ forwardEvents)
    (chunks : List Bytes) (reverseEvents : List Reverse.Event) (hreverse : .bind ∉ reverseEvents) :
    let forward := run Forward.Connection.step (.accepted head) forwardEvents
    let reverse := run Reverse.Connection.step (.accepted chunks) reverseEvents
    (Throughout (step opts) (Transformed opts T forward.head (forward.step .bind).written) new
        events ↔ forward.head = [] ∧ Along (step opts) (Keeps opts) new events) ∧
    (Throughout (step opts) (Transformed opts T reverse.head (reverse.step .bind).written) new
        events ↔ reverse.head = [] ∧ Along (step opts) (Keeps opts) new events) := by
  intro forward reverse
  constructor
  · rw [Forward.Connection.written_bind head forwardEvents hforward]
    exact transformed_throughout_iff hT forward.head events h
  · rw [Reverse.Connection.written_bind chunks reverseEvents hreverse]
    exact transformed_throughout_iff hT reverse.head events h

/-- A down transform that adds one to every byte. -/
def increment : Transform Bytes := ⟨fun _ chunk => [chunk.map (· + 1)], fun _ => []⟩

private def shifted : Options := ⟨none, some increment, 0, true, true⟩

theorem down_transform_no_head :
    Throughout (step shifted) (Transformed shifted increment [] []) new
      [.data .client [65] false, .process .client, .emit .client false, .end .client] := by
  refine (down_transform_iff shifted increment rfl _ ?_ [] [] (by simp) [] [] (by simp)).1.mpr ?_
  · simp only [along_cons, along_nil, and_true]
    exact ⟨⟨rfl, rfl, rfl⟩, trivial, trivial, trivial⟩
  · simp only [along_cons, along_nil, and_true]
    refine ⟨rfl, ⟨by simp, by simp⟩, ⟨by simp, by simp⟩, ⟨by simp, fun _ _ h => ?_⟩,
      ⟨fun _ => rfl, by simp⟩⟩
    cases h

/-- **The head goes to the target as it is.** -/
theorem down_transform_head :
    let connection : Forward.Connection := .accepted [65]
    (connection.step .bind).written = [[65]] ∧
      increment.outputs (headChunks connection.head) = [[66]] ∧
      ¬ Throughout (step shifted)
        (Transformed shifted increment connection.head (connection.step .bind).written) new [] := by
  refine ⟨rfl, by decide, fun h => ?_⟩
  exact absurd (h.last).through (by decide)

end Tunnel

end Proxinator
