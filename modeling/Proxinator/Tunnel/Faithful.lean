import Proxinator.Tunnel.HalfClose
import Proxinator.Lib.Known

/-!
# What a tunnel makes up or loses

Whatever happens to the streams of a tunnel, a receiver is given no less than before and nothing
after its end (`gives_step`); and where the transforms only pass data on, it is given nothing
that was not sent, and all that was sent unless it is destroyed (`Faithful.step`).
-/

namespace Proxinator

open Lib

namespace Tunnel

/-- What a socket has emitted, and what the other one was given of it. -/
def Flow.pipe (f : Flow) : Pipe UInt8 :=
  ⟨⟨f.sent.flatten, f.sourceEnded⟩, ⟨f.given.flatten, f.ended⟩⟩

/-! ## What a step gives to the receivers -/

/-- The sources emit nothing, and the receivers are given no less. -/
def Gives (t t' : Tunnel) : Prop :=
  ∀ side, (t'.flow side).pipe.input = (t.flow side).pipe.input ∧
    (t.flow side).pipe.output ≤ (t'.flow side).pipe.output

theorem Gives.of_eq {t t' : Tunnel} (h : t'.flow = t.flow) : Gives t t' := by
  intro side
  rw [h]
  exact ⟨rfl, le_rfl⟩

theorem Gives.trans {t t' t'' : Tunnel} (h : Gives t t') (h' : Gives t' t'') : Gives t t'' :=
  fun side => ⟨(h' side).1.trans (h side).1, (h side).2.trans (h' side).2⟩

theorem gives_setFlow (t : Tunnel) (side : Side) (f : Flow)
    (hinput : f.pipe.input = (t.flow side).pipe.input)
    (houtput : (t.flow side).pipe.output ≤ f.pipe.output) : Gives t (t.setFlow side f) := by
  intro side'
  rw [setFlow_flow]
  by_cases hside : side' = side
  · subst hside
    rw [Function.update_self]
    exact ⟨hinput, houtput⟩
  · rw [Function.update_of_ne hside]
    exact ⟨rfl, le_rfl⟩

theorem gives_unpipe (opts : Options) (t : Tunnel) (side : Side) : Gives t (t.unpipe opts side) :=
  gives_setFlow t side _ (by simp [Flow.pipe]) (by simp [Flow.pipe])

theorem onError_flow (opts : Options) (t : Tunnel) (side : Side) (code : Option String) :
    (t.onError opts side code).flow = (t.unpipe opts side.other).flow := by
  rw [onError]
  split_ifs
  · rfl
  · rfl

theorem gives_onError (opts : Options) (t : Tunnel) (side : Side) (code : Option String) :
    Gives t (t.onError opts side code) :=
  (gives_unpipe opts t side.other).trans (Gives.of_eq (onError_flow opts t side code))

theorem gives_endSocket (t : Tunnel) (side : Side) : Gives t (t.endSocket side) :=
  gives_setFlow t side.other { t.flow side.other with ended := true } rfl (Known.le_finish _)

theorem gives_write (opts : Options) (t : Tunnel) (side : Side) (chunk : Bytes) :
    Gives t (t.write opts side chunk) := by
  rw [write]
  split_ifs with hdestroyed hended
  · exact Gives.of_eq rfl
  · exact gives_onError opts t side.other _
  · refine gives_setFlow _ _ _ rfl ⟨?_, fun h => absurd h hended⟩
    simp [Flow.pipe]

/-- What the sources emit on an event. -/
def emits (t : Tunnel) : Event → Tunnel
  | .data side chunk _ =>
    t.setFlow side { t.flow side with sent := (t.flow side).sent ++ [chunk] }
  | .end side => t.setFlow side { t.flow side with sourceEnded := true }
  | _ => t

theorem output_emits (t : Tunnel) (e : Event) (side : Side) :
    ((t.emits e).flow side).pipe.output = (t.flow side).pipe.output := by
  have hset : ∀ (side' : Side) (f : Flow), f.pipe.output = (t.flow side').pipe.output →
      ((t.setFlow side' f).flow side).pipe.output = (t.flow side).pipe.output := by
    intro side' f hf
    rw [setFlow_flow]
    by_cases hside : side = side'
    · subst hside
      rw [Function.update_self, hf]
    · rw [Function.update_of_ne hside]
  cases e with
  | data side' chunk => exact hset side' _ rfl
  | «end» side' => exact hset side' _ rfl
  | process | flush | emit | transformDrain | transformEnd | transformError | drain | finish |
    close | error | timeout => rfl

theorem gives_onData (opts : Options) (t : Tunnel) (side : Side) (chunk : Bytes) (full : Bool) :
    Gives (t.emits (.data side chunk full)) (t.onData opts side chunk full) := by
  have hset : ∀ f : Flow, f.pipe = ((t.emits (.data side chunk full)).flow side).pipe →
      Gives (t.emits (.data side chunk full)) (t.setFlow side f) := by
    intro f hf side'
    simp only [emits, setFlow_flow] at hf ⊢
    by_cases hside : side' = side
    · subst hside
      rw [Function.update_self] at hf ⊢
      rw [Function.update_self, hf]
      exact ⟨rfl, le_rfl⟩
    · rw [Function.update_of_ne hside, Function.update_of_ne hside]
      exact ⟨rfl, le_rfl⟩
  rw [onData]
  cases opts.transform side with
  | some T => exact hset _ (by simp [emits, Flow.pipe])
  | none => exact (hset _ (by simp [emits, Flow.pipe])).trans (gives_write opts _ side chunk)

theorem gives_onEnd (opts : Options) (t : Tunnel) (side : Side) :
    Gives (t.emits (.end side)) (t.onEnd opts side) := by
  rw [onEnd]
  have hend := gives_endSocket (t.emits (.end side)) side.other
  cases opts.transform side with
  | some T => exact hend.trans (gives_setFlow _ _ _ rfl le_rfl)
  | none => exact hend.trans (gives_endSocket _ side.other)

theorem gives_onEmit (opts : Options) (t : Tunnel) (side : Side) (full : Bool) :
    Gives t (t.onEmit opts side full) := by
  rw [onEmit]
  split_ifs
  · exact Gives.of_eq rfl
  · cases hread : (t.flow side).buffered.read with
    | none => exact Gives.of_eq rfl
    | some output =>
        obtain ⟨chunk, buffered⟩ := output
        refine Gives.trans ?_ (gives_write opts _ side chunk)
        exact gives_setFlow _ _ _ rfl le_rfl

/-- **A step passes on what was emitted**: no receiver is given less than before, and nothing
after its end. -/
theorem gives_step (opts : Options) (t : Tunnel) (e : Event) :
    Gives (t.emits e) (t.step opts e) := by
  cases e with
  | data side chunk full => exact gives_onData opts t side chunk full
  | «end» side => exact gives_onEnd opts t side
  | process side | flush side =>
      rw [step]
      cases opts.transform side with
      | none => exact Gives.of_eq rfl
      | some T => exact gives_setFlow _ _ _ rfl le_rfl
  | emit side full =>
      rw [step]
      cases opts.transform side with
      | none => exact Gives.of_eq rfl
      | some T => exact gives_onEmit opts t side full
  | transformDrain side =>
      rw [step]
      cases opts.transform side with
      | none => exact Gives.of_eq rfl
      | some T => exact gives_setFlow _ _ _ rfl le_rfl
  | transformEnd side =>
      rw [step]
      cases opts.transform side with
      | none => exact Gives.of_eq rfl
      | some T =>
          dsimp only
          split_ifs
          · exact gives_endSocket t side.other
          · exact Gives.of_eq rfl
  | transformError side =>
      rw [step]
      cases opts.transform side with
      | none => exact Gives.of_eq rfl
      | some T => exact Gives.of_eq rfl
  | drain side =>
      rw [step]
      split_ifs
      · exact Gives.of_eq rfl
      · cases opts.transform side with
        | none => exact gives_setFlow _ _ _ rfl le_rfl
        | some T => exact gives_setFlow _ _ _ rfl le_rfl
  | finish side =>
      rw [step]
      split_ifs
      · exact gives_unpipe opts t side
      · exact Gives.of_eq rfl
  | close side => exact (gives_endSocket t side.other).trans (gives_unpipe opts _ side.other)
  | error side code => exact gives_onError opts t side code
  | timeout side =>
      rw [step, onIdle]
      split_ifs
      · exact Gives.of_eq rfl
      · exact Gives.of_eq rfl
      · exact Gives.of_eq rfl
      · exact Gives.of_eq rfl

/-! ## What a tunnel makes of what it takes -/

/-- The transforms pass on what they are given. -/
def Options.Transparent (opts : Options) : Prop :=
  ∀ side T, opts.transform side = some T → T.Computes OrderHom.id

/-- A direction in which nothing is made up, and nothing lost unless its receiver is
destroyed. -/
structure Flow.Faithful (opts : Options) (side : Side) (destroyed : Bool) (f : Flow) : Prop where
  begins : f.given.flatten <+: f.sent.flatten
  accounted : destroyed = false → f.Accounted opts side
  ending_spec : f.buffered.ending = true → f.sourceEnded = true

/-- A tunnel that is faithful in both directions. -/
def Faithful (opts : Options) (t : Tunnel) : Prop :=
  ∀ side, (t.flow side).Faithful opts side (t.destroyed side.other)

variable {opts : Options} {t : Tunnel}

theorem faithful_new (opts : Options) : new.Faithful opts := fun side =>
  ⟨List.prefix_rfl, fun _ => (Flow.sound_new opts side).accounted, by simp [new, Flow.new, Buffered.new]⟩

/-- What is accounted for begins what was sent. -/
theorem Flow.Accounted.begins (htransparent : opts.Transparent) {side : Side} {f : Flow}
    (h : f.Accounted opts side) (hending : f.buffered.ending = true → f.sourceEnded = true) :
    f.given.flatten <+: f.sent.flatten := by
  rw [Accounted] at h
  cases hT : opts.transform side with
  | some T =>
      simp only [hT] at h
      have hle := h.le (htransparent side T hT) hending
      exact Known.open_le.mp hle
  | none =>
      simp only [hT] at h
      rw [h]

theorem Faithful.setFlow (h : t.Faithful opts) {side : Side} {f : Flow}
    (hf : f.Faithful opts side (t.destroyed side.other)) : (t.setFlow side f).Faithful opts := by
  intro side'
  rw [setFlow_flow, setFlow_destroyed]
  by_cases hside : side' = side
  · subst hside
    rw [Function.update_self]
    exact hf
  · rw [Function.update_of_ne hside]
    exact h side'

theorem Faithful.endSocket (h : t.Faithful opts) (side : Side) : (t.endSocket side).Faithful opts := by
  have hf := h side.other
  have hset := h.setFlow (f := { t.flow side.other with ended := true })
    ⟨hf.begins, hf.accounted, hf.ending_spec⟩
  exact hset

theorem Faithful.destroy (h : t.Faithful opts) : t.destroy.Faithful opts := fun side =>
  ⟨(h side).begins, by simp [Tunnel.destroy], (h side).ending_spec⟩

theorem Flow.Faithful.unpipe {side : Side} {destroyed : Bool} {f : Flow}
    (h : f.Faithful opts side destroyed) : (f.unpipe opts side).Faithful opts side destroyed where
  begins := by simpa using h.begins
  accounted hd := (h.accounted hd).unpipe
  ending_spec := by simpa using h.ending_spec

theorem Faithful.unpipe (h : t.Faithful opts) (side : Side) : (t.unpipe opts side).Faithful opts :=
  h.setFlow (h side).unpipe

theorem Faithful.onError (h : t.Faithful opts) (side : Side) (code : Option String) :
    (t.onError opts side code).Faithful opts := by
  have hunpiped := h.unpipe side.other
  rw [Tunnel.onError]
  split_ifs
  · exact Faithful.destroy hunpiped
  · exact hunpiped.destroy

/-- A chunk is written that is accounted for unless the receiver is gone. -/
theorem Faithful.write (htransparent : opts.Transparent) {side : Side} {chunk : Bytes}
    (h : ∀ side', side' ≠ side → (t.flow side').Faithful opts side' (t.destroyed side'.other))
    (hbegins : (t.flow side).given.flatten <+: (t.flow side).sent.flatten)
    (hending : (t.flow side).buffered.ending = true → (t.flow side).sourceEnded = true)
    (haccounted : t.destroyed side.other = false →
      Flow.Accounted opts side { t.flow side with given := (t.flow side).given ++ [chunk] }) :
    (t.write opts side chunk).Faithful opts := by
  rw [Tunnel.write]
  split_ifs with hdestroyed hended
  · intro side'
    by_cases hside : side' = side
    · subst hside
      exact ⟨hbegins, fun hd => absurd (hdestroyed.symm.trans hd) (by simp), hending⟩
    · exact h side' hside
  · -- the error destroys both sockets
    have hdestroy : (t.onError opts side.other (some "ERR_STREAM_WRITE_AFTER_END")).destroyed =
        fun _ => true := by
      rw [Tunnel.onError]
      rfl
    intro side'
    rw [onError_flow, hdestroy, unpipe_flow, Side.other_other]
    by_cases hside : side' = side
    · subst hside
      rw [Function.update_self]
      exact ⟨by simpa using hbegins, by simp, by simpa using hending⟩
    · rw [Function.update_of_ne hside]
      exact ⟨(h side' hside).begins, by simp, (h side' hside).ending_spec⟩
  · intro side'
    rw [setFlow_flow, setFlow_destroyed]
    by_cases hside : side' = side
    · subst hside
      rw [Function.update_self]
      have halive := haccounted (by simpa using hdestroyed)
      exact ⟨halive.begins htransparent hending, fun _ => halive, hending⟩
    · rw [Function.update_of_ne hside]
      exact h side' hside

theorem Faithful.onData (htransparent : opts.Transparent) (h : t.Faithful opts) {side : Side}
    (chunk : Bytes) (full : Bool) (hopen : (t.flow side).sourceEnded = false) :
    (t.onData opts side chunk full).Faithful opts := by
  have hf := h side
  have hbegins : (t.flow side).given.flatten <+: ((t.flow side).sent ++ [chunk]).flatten := by
    rw [List.flatten_append]
    exact hf.begins.trans (List.prefix_append _ _)
  have hending : (t.flow side).buffered.ending = false := by
    by_contra hne
    exact absurd (hf.ending_spec (by simpa using hne)) (by simp [hopen])
  rw [Tunnel.onData]
  cases hT : opts.transform side with
  | some T =>
      refine h.setFlow ⟨hbegins, fun hd => ?_, hf.ending_spec⟩
      have haccounted := hf.accounted hd
      simp only [Flow.Accounted, hT] at haccounted ⊢
      exact haccounted.write hending chunk
  | none =>
      refine Faithful.write htransparent (fun side' hside => ?_) ?_ ?_ fun hd => ?_
      · rw [setFlow_flow, Function.update_of_ne hside]
        exact h side'
      · rw [setFlow_flow, Function.update_self]
        exact hbegins
      · rw [setFlow_flow, Function.update_self]
        exact hf.ending_spec
      · have haccounted := hf.accounted hd
        rw [setFlow_flow, Function.update_self]
        simp only [Flow.Accounted, hT] at haccounted ⊢
        rw [haccounted]

theorem Faithful.onEmit (htransparent : opts.Transparent) (h : t.Faithful opts) {side : Side}
    {T : Transform Bytes} (hT : opts.transform side = some T) (full : Bool) :
    (t.onEmit opts side full).Faithful opts := by
  have hf := h side
  rw [Tunnel.onEmit]
  split_ifs
  · exact h
  · cases hread : (t.flow side).buffered.read with
    | none => exact h
    | some output =>
        obtain ⟨chunk, buffered⟩ := output
        have hending : buffered.ending = (t.flow side).buffered.ending :=
          Buffered.ending_of_read hread
        refine Faithful.write htransparent (fun side' hside => ?_) ?_ ?_ fun hd => ?_
        · rw [setFlow_flow, Function.update_of_ne hside]
          exact h side'
        · rw [setFlow_flow, Function.update_self]
          exact hf.begins
        · rw [setFlow_flow, Function.update_self]
          simp only [hending]
          exact hf.ending_spec
        · have haccounted := hf.accounted hd
          rw [setFlow_flow, Function.update_self]
          simp only [Flow.Accounted, hT] at haccounted ⊢
          exact haccounted.read hread

/-- The transform of a direction works on what it holds. -/
theorem Faithful.buffered (h : t.Faithful opts) {side : Side} {T : Transform Bytes}
    (hT : opts.transform side = some T) {buffered : Buffered Bytes}
    (hb : ∀ sent taken, Buffered.Consistent T sent taken (t.flow side).buffered →
      Buffered.Consistent T sent taken buffered)
    (hending : buffered.ending = true → (t.flow side).sourceEnded = true) :
    (t.setFlow side { t.flow side with buffered := buffered }).Faithful opts := by
  refine h.setFlow ⟨(h side).begins, fun hd => ?_, hending⟩
  have haccounted := (h side).accounted hd
  simp only [Flow.Accounted, hT] at haccounted ⊢
  exact hb _ _ haccounted

theorem Faithful.onEnd (h : t.Faithful opts) (side : Side) : (t.onEnd opts side).Faithful opts := by
  have hset : (t.setFlow side { t.flow side with sourceEnded := true }).Faithful opts :=
    h.setFlow ⟨(h side).begins, (h side).accounted, fun _ => rfl⟩
  have hend := hset.endSocket side.other
  rw [Tunnel.onEnd]
  cases hT : opts.transform side with
  | none => exact hend.endSocket side.other
  | some T =>
      refine hend.buffered hT (fun sent taken hb => hb.finish) fun _ => ?_
      simp

/-- **A step keeps a tunnel faithful**, whatever happens to its streams, if no source emits data
after its end. -/
theorem Faithful.step (htransparent : opts.Transparent) (h : t.Faithful opts) {e : Event}
    (hopen : ∀ side chunk full, e = .data side chunk full → (t.flow side).sourceEnded = false) :
    (t.step opts e).Faithful opts := by
  cases e with
  | data side chunk full => exact h.onData htransparent chunk full (hopen side chunk full rfl)
  | «end» side => exact h.onEnd side
  | process side =>
      rw [Tunnel.step]
      cases hT : opts.transform side with
      | none => exact h
      | some T =>
          refine h.buffered hT (fun _ _ hb => hb.process) fun hending => ?_
          exact (h side).ending_spec (by simpa using hending)
  | flush side =>
      rw [Tunnel.step]
      cases hT : opts.transform side with
      | none => exact h
      | some T =>
          refine h.buffered hT (fun _ _ hb => hb.flush) fun hending => ?_
          exact (h side).ending_spec (by simpa using hending)
  | emit side full =>
      rw [Tunnel.step]
      cases hT : opts.transform side with
      | none => exact h
      | some T => exact h.onEmit htransparent hT full
  | transformDrain side =>
      rw [Tunnel.step]
      cases hT : opts.transform side with
      | none => exact h
      | some T => exact h.setFlow ⟨(h side).begins, (h side).accounted, (h side).ending_spec⟩
  | transformEnd side =>
      rw [Tunnel.step]
      cases hT : opts.transform side with
      | none => exact h
      | some T =>
          dsimp only
          split_ifs
          · exact h.endSocket side.other
          · exact h
  | transformError side =>
      rw [Tunnel.step]
      cases hT : opts.transform side with
      | none => exact h
      | some T => exact h
  | drain side =>
      rw [Tunnel.step]
      split_ifs
      · exact h
      · cases hT : opts.transform side with
        | none => exact h.setFlow ⟨(h side).begins, (h side).accounted, (h side).ending_spec⟩
        | some T => exact h.setFlow ⟨(h side).begins, (h side).accounted, (h side).ending_spec⟩
  | finish side =>
      rw [Tunnel.step]
      split_ifs
      · exact h.unpipe side
      · exact h
  | close side => exact (h.endSocket side.other).unpipe side.other
  | error side code => exact h.onError side code
  | timeout side =>
      have hidle : Faithful opts { t with timedOut := true } := fun side =>
        ⟨(h side).begins, (h side).accounted, (h side).ending_spec⟩
      rw [Tunnel.step, onIdle]
      split_ifs
      · exact h
      · exact hidle.destroy
      · exact hidle.destroy
      · exact h

end Tunnel

end Proxinator
