import Proxinator.Tunnel.HalfClose

/-!
# The teardown of a tunnel

A tunnel without transforms reacts to the events of its sockets' life with calls that depend
on the event and on whether it has timed out before, and on nothing else (`step_log`). So
what the tunnel calls over a run is read off the events one by one: it ends a socket when the
other one ends or closes, destroys both on an error or an idle timeout, and reports each.

## Main results

* `step_log` — the calls on one event.
* `teardown` — all that a run of such events can do.
-/

namespace Proxinator

open Lib

namespace Tunnel

/-- An event of a socket's life, not of its data. -/
def Event.IsTeardown : Event → Prop
  | .end _ | .close _ | .error _ _ | .timeout _ => True
  | _ => False

/-- A timeout of a tunnel that has an idle timeout. -/
def Event.timesOut (opts : Options) : Event → Bool
  | .timeout _ => 0 < opts.idleTimeout
  | _ => false

/-- An error, or an idle timeout. -/
def Event.Aborts (opts : Options) (e : Event) : Prop :=
  (∃ side code, e = .error side code) ∨ e.timesOut opts = true

/-- The error that an event has to report. -/
def Event.reportable : Event → Option (Side × Option String)
  | .error side code => if isBenign code then none else some (side, code)
  | _ => none

/-- The error that a call reports. -/
def Call.reported : Call → Option (Side × Option String)
  | .onError side code => some (side, code)
  | _ => none

/-- The calls that a tunnel makes on an event. -/
def called (opts : Options) (t : Tunnel) (e : Event) : List Call :=
  (t.step opts e).log.drop t.log.length

/-- What a socket emits from now on is written to the other one. -/
def Carries (opts : Options) (t : Tunnel) (side : Side) : Prop :=
  ∀ chunks : List (Bytes × Bool),
    ((run (step opts) t (chunks.map fun c => .data side c.1 c.2)).flow side).given =
      (t.flow side).given ++ chunks.map Prod.fst

/-! ## One event -/

/-- What a tunnel without transforms calls on an event of its sockets' life. -/
def reaction (opts : Options) (timedOut : Bool) : Event → List Call
  -- the tunnel's own handler, and `pipe`'s
  | .end side => [.endSocket side.other, .endSocket side.other]
  | .close side => [.endSocket side.other]
  | .error side code =>
    (if !isBenign code && opts.onError then [.onError side code] else []) ++
      [.destroy .target, .destroy .client]
  | .timeout _ =>
    if 0 < opts.idleTimeout ∧ timedOut = false then
      [.destroy .target, .destroy .client] ++ if opts.onTimeout then [.onTimeout] else []
    else []
  | _ => []

variable {opts : Options}

/-- A tunnel without transforms. -/
def Options.Plain (opts : Options) : Prop := ∀ side, opts.transform side = none

/-- **The calls on one event.** -/
theorem step_log (hplain : opts.Plain) {e : Event} (he : e.IsTeardown) (t : Tunnel) :
    (t.step opts e).log = t.log ++ reaction opts t.timedOut e := by
  cases e with
  | «end» side => simp [step, onEnd, hplain side, endSocket, setFlow, reaction]
  | close side => simp [step, endSocket, reaction]
  | error side code =>
      rw [step, onError, reaction]
      split_ifs <;> simp [destroy]
  | timeout side =>
      rw [step, onIdle, reaction]
      by_cases hidle : 0 < opts.idleTimeout
      · cases htimed : t.timedOut with
        | true => simp [hidle]
        | false =>
            simp only [hidle, if_true, Bool.false_eq_true, if_false, and_self]
            split_ifs <;> simp [destroy]
      · simp [hidle]
  | _ => exact he.elim

theorem called_eq (hplain : opts.Plain) {e : Event} (he : e.IsTeardown) (t : Tunnel) :
    called opts t e = reaction opts t.timedOut e := by
  rw [called, step_log hplain he, List.drop_left]

/-- Whether the tunnel has timed out, after one event. -/
theorem step_timedOut (hplain : opts.Plain) {e : Event} (he : e.IsTeardown) (t : Tunnel) :
    (t.step opts e).timedOut = (t.timedOut || e.timesOut opts) := by
  cases e with
  | «end» side => simp [step, onEnd, hplain side, endSocket, setFlow, Event.timesOut]
  | close side => simp [step, endSocket, setFlow, Event.timesOut]
  | error side code =>
      rw [step, onError]
      split_ifs <;> simp [destroy, Event.timesOut]
  | timeout side =>
      rw [step, onIdle, Event.timesOut]
      by_cases hidle : 0 < opts.idleTimeout
      · cases htimed : t.timedOut with
        | true => simp [hidle, htimed]
        | false =>
            simp only [hidle, if_true, Bool.false_eq_true, if_false]
            split_ifs <;> simp [destroy]
      · simp [hidle]
  | _ => exact he.elim

/-- A socket is destroyed by the calls to `destroy` only. -/
theorem step_destroyed (hplain : opts.Plain) {e : Event} (he : e.IsTeardown) (t : Tunnel)
    (side : Side) :
    (t.step opts e).destroyed side = true ↔
      t.destroyed side = true ∨ .destroy side ∈ reaction opts t.timedOut e := by
  cases e with
  | «end» side' => simp [step, onEnd, hplain side', reaction]
  | close side' => simp [step, reaction]
  | error side' code =>
      rw [step, onError, reaction]
      cases side <;> split_ifs <;> simp [destroy]
  | timeout side' =>
      rw [step, onIdle, reaction]
      by_cases hidle : 0 < opts.idleTimeout
      · cases htimed : t.timedOut with
        | true => simp [hidle]
        | false =>
            simp only [hidle, if_true, Bool.false_eq_true, if_false, and_self]
            cases side <;> split_ifs <;> simp [destroy]
      · simp [hidle]
  | _ => exact he.elim

/-- Only the end of its source, a close or an error changes a direction. -/
theorem step_flow (hplain : opts.Plain) {e : Event} (he : e.IsTeardown) (t : Tunnel) {side : Side}
    (hend : e ≠ .end side) (hclose : ∀ side', e ≠ .close side')
    (herror : ∀ side' code, e ≠ .error side' code) :
    (t.step opts e).flow side = t.flow side := by
  cases e with
  | «end» side' =>
      have hside : side ≠ side' := fun h => hend (h ▸ rfl)
      simp [step, onEnd, hplain side', Function.update_of_ne hside]
  | close side' => exact absurd rfl (hclose side')
  | error side' code => exact absurd rfl (herror side' code)
  | timeout side' =>
      rw [step, onIdle]
      split_ifs <;> rfl
  | _ => exact he.elim

/-- **The calls to `destroy` are made together**, on an error or an idle timeout. -/
theorem destroy_mem_reaction {e : Event} {timedOut : Bool} {side : Side}
    (h : .destroy side ∈ reaction opts timedOut e) :
    e.Aborts opts ∧ ∀ side', .destroy side' ∈ reaction opts timedOut e := by
  cases e with
  | error side' code =>
      refine ⟨Or.inl ⟨side', code, rfl⟩, fun side'' => ?_⟩
      cases side'' <;> simp [reaction]
  | timeout side' =>
      rw [reaction] at h ⊢
      split_ifs at h ⊢ with hgo hreport
      · exact ⟨Or.inr (by simpa [Event.timesOut] using hgo.1), fun side'' => by
          cases side'' <;> simp⟩
      · exact ⟨Or.inr (by simpa [Event.timesOut] using hgo.1), fun side'' => by
          cases side'' <;> simp⟩
      · cases h
  | _ => simp [reaction] at h

/-- **No event undoes a destruction.** -/
theorem destroyed_step (e : Event) {t : Tunnel} {side : Side} (h : t.destroyed side = true) :
    (t.step opts e).destroyed side = true := by
  have hwrite : ∀ (t : Tunnel) (side' : Side) (chunk : Bytes), t.destroyed side = true →
      (t.write opts side' chunk).destroyed side = true := by
    intro t side' chunk h
    rw [write]
    split_ifs
    · exact h
    · rfl
    · exact h
  cases e with
  | data side' chunk full =>
      rw [step, onData]
      split
      · exact h
      · exact hwrite _ _ _ h
  | emit side' full =>
      rw [step]
      split
      · rw [onEmit]
        split_ifs
        · exact h
        · split
          · exact hwrite _ _ _ h
          · exact h
      · exact h
  | error side' code => rfl
  | timeout side' =>
      rw [step, onIdle]
      split_ifs <;> first | exact h | rfl
  | «end» side' =>
      rw [step, onEnd]
      split <;> exact h
  | transformEnd side' =>
      rw [step]
      split
      · split_ifs <;> exact h
      · exact h
  | process side' | flush side' | transformError side' | transformDrain side' =>
      rw [step]
      split <;> exact h
  | drain side' =>
      rw [step]
      split_ifs
      · exact h
      · split <;> exact h
  | finish side' =>
      rw [step]
      split_ifs <;> exact h
  | close side' => exact h

/-! ## What a direction carries -/

/-- A chunk is written to a socket that is neither destroyed nor ended, -/
theorem data_open (hplain : opts.Plain) {t : Tunnel} {side : Side} (chunk : Bytes) (full : Bool)
    (hdestroyed : t.destroyed side.other = false) (hended : (t.flow side).ended = false) :
    ((t.step opts (.data side chunk full)).flow side).given = (t.flow side).given ++ [chunk] ∧
      (t.step opts (.data side chunk full)).destroyed side.other = false ∧
      ((t.step opts (.data side chunk full)).flow side).ended = false := by
  simp [step, onData, hplain side, write_eq, hdestroyed, hended]

/-- and to no other. -/
theorem data_shut (hplain : opts.Plain) {t : Tunnel} {side : Side} (chunk : Bytes) (full : Bool)
    (h : ¬ (t.destroyed side.other = false ∧ (t.flow side).ended = false)) :
    ((t.step opts (.data side chunk full)).flow side).given = (t.flow side).given := by
  simp only [step, onData, hplain side, write, setFlow_destroyed, setFlow_flow,
    Function.update_self]
  split_ifs with hdestroyed hended
  · simp
  · rw [onError]
    split_ifs <;> simp [destroy]
  · exact absurd ⟨by simpa using hdestroyed, by simpa using hended⟩ h

/-- **A socket's data is written to the other one exactly if that is neither destroyed nor
ended.** -/
theorem carries_iff (hplain : opts.Plain) (t : Tunnel) (side : Side) :
    Carries opts t side ↔ t.destroyed side.other = false ∧ (t.flow side).ended = false := by
  constructor
  · intro h
    by_contra hshut
    have hone : ((t.step opts (.data side [] false)).flow side).given =
        (t.flow side).given ++ [[]] := h [([], false)]
    rw [data_shut hplain [] false hshut] at hone
    simp at hone
  · rintro ⟨hdestroyed, hended⟩ chunks
    induction chunks generalizing t with
    | nil => simp
    | cons c chunks ih =>
        obtain ⟨hgiven, hdestroyed', hended'⟩ := data_open hplain c.1 c.2 hdestroyed hended
        rw [List.map_cons, run_cons, ih _ hdestroyed' hended', hgiven]
        simp

/-! ## Runs -/

/-- **The teardown of a tunnel over a run** of events of its sockets' life. -/
structure Teardown (opts : Options) (events : List Event) : Prop where
  /-- The end or the close of a socket causes `end()` on the other one, and nothing else. -/
  closes : ∀ pre e side, pre ++ [e] <+: events → e = .end side ∨ e = .close side →
    (∀ call ∈ called opts (run (step opts) new pre) e, call = .endSocket side.other) ∧
      .endSocket side.other ∈ called opts (run (step opts) new pre) e ∧
      (run (step opts) new (pre ++ [e])).destroyed = (run (step opts) new pre).destroyed
  /-- After the end of a socket the other one's data goes on being written to it. -/
  halfClose : ∀ pre side, pre ++ [.end side] <+: events →
    Carries opts (run (step opts) new pre) side.other →
    Carries opts (run (step opts) new (pre ++ [.end side])) side.other
  /-- Without an error or an idle timeout no socket is destroyed, -/
  undestroyed : (∀ e ∈ events, ¬ e.Aborts opts) →
    ∀ side, (run (step opts) new events).destroyed side = false
  /-- and what a socket emits is written to the other one until one of them closes, or it ends
  itself. -/
  piped : (∀ e ∈ events, ¬ e.Aborts opts) → ∀ side, .end side ∉ events →
    (∀ side', .close side' ∉ events) → Carries opts (run (step opts) new events) side
  /-- `destroy` is called in response to an error or an idle timeout only, and then on both
  sockets. -/
  destroys : ∀ pre e side, pre ++ [e] <+: events →
    .destroy side ∈ called opts (run (step opts) new pre) e →
    e.Aborts opts ∧ ∀ side', .destroy side' ∈ called opts (run (step opts) new pre) e ∧
      (run (step opts) new (pre ++ [e])).destroyed side' = true
  /-- `onTimeout` is called at most once. -/
  timeout_once : (run (step opts) new events).log.count .onTimeout ≤ 1
  /-- Every error and the first idle timeout destroys both sockets, -/
  aborts : ∀ pre e, pre ++ [e] <+: events → e.Aborts opts →
    (e.timesOut opts = true → ∀ e' ∈ pre, e'.timesOut opts = false) →
    ∀ side, .destroy side ∈ called opts (run (step opts) new pre) e ∧
      (run (step opts) new (pre ++ [e])).destroyed side = true
  /-- and the timeout calls `onTimeout`, if it was given. -/
  timeout_called : ∀ pre e, pre ++ [e] <+: events → e.timesOut opts = true →
    (∀ e' ∈ pre, e'.timesOut opts = false) → opts.onTimeout = true →
    .onTimeout ∈ called opts (run (step opts) new pre) e
  /-- It is called only after both sockets were destroyed. -/
  timeout_after : ∀ pre post, (run (step opts) new events).log = pre ++ .onTimeout :: post →
    ∀ side, .destroy side ∈ pre
  /-- `onError`, if it was given, is called for exactly the errors that are not benign. -/
  errors : (run (step opts) new events).log.filterMap Call.reported =
    if opts.onError then events.filterMap Event.reportable else []

/-- The idle timeout is reported right after the two calls to `destroy`. -/
theorem onTimeout_mem_reaction {e : Event} {timedOut : Bool}
    (h : .onTimeout ∈ reaction opts timedOut e) :
    e.timesOut opts = true ∧ timedOut = false ∧
      reaction opts timedOut e = [.destroy .target, .destroy .client, .onTimeout] := by
  cases e with
  | timeout side =>
      rw [reaction] at h ⊢
      split_ifs at h ⊢ with hgo hreport
      · exact ⟨by simpa [Event.timesOut] using hgo.1, hgo.2, rfl⟩
      · simp at h
      · cases h
  | error side code =>
      rw [reaction] at h
      split_ifs at h <;> simp at h
  | _ => simp [reaction] at h

/-- **The tunnel has not timed out, or reported that at most once**, right after it destroyed
both sockets. -/
theorem timeouts_run (hplain : opts.Plain) {events : List Event}
    (h : ∀ e ∈ events, e.IsTeardown) :
    let t := run (step opts) new events
    .onTimeout ∉ t.log ∨
      t.timedOut = true ∧ ∃ before after,
        t.log = before ++ ([.destroy .target, .destroy .client] ++ .onTimeout :: after) ∧
        .onTimeout ∉ before ∧ .onTimeout ∉ after := by
  induction events using List.reverseRecOn with
  | nil => exact Or.inl (by simp [new])
  | append_singleton events e ih =>
      have he : e.IsTeardown := h e (by simp)
      intro t
      have ht : t = (run (step opts) new events).step opts e := run_concat events e
      rw [ht, step_log hplain he, step_timedOut hplain he]
      by_cases hnew : .onTimeout ∈ reaction opts (run (step opts) new events).timedOut e
      · -- it is called now, so it was not before
        obtain ⟨htimesOut, hnot, hreaction⟩ := onTimeout_mem_reaction hnew
        rw [hreaction]
        rcases ih fun e' he' => h e' (by simp [he']) with hnone | ⟨htimed, -⟩
        · exact Or.inr ⟨by simp [htimesOut], _, [], rfl, hnone, by simp⟩
        · rw [hnot] at htimed
          cases htimed
      · rcases ih fun e' he' => h e' (by simp [he']) with
          hnone | ⟨htimed, before, after, hlog, hbefore, hafter⟩
        · exact Or.inl (by simp [hnone, hnew])
        · refine Or.inr ⟨by simp [htimed], before,
            after ++ reaction opts (run (step opts) new events).timedOut e, ?_, hbefore, ?_⟩
          · rw [hlog]
            simp
          · simp [hafter, hnew]

/-- A tunnel has timed out once one of its sockets has. -/
theorem timedOut_run (hplain : opts.Plain) {events : List Event}
    (h : ∀ e ∈ events, e.IsTeardown) :
    (run (step opts) new events).timedOut = events.any (Event.timesOut opts) := by
  induction events using List.reverseRecOn with
  | nil => rfl
  | append_singleton events e ih =>
      rw [run_concat, step_timedOut hplain (h e (by simp)), ih fun e' he' => h e' (by simp [he'])]
      simp

/-- What aborts a tunnel that has not timed out destroys both sockets. -/
theorem destroy_mem_of_aborts {e : Event} (h : e.Aborts opts) {timedOut : Bool}
    (hfirst : e.timesOut opts = true → timedOut = false) (side : Side) :
    .destroy side ∈ reaction opts timedOut e := by
  rcases h with ⟨side', code, rfl⟩ | htimes
  · cases side <;> simp [reaction]
  · cases e with
    | timeout side' =>
        have hidle : 0 < opts.idleTimeout := by simpa [Event.timesOut] using htimes
        rw [reaction, if_pos ⟨hidle, hfirst htimes⟩]
        cases side <;> simp
    | _ => cases htimes

/-- The errors reported on one event. -/
theorem reported_reaction {e : Event} (timedOut : Bool) :
    (reaction opts timedOut e).filterMap Call.reported =
      if opts.onError then e.reportable.toList else [] := by
  cases e with
  | error side code =>
      rw [reaction, Event.reportable]
      cases isBenign code <;> cases opts.onError <;> simp [Call.reported]
  | timeout side =>
      rw [reaction]
      split_ifs <;> simp [Call.reported, Event.reportable]
  | _ => simp [reaction, Call.reported, Event.reportable]

/-- The errors reported over a run. -/
theorem reported_run (hplain : opts.Plain) {events : List Event}
    (h : ∀ e ∈ events, e.IsTeardown) :
    (run (step opts) new events).log.filterMap Call.reported =
      if opts.onError then events.filterMap Event.reportable else [] := by
  induction events using List.reverseRecOn with
  | nil => simp [new]
  | append_singleton events e ih =>
      rw [run_concat, step_log hplain (h e (by simp)), List.filterMap_append,
        ih fun e' he' => h e' (by simp [he']), reported_reaction]
      cases opts.onError
      · simp
      · cases hreport : e.reportable <;> simp [hreport]

/-- No socket is destroyed in a run that aborts nothing. -/
theorem undestroyed_run (hplain : opts.Plain) {events : List Event}
    (h : ∀ e ∈ events, e.IsTeardown) (habort : ∀ e ∈ events, ¬ e.Aborts opts) (side : Side) :
    (run (step opts) new events).destroyed side = false := by
  have halong : Along (step opts) (fun _ e => e.IsTeardown ∧ ¬ e.Aborts opts) new events :=
    Along.of_forall fun e he _ => ⟨h e he, habort e he⟩
  refine halong.invariant (P := fun t => t.destroyed side = false) ?_ rfl
  rintro t e ⟨hteardown, hkeeps⟩ hold
  rw [← Bool.not_eq_true, step_destroyed hplain hteardown, hold]
  rintro (hdestroyed | hmem)
  · cases hdestroyed
  · exact hkeeps (destroy_mem_reaction hmem).1

/-- **The teardown of a tunnel**, for every sequence of events of its sockets' life. -/
theorem teardown (opts : Options) (hplain : opts.Plain) (events : List Event)
    (h : ∀ e ∈ events, e.IsTeardown) : Teardown opts events := by
  have hof : ∀ {pre e}, pre ++ [e] <+: events → e.IsTeardown := by
    intro pre e hpre
    exact h e (hpre.subset (by simp))
  constructor
  · intro pre e side hpre he
    rw [called_eq hplain (hof hpre), run_concat]
    rcases he with rfl | rfl
    · exact ⟨by simp [reaction], by simp [reaction], by simp [step, onEnd, hplain side]⟩
    · exact ⟨by simp [reaction], by simp [reaction], by simp [step]⟩
  · intro pre side hpre hcarries
    rw [carries_iff hplain] at hcarries ⊢
    have hother : Event.end side ≠ .end side.other := by cases side <;> simp [Side.other]
    rw [run_concat, step_flow hplain (hof hpre) _ hother (by simp) (by simp)]
    exact ⟨by simpa [step, onEnd, hplain side] using hcarries.1, hcarries.2⟩
  · exact fun habort side => undestroyed_run hplain h habort side
  · intro habort side hend hclose
    have hflow : (run (step opts) new events).flow side = new.flow side := by
      refine run_component (fun t => t.flow side) fun e he t =>
        step_flow hplain (h e he) t ?_ ?_ ?_
      · rintro rfl
        exact hend he
      · rintro side' rfl
        exact hclose side' he
      · rintro side' code rfl
        exact habort _ he (Or.inl ⟨side', code, rfl⟩)
    rw [carries_iff hplain, hflow]
    exact ⟨undestroyed_run hplain h habort side.other, rfl⟩
  · intro pre e side hpre hmem
    rw [called_eq hplain (hof hpre)] at hmem ⊢
    obtain ⟨habort, hboth⟩ := destroy_mem_reaction hmem
    refine ⟨habort, fun side' => ⟨hboth side', ?_⟩⟩
    rw [run_concat, step_destroyed hplain (hof hpre)]
    exact Or.inr (hboth side')
  · rcases timeouts_run hplain h with hnone | ⟨-, before, after, hlog, hbefore, hafter⟩
    · rw [List.count_eq_zero_of_not_mem hnone]
      exact Nat.zero_le 1
    · rw [hlog]
      simp [List.count_append, List.count_eq_zero_of_not_mem hbefore,
        List.count_eq_zero_of_not_mem hafter]
  · intro pre e hpre habort hfirst side
    have hof' : ∀ e' ∈ pre, e'.IsTeardown := fun e' he' => h e' (hpre.subset (by simp [he']))
    have hidle : e.timesOut opts = true → (run (step opts) new pre).timedOut = false :=
      fun htimes => by simpa [timedOut_run hplain hof'] using hfirst htimes
    have hmem := destroy_mem_of_aborts habort hidle side
    rw [called_eq hplain (hof hpre), run_concat, step_destroyed hplain (hof hpre)]
    exact ⟨hmem, Or.inr hmem⟩
  · intro pre e hpre htimes hfirst hreport
    have hof' : ∀ e' ∈ pre, e'.IsTeardown := fun e' he' => h e' (hpre.subset (by simp [he']))
    have hnot : (run (step opts) new pre).timedOut = false := by
      simpa [timedOut_run hplain hof'] using hfirst
    cases e with
    | timeout side =>
        have hidle : 0 < opts.idleTimeout := by simpa [Event.timesOut] using htimes
        rw [called_eq hplain (hof hpre), reaction, if_pos ⟨hidle, hnot⟩, if_pos hreport]
        simp
    | _ => cases htimes
  · intro pre post hsplit side
    rcases timeouts_run hplain h with hnone | ⟨-, before, after, hlog, hbefore, hafter⟩
    · exact absurd (by rw [hsplit]; simp) hnone
    · rw [hlog, ← List.append_assoc] at hsplit
      obtain ⟨rfl, -⟩ := (List.append_cons_inj_of_notMem (by simpa using hbefore) hafter).mp hsplit
      cases side <;> simp
  · exact reported_run hplain h

/-- A target that ends, then a reset of it, and a timeout of either socket. -/
def resetAndTimeouts : List Event :=
  [.end .target, .error .target (some "ECONNRESET"), .timeout .client, .timeout .target]

theorem teardown_resetAndTimeouts : Teardown ⟨none, none, 60000, true, true⟩ resetAndTimeouts :=
  teardown ⟨none, none, 60000, true, true⟩ (by intro side; cases side <;> rfl) resetAndTimeouts
    (by simp [resetAndTimeouts, Event.IsTeardown])

end Tunnel

end Proxinator
