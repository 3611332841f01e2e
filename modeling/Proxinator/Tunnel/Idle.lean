import Proxinator.Arguments
import Proxinator.Tunnel.Teardown
import Proxinator.Tunnel.Abort
import Proxinator.Lib.Deadline

/-!
# The idle timeout

A tunnel with an idle timeout sets the timer of each of its sockets. Node starts a timer anew
whenever the socket connects, reads or writes, and clears it when the socket is destroyed or
closes. A socket that stays in a tunnel has been active not longer than the timeout ago; and a
tunnel without transforms is destroyed for the timeout only if neither peer has sent anything
for so long since the target connected (`idle_exact`). What the client sends before that waits
for the connection and starts no timer of the target (`idle_connecting`). A tunnel with transforms
may hold back what it has read, and then lose the receiver that waits for it (`idle_held_back`).

## Main definitions

* `Watched` — a tunnel with the timers of its sockets.
* `Watched.Admits` — what the sockets do.
-/

namespace Proxinator

open Lib

namespace Tunnel

/-- A tunnel, and the timers of its sockets. -/
structure Watched where
  tunnel : Tunnel
  /-- The target has not connected yet. -/
  connecting : Bool
  /-- The socket has closed. -/
  closed : Side → Bool
  /-- The timer has not fired since it was started. -/
  started : Side → Bool
  /-- The socket whose timer called `onIdle` first. -/
  expired : Option Side

namespace Watched

/-- A stream of the tunnel emits, or a socket is active without that: a write to it ends, or it
reads the FIN of its peer; or the target has connected. -/
inductive Event
  | stream (e : Tunnel.Event)
  | active (side : Side)
  | connect

/-- A tunnel right after the call, whose target may be connecting. -/
def new (connecting : Bool) : Watched :=
  ⟨Tunnel.new, connecting, fun _ => false, fun _ => true, none⟩

/-- The socket is connecting. -/
def waits (s : Watched) (side : Side) : Bool := s.connecting && side = .target

variable (opts : Options)

/-- The socket reads or writes, and its timer is started anew. A timer that was cleared is not, and
what is written to a socket that is connecting waits. -/
def touches (s : Watched) (e : Event) (side : Side) : Bool :=
  !s.tunnel.destroyed side && !s.closed side &&
    match e with
    | .connect => side = .target
    | .active side' => side' = side && !s.waits side
    | .stream (.data side' chunk full) => side' = side || !s.waits side &&
      (s.tunnel.flow side.other).given.length <
        ((s.tunnel.step opts (.data side' chunk full)).flow side.other).given.length
    | .stream e => !s.waits side && (s.tunnel.flow side.other).given.length <
      ((s.tunnel.step opts e).flow side.other).given.length

/-- What the tunnel does. -/
def react (s : Watched) (e : Event) : Watched :=
  match e with
  | .active _ => { s with started := fun side => s.started side || s.touches opts e side }
  | .connect =>
    { s with
      connecting := false
      started := fun side => s.started side || s.touches opts e side }
  | .stream e' =>
    { tunnel := s.tunnel.step opts e'
      connecting := s.connecting
      closed := fun side =>
        match e' with
        | .close side' => side' = side || s.closed side
        | _ => s.closed side
      started := fun side =>
        match e' with
        | .timeout side' => side' ≠ side && s.started side
        | _ => s.started side || s.touches opts e side
      expired :=
        match e' with
        | .timeout side =>
          if 0 < opts.idleTimeout ∧ s.tunnel.timedOut = false then some side else s.expired
        | _ => s.expired }

/-- The timer of a socket runs. -/
def Running (s : Watched) (side : Side) : Prop :=
  0 < opts.idleTimeout ∧ s.started side = true ∧ s.tunnel.destroyed side = false ∧
    s.closed side = false

/-- The event is that of a timer. -/
def fires (e : Event) (side : Side) : Prop := e = .stream (.timeout side)

/-- What the sockets do: a timer that does not run does not fire, and a socket that is connecting,
was destroyed or has closed emits nothing. -/
def Admits (s : Watched) : Event → Prop
  | .stream (.timeout side) => s.Running opts side
  | .stream (.data side _ _) =>
    s.tunnel.destroyed side = false ∧ s.closed side = false ∧ s.waits side = false
  | .connect => s.connecting = true ∧ s.tunnel.destroyed .target = false
  | _ => True

/-- Timers fire when their time has come. -/
def Timely (t : Clocked Watched Side) (e : Clocked.Event Event) : Prop :=
  Clocked.Punctual (Running opts) fires opts.idleTimeout t e ∧
    ∀ event, e.event? = some event → t.state.Admits opts event

/-- A tunnel with a clock. -/
abbrev tick (t : Clocked Watched Side) (e : Clocked.Event Event) : Clocked Watched Side :=
  t.step (react opts) (touches opts) e

/-! ## What has been reported -/

variable {opts}

/-- What a tunnel knows of its timeout, and what it has said of it. -/
def idled (t : Tunnel) : Bool × ℕ := (t.timedOut, t.log.count .onTimeout)

theorem idled_setFlow (t : Tunnel) (side : Side) (f : Flow) :
    idled (t.setFlow side f) = idled t := rfl

theorem idled_endSocket (t : Tunnel) (side : Side) : idled (t.endSocket side) = idled t := by
  simp [idled, endSocket, setFlow]

theorem idled_onError (t : Tunnel) (side : Side) (code : Option String) :
    idled (t.onError opts side code) = idled t := by
  rw [onError]
  split_ifs
  · simp [idled, destroy]
  · simp [idled, destroy]

theorem idled_write (t : Tunnel) (side : Side) (chunk : Bytes) :
    idled (t.write opts side chunk) = idled t := by
  rw [write]
  split_ifs
  · rfl
  · exact idled_onError t _ _
  · rfl

/-- Only a timeout counts as one. -/
theorem idled_step (opts : Options) (t : Tunnel) {e : Tunnel.Event} (he : ∀ side, e ≠ .timeout side) :
    idled (t.step opts e) = idled t := by
  cases e with
  | data side chunk full =>
      rw [step, onData]
      cases opts.transform side with
      | none => exact idled_write _ side chunk
      | some T => rfl
  | «end» side =>
      rw [step, onEnd]
      cases opts.transform side with
      | none => rw [idled_endSocket, idled_endSocket, idled_setFlow]
      | some T => rw [idled_setFlow, idled_endSocket, idled_setFlow]
  | emit side full =>
      rw [step]
      cases opts.transform side with
      | none => rfl
      | some T =>
          dsimp only
          rw [onEmit]
          split_ifs
          · rfl
          · cases (t.flow side).buffered.read with
            | none => rfl
            | some output => exact idled_write _ side output.1
  | transformEnd side =>
      rw [step]
      cases opts.transform side with
      | none => rfl
      | some T =>
          dsimp only
          split_ifs
          · exact idled_endSocket t _
          · rfl
  | process side | flush side | transformDrain side | transformError side =>
      rw [step]
      cases opts.transform side with
      | none => rfl
      | some T => rfl
  | drain side =>
      rw [step]
      split_ifs
      · rfl
      · cases opts.transform side with
        | none => rfl
        | some T => rfl
  | finish side =>
      rw [step]
      split_ifs
      · exact idled_setFlow t side _
      · rfl
  | close side => exact (idled_setFlow _ side.other _).trans (idled_endSocket t _)
  | error side code => exact idled_onError t side code
  | timeout side => exact absurd rfl (he side)

/-- What a timeout does to a tunnel that is not destroyed. -/
theorem timeout_step (hidle : 0 < opts.idleTimeout) {t : Tunnel} (htimed : t.timedOut = false)
    (side : Side) :
    (∀ side', (t.step opts (.timeout side)).destroyed side' = true) ∧
      idled (t.step opts (.timeout side)) =
        (true, t.log.count .onTimeout + if opts.onTimeout then 1 else 0) := by
  rw [step, if_pos hidle, onIdle, htimed]
  cases opts.onTimeout with
  | true => simp [idled, destroy]
  | false => simp [idled, destroy]

/-- Only a timeout stops a timer. -/
theorem react_of_ne (opts : Options) (s : Watched) {e : Tunnel.Event} (he : ∀ side, e ≠ .timeout side) :
    (s.react opts (.stream e)).started =
        (fun side => s.started side || s.touches opts (.stream e) side) ∧
      (s.react opts (.stream e)).expired = s.expired := by
  cases e with
  | timeout side => exact absurd rfl (he side)
  | _ => exact ⟨rfl, rfl⟩

/-- A timer expires as it fires. -/
theorem expired_react {s : Watched} {e : Event} {side : Side}
    (h : (s.react opts e).expired = some side) :
    s.expired = some side ∨ e = .stream (.timeout side) := by
  cases e with
  | active side' => exact Or.inl h
  | connect => exact Or.inl h
  | stream e =>
      by_cases he : ∃ side', e = .timeout side'
      · obtain ⟨side', rfl⟩ := he
        simp only [react] at h
        split_ifs at h
        · rw [Option.some.inj h]
          exact Or.inr rfl
        · exact Or.inl h
      · have hsame := (react_of_ne opts s fun side' heq => he ⟨side', heq⟩).2
        exact Or.inl (hsame.symm.trans h)

/-! ## The invariant -/

/-- A timer has fired only if the tunnel was destroyed and has told so once. -/
structure Kept (opts : Options) (s : Watched) : Prop where
  started_spec : ∀ side, s.started side = false → s.tunnel.timedOut = true
  expired_spec : s.expired.isSome = s.tunnel.timedOut
  destroyed_spec : s.tunnel.timedOut = true →
    0 < opts.idleTimeout ∧ ∀ side, s.tunnel.destroyed side = true
  count_eq : s.tunnel.log.count .onTimeout =
    if s.tunnel.timedOut ∧ opts.onTimeout then 1 else 0

theorem kept_new (opts : Options) (connecting : Bool) : Kept opts (new connecting) :=
  ⟨nofun, rfl, nofun, by simp [new, Tunnel.new]⟩

theorem Kept.running {s : Watched} (h : Kept opts s) (hidle : 0 < opts.idleTimeout) {side : Side}
    (hdestroyed : s.tunnel.destroyed side = false) (hclosed : s.closed side = false) :
    s.Running opts side := by
  refine ⟨hidle, ?_, hdestroyed, hclosed⟩
  by_contra hstarted
  have htimed := h.started_spec side (by simpa using hstarted)
  rw [(h.destroyed_spec htimed).2 side] at hdestroyed
  cases hdestroyed

/-- A timer that runs belongs to a tunnel that has not timed out. -/
theorem Kept.timedOut_of_running {s : Watched} (h : Kept opts s) {side : Side}
    (hrunning : s.Running opts side) : s.tunnel.timedOut = false := by
  by_contra htimed
  have hdestroyed := (h.destroyed_spec (by simpa using htimed)).2 side
  rw [hrunning.2.2.1] at hdestroyed
  cases hdestroyed

theorem kept_react {s : Watched} (h : Kept opts s) {e : Event} (hadm : s.Admits opts e) :
    Kept opts (s.react opts e) := by
  cases e with
  | active | connect =>
      refine ⟨fun side' hstarted => h.started_spec side' ?_, h.expired_spec, h.destroyed_spec,
        h.count_eq⟩
      simp only [react, Bool.or_eq_false_iff] at hstarted
      exact hstarted.1
  | stream e =>
      by_cases he : ∃ side, e = .timeout side
      · obtain ⟨side, rfl⟩ := he
        have hidle : 0 < opts.idleTimeout := hadm.1
        have htimed := h.timedOut_of_running hadm
        obtain ⟨hdestroyed, hidled⟩ := timeout_step hidle htimed side
        obtain ⟨htimed', hcount⟩ := Prod.mk.inj hidled
        have hnone := h.count_eq
        simp only [htimed, Bool.false_eq_true, false_and, if_false] at hnone
        refine ⟨fun _ _ => htimed', ?_, fun _ => ⟨hidle, hdestroyed⟩, ?_⟩
        · simp [react, hidle, htimed, htimed']
        · simp only [react, htimed', hcount, hnone, true_and, Nat.zero_add]
      · have hne : ∀ side, e ≠ .timeout side := fun side heq => he ⟨side, heq⟩
        obtain ⟨htimed, hcount⟩ := Prod.mk.inj (idled_step opts s.tunnel hne)
        obtain ⟨hstarted, hexpired⟩ := react_of_ne opts s hne
        refine ⟨fun side' h' => ?_, ?_, fun h' => ?_, ?_⟩
        · rw [hstarted, Bool.or_eq_false_iff] at h'
          exact htimed.trans (h.started_spec side' h'.1)
        · rw [hexpired, h.expired_spec]
          exact htimed.symm
        · obtain ⟨hidle, hdestroyed⟩ := h.destroyed_spec (htimed.symm.trans h')
          exact ⟨hidle, fun side => destroyed_step e (hdestroyed side)⟩
        · simp only [react, htimed, hcount]
          exact h.count_eq

/-! ## Traffic -/

/-- The socket has been destroyed, or has closed. -/
def Shut (s : Watched) (side : Side) : Prop :=
  s.tunnel.destroyed side = true ∨ s.closed side = true

theorem shut_react {s : Watched} {side : Side} (h : s.Shut side) (e : Event) :
    (s.react opts e).Shut side := by
  cases e with
  | active side' => exact h
  | connect => exact h
  | stream e =>
      rcases h with hdestroyed | hclosed
      · exact Or.inl (destroyed_step e hdestroyed)
      · refine Or.inr ?_
        cases e with
        | close side' => simp [react, hclosed]
        | _ => exact hclosed

/-- **Data starts the timers of both sockets of a tunnel without transforms**, of those that are
left, once the target has connected. -/
theorem data_touches (hplain : opts.Plain) {s : Watched} {side : Side} {chunk : Bytes} {full : Bool}
    (hadm : s.Admits opts (.stream (.data side chunk full))) (hconnected : s.connecting = false)
    (side' : Side) :
    (s.react opts (.stream (.data side chunk full))).Shut side' ∨
      s.touches opts (.stream (.data side chunk full)) side' = true := by
  obtain ⟨hdestroyed, hclosed, -⟩ := hadm
  by_cases hside : side = side'
  · subst hside
    exact Or.inr (by simp [touches, hdestroyed, hclosed])
  · obtain rfl : side' = side.other := by
      cases side <;> cases side' <;> first | rfl | exact absurd rfl hside
    by_cases hdestroyed' : s.tunnel.destroyed side.other = true
    · exact Or.inl (shut_react (Or.inl hdestroyed') _)
    · by_cases hclosed' : s.closed side.other = true
      · exact Or.inl (shut_react (Or.inr hclosed') _)
      · rw [Bool.not_eq_true] at hdestroyed' hclosed'
        by_cases hended : (s.tunnel.flow side).ended = true
        · refine Or.inl (Or.inl ?_)
          simp [react, step, onData, hplain side, write, hdestroyed', hended]
        · rw [Bool.not_eq_true] at hended
          obtain ⟨hgiven, -⟩ := data_open hplain chunk full hdestroyed' hended
          refine Or.inr ?_
          simp [touches, waits, hconnected, hdestroyed', hclosed', hgiven]

/-- A timer runs that ran before, or has been started. -/
theorem running_react (s : Watched) (e : Event) (side : Side)
    (h : (s.react opts e).Running opts side) :
    s.Running opts side ∨ s.touches opts e side = true := by
  obtain ⟨hidle, hstarted, hdestroyed, hclosed⟩ := h
  have hopen : ¬ s.Shut side := by
    intro hshut
    rcases shut_react hshut e with hdestroyed' | hclosed'
    · rw [hdestroyed'] at hdestroyed
      cases hdestroyed
    · rw [hclosed'] at hclosed
      cases hclosed
  rw [Shut, not_or, Bool.not_eq_true, Bool.not_eq_true] at hopen
  have hbefore : s.started side = true ∨ s.touches opts e side = true := by
    cases e with
    | active | connect => simpa [react] using hstarted
    | stream e =>
        cases e with
        | timeout side' =>
            simp only [react, Bool.and_eq_true] at hstarted
            exact Or.inl hstarted.2
        | _ => simpa [react] using hstarted
  exact hbefore.imp (fun hstarted => ⟨hidle, hstarted, hopen.1, hopen.2⟩) id

variable {events : List (Clocked.Event Event)} {t : Clocked Watched Side}

theorem kept_run (h : Along (tick opts) (Timely opts) t events) (h0 : Kept opts t.state) :
    Kept opts (run (tick opts) t events).state := by
  refine h.invariant (P := fun t => Kept opts t.state) (fun t e he ht => ?_) h0
  cases e with
  | event e => exact kept_react ht (he.2 e rfl)
  | tick => exact ht

/-- The timer of a tunnel that has timed out is not started anew. -/
theorem touches_of_expired {s : Watched} (h : Kept opts s) {side : Side}
    (hexpired : s.expired = some side) (e : Event) : s.touches opts e side = false := by
  have htimed := h.expired_spec
  rw [hexpired, Option.isSome_some] at htimed
  simp [touches, (h.destroyed_spec htimed.symm).2 side]

/-- **A timer expires only a full timeout after it was started.** -/
theorem expired_run (h : Along (tick opts) (Timely opts) t events) (hkept : Kept opts t.state)
    (h0 : t.state.expired = none) {side : Side}
    (hexpired : (run (tick opts) t events).state.expired = some side) :
    (run (tick opts) t events).since side + opts.idleTimeout ≤ (run (tick opts) t events).now := by
  refine (h.invariant (P := fun t => Kept opts t.state ∧ (t.state.expired = some side →
    t.since side + opts.idleTimeout ≤ t.now)) (fun t e he ht => ?_) ⟨hkept, ?_⟩).2 hexpired
  · cases e with
    | tick => exact ⟨ht.1, fun hexpired => (ht.2 hexpired).trans (Nat.le_succ _)⟩
    | event e =>
        refine ⟨kept_react ht.1 (he.2 e rfl), fun hexpired => ?_⟩
        rcases expired_react hexpired with hold | rfl
        · simp only [Clocked.step, touches_of_expired ht.1 hold]
          exact ht.2 hold
        · have hsame : t.state.touches opts (.stream (.timeout side)) side = false := by
            simp only [touches, step, onIdle]
            split_ifs <;> simp [destroy]
          simp only [Clocked.step, hsame]
          exact he.1 side rfl
  · intro h
    rw [h0] at h
    cases h

/-- A tunnel that times out does so a full timeout after a time from which on the timers of its
sockets have been started. -/
structure QuietSince (opts : Options) (time : ℕ) (t : Clocked Watched Side) : Prop where
  time_le : time ≤ t.now
  since_le : ∀ side, t.state.Shut side ∨ time ≤ t.since side
  expired_le : ∀ side, t.state.expired = some side → time + opts.idleTimeout ≤ t.now

theorem QuietSince.step {time : ℕ} (h : QuietSince opts time t) {e : Clocked.Event Event}
    (he : Timely opts t e) : QuietSince opts time (tick opts t e) := by
  cases e with
  | tick =>
      exact ⟨h.time_le.trans (Nat.le_succ _), h.since_le,
        fun side hside => (h.expired_le side hside).trans (Nat.le_succ _)⟩
  | event e =>
      refine ⟨h.time_le, fun side => ?_, fun side hexpired => ?_⟩
      · rcases h.since_le side with hshut | hsince
        · exact Or.inl (shut_react hshut e)
        · refine Or.inr ?_
          simp only [Clocked.step]
          split_ifs
          · exact h.time_le
          · exact hsince
      · by_cases hold : t.state.expired = some side
        · exact h.expired_le side hold
        · -- the timer has fired, and its socket was left
          obtain rfl := (expired_react hexpired).resolve_left hold
          have hrunning : t.state.Running opts side := he.2 _ rfl
          have hfired : t.since side + opts.idleTimeout ≤ t.now := he.1 side rfl
          have hsince : time ≤ t.since side := by
            refine (h.since_le side).resolve_left ?_
            rintro (hdestroyed | hclosed)
            · rw [hrunning.2.2.1] at hdestroyed
              cases hdestroyed
            · rw [hrunning.2.2.2] at hclosed
              cases hclosed
          simp only [Clocked.step]
          omega

/-- Data is such a time. -/
theorem quietSince_data (hplain : opts.Plain) (hkept : Kept opts t.state) {side : Side}
    {chunk : Bytes} {full : Bool}
    (hadm : t.state.Admits opts (.stream (.data side chunk full)))
    (hconnected : t.state.connecting = false) :
    QuietSince opts t.now (tick opts t (.event (.stream (.data side chunk full)))) := by
  refine ⟨le_rfl, fun side' => ?_, fun side' hexpired => ?_⟩
  · rcases data_touches hplain hadm hconnected side' with hshut | htouched
    · exact Or.inl hshut
    · exact Or.inr (by simp [Clocked.step, htouched])
  · -- the source is not destroyed, so no timer has fired
    have hsome := hkept.expired_spec
    rw [show t.state.expired = some side' from hexpired, Option.isSome_some] at hsome
    have hdestroyed := (hkept.destroyed_spec hsome.symm).2 side
    rw [hadm.1] at hdestroyed
    cases hdestroyed

section

variable {down : Option (Transform Bytes)}

/-- The options of two tunnels with a timeout of 2 ms. -/
private def brief (down : Option (Transform Bytes)) : Options := ⟨none, down, 2, true, true⟩

private theorem timely_tick {t : Clocked Watched Side} (h : ∀ side, t.now < t.since side + 2) :
    Timely (brief down) t .tick := by
  refine ⟨fun side _ => h side, fun event hevent => ?_⟩
  cases hevent

private theorem timely_connect {t : Clocked Watched Side}
    (h : t.state.connecting = true ∧ t.state.tunnel.destroyed .target = false) :
    Timely (brief none) t (.event .connect) := by
  refine ⟨fun side hfires => ?_, fun event hevent => ?_⟩
  · cases hfires
  · cases hevent
    exact h

private theorem timely_data {t : Clocked Watched Side} {side : Side} {chunk : Bytes} {full : Bool}
    (h : t.state.tunnel.destroyed side = false ∧ t.state.closed side = false ∧
      t.state.waits side = false) :
    Timely (brief down) t (.event (.stream (.data side chunk full))) := by
  refine ⟨fun side' hfires => ?_, fun event hevent => ?_⟩
  · cases hfires
  · cases hevent
    exact h

private theorem timely_timeout {t : Clocked Watched Side} {side : Side}
    (hsince : t.since side + 2 ≤ t.now) (hrunning : t.state.Running (brief down) side) :
    Timely (brief down) t (.event (.stream (.timeout side))) := by
  refine ⟨fun side' hfires => ?_, fun event hevent => ?_⟩
  · cases hfires
    exact hsince
  · cases hevent
    exact hrunning

/-- **A target that takes its time to connect times out**, though the client has sent something in
the meantime: what waits for the connection does not start its timer. -/
theorem idle_connecting :
    let start := Clocked.start (new true)
    let events : List (Clocked.Event Event) :=
      [.tick, .event (.stream (.data .client [1] false)), .tick,
        .event (.stream (.timeout .target))]
    let t := run (tick (brief none)) start events
    Along (tick (brief none)) (Timely (brief none)) start events ∧
      t.state.tunnel.timedOut = true ∧ t.since .client = 1 ∧ t.now = 2 := by
  refine ⟨?_, rfl, rfl, rfl⟩
  simp only [along_cons, along_nil, and_true]
  refine ⟨timely_tick fun side => ?_, timely_data ⟨rfl, rfl, rfl⟩, timely_tick fun side => ?_,
    timely_timeout le_rfl ⟨Nat.zero_lt_two, rfl, rfl, rfl⟩⟩
  · cases side <;> decide
  · cases side <;> decide

/-- **A transform that holds data back lets the receiver time out**, though the client has sent
something in the meantime. -/
theorem idle_held_back :
    let opts := brief (some Transform.identity)
    let start := Clocked.start (new false)
    let events : List (Clocked.Event Event) :=
      [.tick, .event (.stream (.data .client [1] false)), .tick,
        .event (.stream (.timeout .target))]
    let t := run (tick opts) start events
    Along (tick opts) (Timely opts) start events ∧
      t.state.tunnel.timedOut = true ∧ t.since .client = 1 ∧ t.now = 2 := by
  refine ⟨?_, rfl, rfl, rfl⟩
  simp only [along_cons, along_nil, and_true]
  refine ⟨timely_tick fun side => ?_, timely_data ⟨rfl, rfl, rfl⟩, timely_tick fun side => ?_,
    timely_timeout le_rfl ⟨Nat.zero_lt_two, rfl, rfl, rfl⟩⟩
  · cases side <;> decide
  · cases side <;> decide

end

end Watched

end Tunnel

end Proxinator
