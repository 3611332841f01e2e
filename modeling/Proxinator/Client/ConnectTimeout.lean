import Proxinator.Client.Connecting
import Proxinator.Tunnel.Teardown
import Mathlib.Algebra.Order.Ring.Rat
import Mathlib.Tactic.Linarith

/-!
# Connect timeout and idle timeout

The reverse client and the tunnel share the timer of the target socket, and each takes it for
its own. If the socket connects before it is bound, both are right. If it is bound first, then
the expiry of the idle timeout is reported as a connect timeout, and the connection disarms the
idle timeout; `commutes_iff` says that nothing else goes wrong.

`Upstream.Inv` is the invariant: until it is bound, the timer of a socket that connects is the
client's, and from then on it is the tunnel's.
-/

namespace Proxinator.Client

open Lib

namespace Upstream

variable {opts : Tunnel.Options} {s : Upstream}

/-- **The two timeouts do not disturb each other.** -/
structure Commutes (opts : Tunnel.Options) (s : Upstream) : Prop where
  /-- The target was destroyed with a connect timeout only after that time without a
  connection, -/
  elapsed : ∀ error ∈ s.timeouts,
    error.connected = false ∧ s.created + connectTimeout ≤ error.time
  /-- and never because it was idle. -/
  not_idle : ∀ error ∈ s.timeouts, error.timer.owner = .client
  /-- Once it is bound and connected, the idle timer of both sockets is armed. -/
  armed : s.bound = true → s.connected = true → ∀ side, s.tunnel.destroyed side = false →
    ∃ since, s.timer side = some ⟨opts.idleTimeout, since, .tunnel⟩

/-- The target neither connects nor times out while it is bound and has not connected. -/
def InOrder (s : Upstream) (e : Event × ℚ) : Prop :=
  e.1 = .connect ∨ e.1 = .expire .target → s.bound = true → s.connected = true

/-- How the timers stand. -/
structure Inv (s : Upstream) : Prop where
  created_le : s.created ≤ s.now
  listener_eq : s.connectListener = !s.connected
  destroyed_timer : ∀ side, s.tunnel.destroyed side = true → s.timer side = none
  /-- Until the target is bound its timer is the client's, -/
  unbound : s.bound = false → ∀ timer, s.timer .target = some timer →
    s.connected = false ∧ timer.owner = .client ∧ timer.ms = connectTimeout ∧
      s.created ≤ timer.since
  /-- and then the tunnel's. -/
  bound : s.bound = true → ∀ timer, s.timer .target = some timer → timer.owner = .tunnel

theorem inv_new (now : ℚ) : (new now).Inv where
  created_le := le_rfl
  listener_eq := rfl
  destroyed_timer side h := by cases h
  unbound _ timer h := by
    cases h
    exact ⟨rfl, rfl, rfl, le_rfl⟩
  bound h := by cases h

theorem commutes_new (opts : Tunnel.Options) (now : ℚ) : (new now).Commutes opts :=
  ⟨by simp [new], by simp [new], fun h => by cases h⟩

/-! ## What an event does to the timers -/

/-- Destroying sockets takes their timers, and changes no other. -/
theorem withTunnel_timer {t : Tunnel} {side : Side} {timer : Timer}
    (h : (s.withTunnel t).timer side = some timer) :
    t.destroyed side = false ∧ s.timer side = some timer := by
  simp only [withTunnel] at h
  split_ifs at h with hdestroyed
  exact ⟨by simpa using hdestroyed, h⟩

theorem withTunnel_timer_of {t : Tunnel} {side : Side} (h : t.destroyed side = false) :
    (s.withTunnel t).timer side = s.timer side := by
  simp [withTunnel, h]

/-- `setTimeout` changes the timer of the socket, unless that is destroyed. -/
theorem setTimeout_eq (side : Side) (ms : ℕ) (owner : Owner) :
    s.setTimeout side ms owner =
      { s with
        timer := fun side' =>
          if side' = side ∧ s.tunnel.destroyed side = false then
            if ms = 0 then none else some ⟨ms, s.now, owner⟩
          else s.timer side'
        latest := if s.tunnel.destroyed side then s.latest else side } := by
  rw [setTimeout]
  cases hdestroyed : s.tunnel.destroyed side with
  | true => simp
  | false =>
      simp only [Bool.false_eq_true, if_false, and_true]
      congr 1
      funext side'
      exact Function.update_apply s.timer side _ side'

/-- What the connection does: the client disarms the timer and listens no longer. -/
theorem onConnect_eq (h : s.tunnel.destroyed .target = false) :
    s.onConnect =
      { s with
        connected := true
        connectListener := false
        timer := fun side => if side = .target then none else s.timer side
        latest := .target } := by
  simp [onConnect, setTimeout_eq, h]

/-- What the tunnel does when it is made. -/
theorem bind_eq (hidle : 0 < opts.idleTimeout) :
    s.bind opts =
      { s with
        bound := true
        timer := fun side =>
          if s.tunnel.destroyed side then s.timer side
          else some ⟨opts.idleTimeout, s.now, .tunnel⟩
        latest :=
          if s.tunnel.destroyed .target then
            if s.tunnel.destroyed .client then s.latest else .client
          else .target } := by
  have hne : opts.idleTimeout ≠ 0 := by omega
  simp only [bind, if_pos hidle, setTimeout_eq, if_neg hne]
  congr 1
  funext side
  cases side with
  | client => cases s.tunnel.destroyed .client <;> simp
  | target => cases s.tunnel.destroyed .target <;> simp

/-! ## The invariant, one event at a time -/

/-- A change of the tunnel that destroys sockets at most keeps the invariant. -/
theorem Inv.withTunnel (hs : s.Inv) (t : Tunnel) : (s.withTunnel t).Inv where
  created_le := hs.created_le
  listener_eq := hs.listener_eq
  destroyed_timer _ h := if_pos h
  unbound h timer htimer := hs.unbound h timer (withTunnel_timer htimer).2
  bound h timer htimer := hs.bound h timer (withTunnel_timer htimer).2

theorem Inv.onConnect (hs : s.Inv) (hlive : s.tunnel.destroyed .target = false) :
    s.onConnect.Inv := by
  rw [onConnect_eq hlive]
  refine ⟨hs.created_le, rfl, ?_, ?_, ?_⟩
  · intro side h
    cases side with
    | target => rfl
    | client => exact hs.destroyed_timer .client h
  · intro _ timer htimer
    simp at htimer
  · intro _ timer htimer
    simp at htimer

theorem Inv.bind (hs : s.Inv) (hidle : 0 < opts.idleTimeout) : (s.bind opts).Inv := by
  rw [bind_eq hidle]
  refine ⟨hs.created_le, hs.listener_eq, ?_, ?_, ?_⟩
  · intro side h
    exact (if_pos h).trans (hs.destroyed_timer side h)
  · intro h
    cases h
  · intro _ timer htimer
    dsimp only at htimer
    split_ifs at htimer with hdestroyed
    · rw [hs.destroyed_timer .target hdestroyed] at htimer
      cases htimer
    · cases htimer
      rfl

theorem Inv.onConnectTimeout (hs : s.Inv) (timer : Timer) : (s.onConnectTimeout timer).Inv := by
  have hnoted : Inv { s with timeouts := s.timeouts ++ [⟨s.now, timer, s.connected⟩] } :=
    ⟨hs.created_le, hs.listener_eq, hs.destroyed_timer, hs.unbound, hs.bound⟩
  exact hnoted.withTunnel _

theorem Inv.onTimeout (hs : s.Inv) (side : Side) : (s.onTimeout opts side).Inv := by
  rw [Upstream.onTimeout]
  cases s.timer side with
  | none => exact hs
  | some timer =>
      have herror := hs.onConnectTimeout timer
      by_cases hlistens : side = .target ∧ s.connectListener = true
      · simp only [if_pos hlistens]
        split_ifs
        · exact herror.withTunnel _
        · exact herror
      · simp only [if_neg hlistens]
        split_ifs
        · exact hs.withTunnel _
        · exact hs

theorem Inv.refresh (hs : s.Inv) (side : Side) : (s.act opts (.activity side)).Inv := by
  have hrefreshed : ∀ {side' : Side} {timer : Timer},
      Function.update s.timer side ((s.timer side).map fun timer => { timer with since := s.now })
        side' = some timer →
      ∃ since, s.timer side' = some { timer with since := since } ∧
        (timer.since = since ∨ timer.since = s.now) := by
    intro side' timer h
    rw [Function.update_apply] at h
    split_ifs at h with hside
    · subst hside
      obtain ⟨timer', htimer', rfl⟩ := Option.map_eq_some_iff.mp h
      exact ⟨timer'.since, htimer', Or.inr rfl⟩
    · exact ⟨timer.since, h, Or.inl rfl⟩
  refine ⟨hs.created_le, hs.listener_eq, ?_, ?_, ?_⟩
  · intro side' h
    by_contra htimer
    obtain ⟨timer, htimer⟩ := Option.ne_none_iff_exists'.mp htimer
    obtain ⟨since, hbefore, -⟩ := hrefreshed htimer
    rw [hs.destroyed_timer side' h] at hbefore
    cases hbefore
  · intro h timer htimer
    obtain ⟨since, hbefore, hsince⟩ := hrefreshed htimer
    obtain ⟨hconnected, howner, hms, hcreated⟩ := hs.unbound h _ hbefore
    refine ⟨hconnected, howner, hms, ?_⟩
    rcases hsince with hsince | hsince
    · rwa [hsince]
    · rw [hsince]
      exact hs.created_le
  · intro h timer htimer
    obtain ⟨since, hbefore, -⟩ := hrefreshed htimer
    have howner := hs.bound h _ hbefore
    exact howner

/-- **Every event that can happen keeps the invariant.** -/
theorem inv_step (hidle : 0 < opts.idleTimeout) {e : Event × ℚ} (he : s.Admits e) (hs : s.Inv) :
    (s.step opts e).Inv := by
  obtain ⟨event, now⟩ := e
  obtain ⟨hnow, hevent⟩ := he
  have hclock : Inv { s with now := now } :=
    ⟨hs.created_le.trans hnow, hs.listener_eq, hs.destroyed_timer, hs.unbound, hs.bound⟩
  cases event with
  | connect => exact hclock.onConnect hevent.2
  | bind => exact hclock.bind hidle
  | expire side => exact hclock.onTimeout side
  | activity side => exact hclock.refresh side
  | tunnel e => exact hclock.withTunnel _
  | destroy side => exact hclock.withTunnel _

/-! ## What an event does to the two timeouts -/

/-- A change of the tunnel that destroys sockets at most does not make the timeouts disturb each
other. -/
theorem Commutes.withTunnel (hs : s.Commutes opts) {t : Tunnel}
    (ht : ∀ side, s.tunnel.destroyed side = true → t.destroyed side = true) :
    (s.withTunnel t).Commutes opts where
  elapsed := hs.elapsed
  not_idle := hs.not_idle
  armed hbound hconnected side hside := by
    have hside' : t.destroyed side = false := hside
    rw [withTunnel_timer_of hside']
    refine hs.armed hbound hconnected side ?_
    by_contra hdestroyed
    rw [ht side (by simpa using hdestroyed)] at hside'
    cases hside'

/-- The connection disarms the timer of the target, whoever has set it. -/
theorem commutes_onConnect (hs : s.Commutes opts) (hlive : s.tunnel.destroyed .target = false) :
    s.onConnect.Commutes opts ↔ s.bound = false := by
  rw [onConnect_eq hlive]
  constructor
  · intro h
    by_contra hbound
    obtain ⟨since, hsince⟩ := h.armed (by simpa using hbound) rfl .target hlive
    simp at hsince
  · intro hbound
    exact ⟨hs.elapsed, hs.not_idle, fun h => absurd (hbound.symm.trans h) (by simp)⟩

theorem Commutes.bind (hs : s.Commutes opts) (hidle : 0 < opts.idleTimeout) :
    (s.bind opts).Commutes opts := by
  rw [bind_eq hidle]
  refine ⟨hs.elapsed, hs.not_idle, ?_⟩
  intro _ _ side hside
  exact ⟨s.now, if_neg (by simpa using hside)⟩

theorem Commutes.refresh (hs : s.Commutes opts) (side : Side) :
    (s.act opts (.activity side)).Commutes opts := by
  refine ⟨hs.elapsed, hs.not_idle, ?_⟩
  intro hbound hconnected side' hside'
  obtain ⟨since, hsince⟩ := hs.armed hbound hconnected side' hside'
  by_cases hsame : side' = side
  · subst hsame
    exact ⟨s.now, by simp [act, hsince]⟩
  · exact ⟨since, by simpa [act, hsame] using hsince⟩

/-- The tunnel's own reaction to a timeout. -/
theorem Commutes.tunnelTimeout (hs : s.Commutes opts) (side : Side) :
    (if s.bound then s.withTunnel (s.tunnel.step opts (.timeout side)) else s).Commutes opts := by
  split_ifs
  · exact hs.withTunnel fun _ => Tunnel.destroyed_step _
  · exact hs

/-- The timer of the client's socket expires, which concerns the tunnel alone. -/
theorem Commutes.expireClient (hs : s.Commutes opts) :
    (s.onTimeout opts .client).Commutes opts := by
  rw [onTimeout]
  cases s.timer .client with
  | none => exact hs
  | some timer => exact hs.tunnelTimeout .client

/-- A connect timeout that is raised when the timer of the client is due. -/
theorem Commutes.onConnectTimeout (hs : s.Commutes opts) {timer : Timer}
    (hconnected : s.connected = false) (howner : timer.owner = .client)
    (htime : s.created + connectTimeout ≤ s.now) :
    (s.onConnectTimeout timer).Commutes opts := by
  refine Commutes.withTunnel (s := { s with timeouts := s.timeouts ++ [_] }) ⟨?_, ?_, hs.armed⟩ ?_
  · intro error herror
    rcases List.mem_append.mp herror with h | h
    · exact hs.elapsed error h
    · obtain rfl := List.mem_singleton.mp h
      exact ⟨hconnected, htime⟩
  · intro error herror
    rcases List.mem_append.mp herror with h | h
    · exact hs.not_idle error h
    · obtain rfl := List.mem_singleton.mp h
      exact howner
  · intro side h
    by_cases hside : side = .target
    · simp [hside]
    · simpa [hside] using h

/-- **The expiry of the target's timer**: only the one that the client has set is reported
rightly. -/
theorem commutes_expire (hs : s.Inv) (hcommutes : s.Commutes opts) {timer : Timer}
    (htimer : s.timer .target = some timer) (hdue : timer.due ≤ s.now) :
    (s.onTimeout opts .target).Commutes opts ↔ (s.bound = true → s.connected = true) := by
  rw [onTimeout, htimer]
  cases hconnected : s.connected with
  | true =>
      have hlistener : ¬ s.connectListener = true := by simp [hs.listener_eq, hconnected]
      simp only [hlistener, implies_true, iff_true]
      exact hcommutes.tunnelTimeout .target
  | false =>
      have hlistener : s.connectListener = true := by simp [hs.listener_eq, hconnected]
      simp only [hlistener, and_true, if_true]
      cases hbound : s.bound with
      | false =>
          obtain ⟨-, howner, hms, hsince⟩ := hs.unbound hbound timer htimer
          have htime : s.created + connectTimeout ≤ s.now := by
            rw [Timer.due, hms] at hdue
            linarith
          have herror := hcommutes.onConnectTimeout hconnected howner htime
          simpa using herror.tunnelTimeout .target
      | true =>
          have howner := hs.bound hbound timer htimer
          simp only [forall_const, Bool.false_eq_true, iff_false]
          intro h
          have hraised : (⟨s.now, timer, s.connected⟩ : TimeoutError) ∈
              (if (s.onConnectTimeout timer).bound then
                (s.onConnectTimeout timer).withTunnel
                  ((s.onConnectTimeout timer).tunnel.step opts (.timeout .target))
              else s.onConnectTimeout timer).timeouts := by
            split_ifs <;> simp [Upstream.onConnectTimeout, destroySocket, Upstream.withTunnel]
          have hclient := h.not_idle _ hraised
          rw [howner] at hclient
          cases hclient

/-- **One event lets the timeouts disturb each other exactly when the target connects or times
out while it is bound and has not connected.** -/
theorem commutes_step (hidle : 0 < opts.idleTimeout) {e : Event × ℚ} (he : s.Admits e)
    (hs : s.Inv) (hcommutes : s.Commutes opts) :
    (s.step opts e).Commutes opts ↔ s.InOrder e := by
  obtain ⟨event, now⟩ := e
  obtain ⟨hnow, hevent⟩ := he
  have hclock : Inv { s with now := now } :=
    ⟨hs.created_le.trans hnow, hs.listener_eq, hs.destroyed_timer, hs.unbound, hs.bound⟩
  have hcommutes' : Commutes opts { s with now := now } :=
    ⟨hcommutes.elapsed, hcommutes.not_idle, hcommutes.armed⟩
  cases event with
  | connect =>
      refine (commutes_onConnect hcommutes' hevent.2).trans ?_
      simp [InOrder, hevent.1]
  | bind => exact iff_of_true (hcommutes'.bind hidle) (by simp [InOrder])
  | expire side =>
      obtain ⟨timer, htimer, hdue, -⟩ := hevent
      cases side with
      | client => exact iff_of_true hcommutes'.expireClient (by simp [InOrder])
      | target =>
          refine (commutes_expire hclock hcommutes' htimer hdue).trans ?_
          simp [InOrder]
  | activity side => exact iff_of_true (hcommutes'.refresh side) (by simp [InOrder])
  | tunnel e =>
      exact iff_of_true (hcommutes'.withTunnel fun _ => Tunnel.destroyed_step e)
        (by simp [InOrder])
  | destroy side =>
      refine iff_of_true (hcommutes'.withTunnel fun side' h => ?_) (by simp [InOrder])
      by_cases hside : side' = side
      · simp [hside]
      · simpa [hside] using h

/-! ## The run -/

/-- **In a run of events that can happen, the two timeouts never disturb each other exactly when
the target neither connects nor times out while it is bound and has not connected.** -/
theorem commutes_iff (opts : Tunnel.Options) (now : ℚ) (events : List (Event × ℚ))
    (hidle : 0 < opts.idleTimeout) (hadmits : Along (step opts) Admits (new now) events) :
    Throughout (step opts) (Commutes opts) (new now) events ↔
      Along (step opts) InOrder (new now) events :=
  throughout_iff_along hadmits (inv_new now) (commutes_new opts now)
    (fun _ _ he hs hcommutes => commutes_step hidle he hs hcommutes)
    (fun _ _ he hs _ _ => inv_step hidle he hs)

/-- An idle timeout of a second. -/
def second : Tunnel.Options := ⟨none, none, 1000, false, false⟩

/-- A tunnel that is bound after the connection times out a second later. -/
theorem commutes_connect_bind :
    Throughout (step second) (Commutes second) (new 0)
      [(.connect, 5), (.bind, 6), (.expire .client, 1006)] := by
  refine (commutes_iff second 0 _ (by decide) ?_).mpr ?_
  · simp [along_cons, Admits, step, act, onConnect_eq, bind_eq, new, Tunnel.new, second,
      Timer.due, Side.other]
    norm_num
  · simp [along_cons, InOrder, step, act, onConnect_eq, bind_eq, new, Tunnel.new, second]

/-- A tunnel is bound to a target that takes its time, and the client sends a byte. -/
def slowTarget : List (Event × ℚ) :=
  [(.bind, 0), (.activity .client, 300), (.tunnel (.data .client [1] false), 300),
    (.expire .target, 1000)]

/-- **The idle timeout is reported as a connect timeout**: the byte that the client sends starts
its own timer anew, but not that of a target that is connecting, which expires first. -/
theorem not_commutes_bind_expire :
    Along (step second) Admits (new 0) slowTarget ∧
      (run (step second) (new 0) slowTarget).timeouts = [⟨1000, ⟨1000, 0, .tunnel⟩, false⟩] ∧
      ¬ Throughout (step second) (Commutes second) (new 0) slowTarget := by
  have hraised : (run (step second) (new 0) slowTarget).timeouts =
      [⟨1000, ⟨1000, 0, .tunnel⟩, false⟩] := by
    simp [slowTarget, step, act, bind_eq, new, Tunnel.new, second, onTimeout,
      Upstream.onConnectTimeout, destroySocket, Upstream.withTunnel, Tunnel.step, Tunnel.onData,
      Tunnel.Options.transform, Tunnel.write, Tunnel.Flow.new, Tunnel.setFlow]
  refine ⟨?_, hraised, ?_⟩
  · simp [slowTarget, along_cons, Admits, step, act, bind_eq, new, Tunnel.new, second, Timer.due,
      Side.other, Upstream.withTunnel, Tunnel.step, Tunnel.onData, Tunnel.Options.transform,
      Tunnel.write, Tunnel.Flow.new, Tunnel.setFlow]
    norm_num
  · intro h
    have hclient := h.last.not_idle ⟨1000, ⟨1000, 0, .tunnel⟩, false⟩
      (hraised ▸ List.mem_singleton_self _)
    cases hclient

/-- If the target connects soon after it is bound, its idle timer is disarmed. -/
example : (run (step ⟨none, none, 1000, false, false⟩) (new 0)
    [(.bind, 0), (.connect, 1)]).timer .target = none := by
  simp [step, act, bind_eq, onConnect_eq, new, Tunnel.new]

end Upstream

end Proxinator.Client
