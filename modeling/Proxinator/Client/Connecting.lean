import Proxinator.Client
import Proxinator.Tunnel
import Proxinator.Lib.Run
import Mathlib.Data.Rat.Defs

/-!
# A socket that connects, and its timers

A socket that the reverse client has returned, and the tunnel that it is bound to. The client
returns it before it has connected, with a timer that its listener takes for the connect
timeout; the tunnel sets the timer of both its sockets again, for the idle timeout. A socket
has one timer, and when that expires all listeners of `timeout` are called.

Times are in ms. `Upstream.step` is the reaction to one event at a time; no timer expires
before it is due, and timers of one length expire in the order in which they were set or
refreshed (`Upstream.Admits`).
-/

namespace Proxinator.Client

/-- Who has set the timer of a socket. -/
inductive Owner
  | client
  | tunnel
  deriving DecidableEq, Repr

/-- The timer of a socket, and when it was set or last refreshed. -/
structure Timer where
  ms : ℕ
  since : ℚ
  owner : Owner
  deriving DecidableEq, Repr

/-- When the timer is due. -/
def Timer.due (timer : Timer) : ℚ := timer.since + timer.ms

/-- A `Connect timeout` error: when it was raised, on the expiry of which timer, and whether the
socket had connected by then. -/
structure TimeoutError where
  time : ℚ
  timer : Timer
  connected : Bool
  deriving DecidableEq, Repr

/-- The target socket of a reverse client, from its creation on, and the client socket of the
tunnel that is bound to it. -/
structure Upstream where
  created : ℚ
  now : ℚ
  connected : Bool
  bound : Bool
  /-- `onConnectTimeout` listens to `timeout` of the target. -/
  connectListener : Bool
  timer : Side → Option Timer
  /-- The socket whose timer was set or refreshed last. -/
  latest : Side
  /-- Which sockets are destroyed and, once bound, what the tunnel keeps. -/
  tunnel : Tunnel
  /-- The errors with which `onConnectTimeout` destroyed the target. -/
  timeouts : List TimeoutError

namespace Upstream

/-- What happens to the two sockets. -/
inductive Event
  /-- The target has connected. -/
  | connect
  /-- A server binds its client to the target. -/
  | bind
  /-- The timer of a socket expires. -/
  | expire (side : Side)
  /-- Data is read from a socket, or written to it. -/
  | activity (side : Side)
  /-- Anything else that the tunnel listens to. -/
  | tunnel (e : Tunnel.Event)
  /-- A socket is destroyed otherwise. -/
  | destroy (side : Side)

/-- `net.connect`, and the listeners of the reverse client. -/
def new (now : ℚ) : Upstream where
  created := now
  now := now
  connected := false
  bound := false
  connectListener := true
  timer
    | .target => some ⟨connectTimeout, now, .client⟩
    | .client => none
  latest := .target
  tunnel := Tunnel.new
  timeouts := []

/-- `setTimeout(ms)` of a socket: a destroyed one ignores it, and 0 disarms the timer. -/
def setTimeout (s : Upstream) (side : Side) (ms : ℕ) (owner : Owner) : Upstream :=
  if s.tunnel.destroyed side then s
  else
    { s with
      timer := Function.update s.timer side (if ms = 0 then none else some ⟨ms, s.now, owner⟩)
      latest := side }

/-- The tunnel has changed; a destroyed socket has no timer. -/
def withTunnel (s : Upstream) (t : Tunnel) : Upstream :=
  { s with
    tunnel := t
    timer := fun side => if t.destroyed side then none else s.timer side }

/-- `destroy` of a socket. -/
def destroySocket (s : Upstream) (side : Side) : Upstream :=
  s.withTunnel { s.tunnel with destroyed := Function.update s.tunnel.destroyed side true }

/-- The `connect` listener of the reverse client. -/
def onConnect (s : Upstream) : Upstream :=
  { setTimeout { s with connected := true } .target 0 .client with connectListener := false }

/-- `onConnectTimeout`. -/
def onConnectTimeout (s : Upstream) (timer : Timer) : Upstream :=
  let error := ⟨s.now, timer, s.connected⟩
  destroySocket { s with timeouts := s.timeouts ++ [error] } .target

/-- The tunnel is made: its idle timeout is set on both sockets. -/
def bind (opts : Tunnel.Options) (s : Upstream) : Upstream :=
  if 0 < opts.idleTimeout then
    (setTimeout { s with bound := true } .client opts.idleTimeout .tunnel).setTimeout .target
      opts.idleTimeout .tunnel
  else { s with bound := true }

/-- A socket emits `timeout`: the listeners are called in the order in which they were added. -/
def onTimeout (opts : Tunnel.Options) (s : Upstream) (side : Side) : Upstream :=
  match s.timer side with
  | none => s
  | some timer =>
    let s := if side = .target ∧ s.connectListener then s.onConnectTimeout timer else s
    if s.bound then s.withTunnel (s.tunnel.step opts (.timeout side)) else s

/-- What happens on an event. -/
def act (opts : Tunnel.Options) (s : Upstream) : Event → Upstream
  | .connect => s.onConnect
  | .bind => s.bind opts
  | .expire side => s.onTimeout opts side
  | .activity side =>
    let refreshed := (s.timer side).map fun timer => { timer with since := s.now }
    { s with timer := Function.update s.timer side refreshed, latest := side }
  | .tunnel e => s.withTunnel (s.tunnel.step opts e)
  | .destroy side => s.destroySocket side

/-- The reaction to an event at a time. -/
def step (opts : Tunnel.Options) (s : Upstream) (e : Event × ℚ) : Upstream :=
  { s with now := e.2 }.act opts e.1

/-- Time does not run backwards; no timer expires before it is due, or before one of the same
length that was set earlier; a socket connects once, and not when it is destroyed; what is
written to it before waits, and is no activity; one tunnel is bound. -/
def Admits (s : Upstream) (e : Event × ℚ) : Prop :=
  s.now ≤ e.2 ∧
    match e.1 with
    | .connect => s.connected = false ∧ s.tunnel.destroyed .target = false
    | .bind => s.bound = false
    | .expire side => ∃ timer, s.timer side = some timer ∧ timer.due ≤ e.2 ∧
      ∀ timer', s.timer side.other = some timer' → timer'.ms = timer.ms → s.latest = side.other
    | .tunnel e => s.bound = true ∧ ∀ side, e ≠ .timeout side
    | .activity side => side = .target → s.connected = true
    | .destroy _ => True

end Upstream

end Proxinator.Client
