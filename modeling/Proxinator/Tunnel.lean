import Proxinator.Lib.Buffer
import Proxinator.Lib.Transform
import Mathlib.Logic.Function.Basic

/-!
# The tunnel

`tunnel(clientSocket, socket, options)` pipes two sockets into each other. The model is
the state after that call together with what Node's `pipe` keeps for it, and `step` is how
it reacts to one event of a stream. A direction of the tunnel is named by its source: the
flow of `Side.target` is what the target sends to the client, through the `up` transform,
and the flow of `Side.client` goes through `down`.

The handlers run in the order in which `tunnel` registers them: on `end` of a source its
own handler ends the receiver first, and `pipe`'s ends what the source is piped into. When a
receiver finishes, fails or closes, `pipe` unpipes it: what a transform still holds then stays in
it.
-/

namespace Proxinator

open Lib

/-- Error codes that are normal teardown noise, not worth reporting. -/
def benignErrors : List String := ["ECONNRESET", "EPIPE", "ERR_STREAM_WRITE_AFTER_END"]

/-- `BENIGN_ERRORS.indexOf(error.code) !== -1`; an error may have no code. -/
def isBenign (code : Option String) : Bool := code.any benignErrors.contains

/-- The two sockets of a tunnel. -/
inductive Side
  | client
  | target
  deriving DecidableEq, Repr

/-- The opposite socket. -/
def Side.other : Side → Side
  | .client => .target
  | .target => .client

@[simp] theorem Side.other_other (side : Side) : side.other.other = side := by
  cases side <;> rfl

namespace Tunnel

/-- The options of a tunnel. -/
structure Options where
  /-- Transform for target-to-client data. -/
  up : Option (Transform Bytes)
  /-- Transform for client-to-target data. -/
  down : Option (Transform Bytes)
  /-- Destroy the tunnel after this many ms with no traffic; 0 when omitted. -/
  idleTimeout : ℕ
  /-- Whether `onError` was given. -/
  onError : Bool
  /-- Whether `onTimeout` was given. -/
  onTimeout : Bool

/-- The transform that the data of a source goes through. -/
def Options.transform (opts : Options) : Side → Option (Transform Bytes)
  | .target => opts.up
  | .client => opts.down

/-- What the tunnel calls. -/
inductive Call
  | endSocket (side : Side)
  | destroy (side : Side)
  | onError (side : Side) (code : Option String)
  | onTimeout
  deriving DecidableEq, Repr

/-- One direction: from its source, through its transform if it has one, to the receiver. -/
structure Flow where
  /-- The chunks the source has emitted. -/
  sent : List Bytes
  /-- The source has emitted `end`. -/
  sourceEnded : Bool
  /-- The source waits for what it is piped into to drain. -/
  sourcePaused : Bool
  /-- What the transform holds; not used when there is none. -/
  buffered : Buffered Bytes
  /-- The transform waits for the receiver to drain. -/
  transformPaused : Bool
  /-- The chunks written to the receiver. -/
  given : List Bytes
  /-- `end()` was called on the receiver. -/
  ended : Bool
  /-- What was piped into the receiver has been unpiped. -/
  unpiped : Bool

/-- A direction in which nothing has happened. -/
def Flow.new : Flow := ⟨[], false, false, Buffered.new, false, [], false, false⟩

/-- What is piped into the receiver of the data of `side` is unpiped, which pauses it for good. -/
def Flow.unpipe (opts : Options) (side : Side) (f : Flow) : Flow :=
  match opts.transform side with
  | some _ => { f with unpiped := true, transformPaused := true }
  | none => { f with unpiped := true, sourcePaused := true }

/-- What of the data of `side` its transform will still emit. -/
def Flow.remains (opts : Options) (side : Side) (f : Flow) : List Bytes :=
  match opts.transform side with
  | some T => f.buffered.remains T
  | none => []

/-- What the receiver has to be given for what `side` sent. -/
def Options.outputs (opts : Options) (side : Side) (chunks : List Bytes) : List Bytes :=
  match opts.transform side with
  | some T => T.outputs chunks
  | none => chunks

/-- An event of one of the streams. -/
inductive Event
  /-- A socket emits a chunk; the write it causes returns `!full`. -/
  | data (side : Side) (chunk : Bytes) (full : Bool)
  /-- The transform on a socket's data takes a chunk, -/
  | process (side : Side)
  /-- is flushed, -/
  | flush (side : Side)
  /-- emits its next piece of output; the write it causes returns `!full`, -/
  | emit (side : Side) (full : Bool)
  /-- has room again, -/
  | transformDrain (side : Side)
  /-- emits `end`, -/
  | transformEnd (side : Side)
  /-- or emits `error`. -/
  | transformError (side : Side)
  /-- The receiver of a socket's data has room again, -/
  | drain (side : Side)
  /-- or has finished: it was ended, and all that was written to it before is gone. -/
  | finish (side : Side)
  | «end» (side : Side)
  | close (side : Side)
  | error (side : Side) (code : Option String)
  | timeout (side : Side)

end Tunnel

open Tunnel

/-- A tunnel after `tunnel(clientSocket, socket, options)`. -/
structure Tunnel where
  /-- The direction whose source is the given socket. -/
  flow : Side → Flow
  destroyed : Side → Bool
  /-- `timedOut` of `onIdle`. -/
  timedOut : Bool
  /-- An error was thrown that nothing catches. -/
  uncaught : Bool
  /-- The calls the tunnel has made, in order. -/
  log : List Call

namespace Tunnel

/-- A tunnel right after the call. -/
def new : Tunnel := ⟨fun _ => Flow.new, fun _ => false, false, false, []⟩

/-- Change the direction whose source is `side`. -/
def setFlow (t : Tunnel) (side : Side) (f : Flow) : Tunnel :=
  { t with flow := Function.update t.flow side f }

/-- `unpipe` on the receiver of the data of `side`. -/
def unpipe (opts : Options) (t : Tunnel) (side : Side) : Tunnel :=
  t.setFlow side ((t.flow side).unpipe opts side)

@[simp] theorem unpipe_log (opts : Options) (t : Tunnel) (side : Side) :
    (t.unpipe opts side).log = t.log := rfl

@[simp] theorem unpipe_timedOut (opts : Options) (t : Tunnel) (side : Side) :
    (t.unpipe opts side).timedOut = t.timedOut := rfl

/-- `end()` on one of the sockets. -/
def endSocket (t : Tunnel) (side : Side) : Tunnel :=
  { t.setFlow side.other { t.flow side.other with ended := true } with
    log := t.log ++ [.endSocket side] }

/-- `destroy`: both sockets are destroyed. -/
def destroy (t : Tunnel) : Tunnel :=
  { t with
    destroyed := fun _ => true
    log := t.log ++ [.destroy .target, .destroy .client] }

/-- `error` on one of the sockets: `pipe`'s handler, which comes first, and then `onError`. -/
def onError (opts : Options) (t : Tunnel) (side : Side) (code : Option String) : Tunnel :=
  let t := t.unpipe opts side.other
  let reported : Tunnel :=
    if !isBenign code && opts.onError then { t with log := t.log ++ [.onError side code] } else t
  reported.destroy

/-- `onIdle`, the handler of `timeout` on both sockets. -/
def onIdle (opts : Options) (t : Tunnel) : Tunnel :=
  if t.timedOut then t
  else
    let t := destroy { t with timedOut := true }
    if opts.onTimeout then { t with log := t.log ++ [.onTimeout] } else t

/-- A chunk is written to the receiver of the data of `side`. -/
def write (opts : Options) (t : Tunnel) (side : Side) (chunk : Bytes) : Tunnel :=
  let f := t.flow side
  -- a write after `end()` raises an error on the receiver, one to a destroyed socket does not
  if t.destroyed side.other then t
  else if f.ended then t.onError opts side.other (some "ERR_STREAM_WRITE_AFTER_END")
  else t.setFlow side { f with given := f.given ++ [chunk] }

/-- `data` on a socket, which `pipe` passes on; a socket that was unpiped is paused and emits
none. -/
def onData (opts : Options) (t : Tunnel) (side : Side) (chunk : Bytes) (full : Bool) : Tunnel :=
  let f := { t.flow side with sent := (t.flow side).sent ++ [chunk], sourcePaused := full }
  match opts.transform side with
  | some _ => t.setFlow side { f with buffered := f.buffered.write chunk }
  | none => (t.setFlow side f).write opts side chunk

/-- `data` on the transform of a direction. -/
def onEmit (opts : Options) (t : Tunnel) (side : Side) (full : Bool) : Tunnel :=
  let f := t.flow side
  if f.transformPaused then t
  else
    match f.buffered.read with
    | some (chunk, buffered) =>
      (t.setFlow side { f with buffered := buffered, transformPaused := full }).write opts side
        chunk
    | none => t

/-- `end` on a socket: the tunnel's own handler, then `pipe`'s. -/
def onEnd (opts : Options) (t : Tunnel) (side : Side) : Tunnel :=
  let t := (t.setFlow side { t.flow side with sourceEnded := true }).endSocket side.other
  match opts.transform side with
  | some _ => t.setFlow side { t.flow side with buffered := (t.flow side).buffered.finish }
  | none => t.endSocket side.other

/-- The reaction to one event. -/
def step (opts : Options) (t : Tunnel) : Event → Tunnel
  | .data side chunk full => t.onData opts side chunk full
  | .process side =>
    match opts.transform side with
    | some T => t.setFlow side { t.flow side with buffered := (t.flow side).buffered.process T }
    | none => t
  | .flush side =>
    match opts.transform side with
    | some T => t.setFlow side { t.flow side with buffered := (t.flow side).buffered.flush T }
    | none => t
  | .emit side full =>
    match opts.transform side with
    | some _ => t.onEmit opts side full
    | none => t
  | .transformDrain side =>
    match opts.transform side with
    | some _ => t.setFlow side { t.flow side with sourcePaused := false }
    | none => t
  | .transformEnd side =>
    match opts.transform side with
    | some _ =>
      if (t.flow side).buffered.flushed ∧ (t.flow side).buffered.readable = [] ∧
          ¬ (t.flow side).transformPaused then
        t.endSocket side.other
      else t
    | none => t
  -- `pipe` rethrows an error of its destination that has no other listener
  | .transformError side =>
    match opts.transform side with
    | some _ => { t with uncaught := true }
    | none => t
  | .drain side =>
    if (t.flow side).unpiped then t
    else
      match opts.transform side with
      | some _ => t.setFlow side { t.flow side with transformPaused := false }
      | none => t.setFlow side { t.flow side with sourcePaused := false }
  | .finish side => if (t.flow side).ended then t.unpipe opts side else t
  | .end side => t.onEnd opts side
  -- the tunnel's own handler, then `pipe`'s for what goes to the socket
  | .close side => (t.endSocket side.other).unpipe opts side.other
  | .error side code => t.onError opts side code
  | .timeout _ => if 0 < opts.idleTimeout then t.onIdle opts else t

end Tunnel

end Proxinator
