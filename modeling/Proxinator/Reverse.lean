import Proxinator.Sni
import Proxinator.Tunnel
import Proxinator.Lib.Run

/-!
# The reverse server

What the reverse server keeps for a client socket, and how it reacts to the events of that
socket, to its timers and to what the user's handler does with the connection. Every call of
`waitSNI` has its own `data` and `close` listener and its own timer; all of them share the
buffer `_head`. An event of a socket calls the listeners that were attached when it was
emitted.
-/

namespace Proxinator.Reverse

open Lib

/-- Max bytes buffered while waiting for a complete ClientHello. -/
@[simp] abbrev maxClientHelloSize : ℕ := 65536

/-- How a promise that `waitSNI` returned has settled. -/
inductive Settlement
  | pending
  | resolved (domain : Option String)
  | rejected (message : String)
  deriving DecidableEq, Repr

/-- A listener of the `data` event: that of a call of `waitSNI`, or the pipe of a tunnel. -/
inductive DataListener
  | waitSNI (call : ℕ)
  | pipe
  deriving DecidableEq, Repr

/-- A listener of the `close` event: that of a call of `waitSNI`, or the server's. -/
inductive CloseListener
  | server
  | waitSNI (call : ℕ)
  deriving DecidableEq, Repr

/-- What the server emits. -/
inductive Emitted
  | connection
  | close
  | error (code : Option String)
  deriving DecidableEq, Repr

/-- A connection with its client socket. -/
structure Connection where
  /-- `_head`: buffered data received before binding. -/
  head : Bytes
  /-- The chunks that the socket has not emitted yet. -/
  unread : List Bytes
  flowing : Bool
  destroyed : Bool
  closed : Bool
  /-- `end()` was called on the socket. -/
  ended : Bool
  dataListeners : List DataListener
  closeListeners : List CloseListener
  /-- How many `error` listeners there are; they are those of tunnels. -/
  errorListeners : ℕ
  /-- The calls of `waitSNI` whose timer runs. -/
  timers : List ℕ
  /-- What the calls of `waitSNI` returned, in order. -/
  calls : List Settlement
  /-- What `bind` wrote to the target, and what is piped to it. -/
  written : List Bytes
  piped : List Bytes
  emitted : List Emitted
  /-- An error was thrown that nothing catches. -/
  uncaught : Bool
  deriving DecidableEq, Repr

namespace Connection

/-- A connection after the server's `connection` handler, for a client that sends `chunks`. -/
def accepted (chunks : List Bytes) : Connection where
  head := []
  unread := chunks
  flowing := false
  destroyed := false
  closed := false
  ended := false
  dataListeners := []
  closeListeners := [.server]
  errorListeners := 0
  timers := []
  calls := []
  written := []
  piped := []
  emitted := [.connection]
  uncaught := false

/-! ## `waitSNI` -/

/-- `cleanup` of a call. -/
def cleanup (c : Connection) (call : ℕ) : Connection :=
  { c with
    timers := c.timers.erase call
    dataListeners := c.dataListeners.erase (.waitSNI call)
    closeListeners := c.closeListeners.erase (.waitSNI call) }

/-- `resolve` or `reject` of a call; only the first settles it. -/
def settle (c : Connection) (call : ℕ) (result : Settlement) : Connection :=
  { c with
    calls := c.calls.modify call fun settled => if settled = .pending then result else settled }

/-- `waitSNI()`. -/
def waitSNI (c : Connection) : Connection :=
  let call := c.calls.length
  { c with
    calls := c.calls ++ [.pending]
    timers := c.timers ++ [call]
    dataListeners := c.dataListeners ++ [.waitSNI call]
    closeListeners := c.closeListeners ++ [.waitSNI call]
    flowing := true }

/-- The test of a buffer that a call waits for. -/
def ready (head : Bytes) : Bool := Sni.isClientHello head && Sni.isComplete head

/-- `listener` of a call. -/
def onData (c : Connection) (call : ℕ) (data : Bytes) : Connection :=
  let c := { c with head := c.head ++ data }
  if !ready c.head then
    if c.head.length > maxClientHelloSize then
      ({ c.cleanup call with destroyed := true }).settle call
        (.rejected ("ClientHello exceeds " ++ toString maxClientHelloSize ++ " bytes"))
    else c
  else
    { (c.cleanup call).settle call (.resolved (Sni.parseSNI c.head)) with flowing := false }

/-- `onClose` of a call. -/
def onClose (c : Connection) (call : ℕ) : Connection :=
  (c.cleanup call).settle call (.rejected "Socket closed before SNI received")

/-- The timer of a call runs out. -/
def onTimeout (c : Connection) (call : ℕ) : Connection :=
  if call ∈ c.timers then
    ({ c.cleanup call with destroyed := true }).settle call
      (.rejected "SNI timeout after 10000ms")
  else c

/-! ## Events of the socket -/

/-- A `data` listener is called. -/
def callDataListener (data : Bytes) (c : Connection) : DataListener → Connection
  | .waitSNI call => c.onData call data
  | .pipe => { c with piped := c.piped ++ [data] }

/-- The socket emits its next chunk if it flows. -/
def read (c : Connection) : Connection :=
  if c.flowing && !c.destroyed then
    match c.unread with
    | [] => c
    | data :: unread => c.dataListeners.foldl (callDataListener data) { c with unread := unread }
  else c

/-- A `close` listener is called. -/
def callCloseListener (c : Connection) : CloseListener → Connection
  | .server => { c with emitted := c.emitted ++ [.close] }
  | .waitSNI call => c.onClose call

/-- The socket emits `close`. -/
def close (c : Connection) : Connection :=
  if c.closed then c
  else c.closeListeners.foldl callCloseListener { c with destroyed := true, closed := true }

/-- `onError` of a tunnel. -/
def onError (code : Option String) (c : Connection) : Connection :=
  if isBenign code then c else { c with emitted := c.emitted ++ [.error code] }

/-- The socket emits `error`; its stream is destroyed then. -/
def error (c : Connection) (code : Option String) : Connection :=
  if c.closed then c
  else if c.errorListeners = 0 then { c with destroyed := true, uncaught := true }
  else Nat.iterate (onError code) c.errorListeners { c with destroyed := true }

/-! ## What the user's handler does -/

/-- `bind`: the head is written to the target, then the tunnel attaches its listeners and
makes the socket flow. -/
def bind (c : Connection) : Connection :=
  { c with
    written := if 0 < c.head.length then c.written ++ [c.head] else c.written
    errorListeners := c.errorListeners + 1
    dataListeners := c.dataListeners ++ [.pipe]
    flowing := true }

/-- `end`, and `error`, which only calls it. -/
def endSocket (c : Connection) : Connection := { c with flowing := true, ended := true }

end Connection

/-- An event of a connection. -/
inductive Event
  | waitSNI
  | bind
  | «end»
  | read
  | timeout (call : ℕ)
  | close
  | error (code : Option String)
  deriving DecidableEq, Repr

/-- The reaction to one event. -/
def Connection.step (c : Connection) : Event → Connection
  | .waitSNI => c.waitSNI
  | .bind => c.bind
  | .end => c.endSocket
  | .read => c.read
  | .timeout call => c.onTimeout call
  | .close => c.close
  | .error code => c.error code

end Proxinator.Reverse
