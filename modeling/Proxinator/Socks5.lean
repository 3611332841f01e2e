import Proxinator.Socks5.Wire
import Proxinator.Ip
import Proxinator.Tunnel
import Proxinator.Lib.Run

/-!
# The SOCKS5 server

What the server keeps for a client socket, and how it reacts to the events of that socket
and of the promise that `authenticate` returns. The handlers are the source's, in its
order; each is a function on the state of the socket. A handler that throws is an
`Except.error` with the state it leaves behind, and what it throws is then uncaught.

Everything the server does is recorded in the `log` of the socket. `Server` is the server
over any number of sockets.
-/

namespace Proxinator.Socks5

open Lib

/-! ## What is passed to `authenticate` -/

/-- The endpoints of a socket; a closed socket has none. -/
structure SocketInfo where
  remoteAddress : Option String
  remotePort : Option ℕ
  localAddress : Option String
  localPort : Option ℕ
  deriving DecidableEq, Repr

/-- `socketInfo` of the greeting handler. -/
def socketInfo (endpoints : SocketInfo) : SocketInfo :=
  { endpoints with
    remoteAddress := endpoints.remoteAddress.map normalizeAddress
    localAddress := endpoints.localAddress.map normalizeAddress }

/-- The argument of `authenticate`. -/
structure AuthInfo extends SocketInfo where
  username : Option String
  password : Option String
  deriving DecidableEq, Repr

/-- `Object.assign({}, credentials, socketInfo)`. -/
def authInfo (credentials : Option Credentials) (info : SocketInfo) : AuthInfo :=
  { info with
    username := credentials.map Credentials.username
    password := credentials.map Credentials.password }

/-- How a call of `authenticate` ends: it throws, or it returns a value or promise. -/
inductive Answer
  | throws
  | returns
  deriving DecidableEq, Repr

/-- How the promise of the returned value settles: with a value that is truthy or not, or
with a rejection. -/
inductive Settlement
  | fulfilled (valid : Bool)
  | rejected
  deriving DecidableEq, Repr

/-! ## The state of a socket -/

/-- A listener of the `data` event. The handshake's are `once` listeners. -/
inductive DataListener
  | greeting
  | auth (info : SocketInfo)
  | request
  | pipe
  deriving DecidableEq, Repr

/-- A listener of the `error` event. -/
inductive ErrorListener
  | server
  | tunnel
  deriving DecidableEq, Repr

/-- An unsettled check of credentials, none in the no-auth branch; `asked` if it is up to
`authenticate`. -/
structure Check where
  credentials : Option Credentials
  info : AuthInfo
  asked : Bool
  deriving DecidableEq, Repr

/-- What happened to a socket and what the server did. -/
inductive Action
  /-- A chunk was delivered to a `data` listener. -/
  | received (chunk : Bytes)
  /-- A chunk flowed while there was no `data` listener. -/
  | lost (chunk : Bytes)
  /-- A chunk was piped towards the target. -/
  | piped (chunk : Bytes)
  | wrote (data : Bytes)
  | ended
  | authenticate (info : AuthInfo)
  | settled (result : Settlement)
  /-- `connection` was emitted. -/
  | connection (address : Address)
  /-- `close` was emitted for a connection. -/
  | close
  /-- `error` was emitted, with the connection or without. -/
  | error (code : Option String) (connection : Bool)
  | uncaught
  deriving DecidableEq, Repr

/-- The option of the server. -/
structure Options where
  /-- Whether `authenticate` was given. -/
  authenticate : Bool
  deriving DecidableEq, Repr

/-- A client socket and what the server's closures keep for it. -/
structure Socket where
  endpoints : SocketInfo
  paused : Bool
  destroyed : Bool
  closed : Bool
  dataListeners : List DataListener
  errorListeners : List ErrorListener
  handshakeTimer : Bool
  /-- Unsettled promises whose settlement a handler waits for. -/
  checks : List Check
  /-- `auth`, what `getAuth()` returns. -/
  auth : Option Credentials
  /-- Membership in `_handshaking`. -/
  handshaking : Bool
  /-- The connections made of this socket, each with its own `close` handler. -/
  promoted : List Address
  /-- Those of them in `_connections`. -/
  connections : List Address
  log : List Action
  deriving DecidableEq, Repr

namespace Socket

/-- `getAuth()` of the connections of a socket. -/
def getAuth (s : Socket) : Option Credentials := s.auth

/-- Record an action. -/
def act (s : Socket) (action : Action) : Socket := { s with log := s.log ++ [action] }

/-- `clientSocket.write`. -/
def write (s : Socket) (data : Bytes) : Socket := s.act (.wrote data)

/-- `clientSocket.end()`. -/
def endSocket (s : Socket) : Socket := s.act .ended

/-- `clientSocket.once("data", …)`. -/
def onceData (s : Socket) (listener : DataListener) : Socket :=
  { s with dataListeners := s.dataListeners ++ [listener] }

/-- `clientSocket.resume()`. -/
def resume (s : Socket) : Socket := { s with paused := false }

/-- `clientSocket.destroy()`. -/
def destroy (s : Socket) : Socket := { s with destroyed := true }

/-- `handleRequest`: wait for the CONNECT request. -/
def handleRequest (s : Socket) : Socket := (s.onceData .request).resume

/-- A connection is made of the socket and emitted. -/
def promote (s : Socket) (address : Address) : Socket :=
  { s with
    handshakeTimer := false
    handshaking := false
    promoted := s.promoted ++ [address]
    connections := s.connections ++ [address] }.act (.connection address)

/-- `authenticate` is called, and a returned promise waited for. -/
def authenticate (s : Socket) (answer : AuthInfo → Answer) (credentials : Option Credentials)
    (info : AuthInfo) : Except Socket Socket :=
  let s := s.act (.authenticate info)
  match answer info with
  | .throws => .error s
  | .returns => .ok { s with checks := s.checks ++ [⟨credentials, info, true⟩] }

/-! ## The handlers -/

/-- The `data` listener of the greeting. -/
def onGreeting (opts : Options) (answer : AuthInfo → Answer) (greeting : Bytes) (s : Socket) :
    Except Socket Socket :=
  if greeting[0]? ≠ some socksVersion then .ok s.endSocket
  else
    let methods := offeredMethods greeting
    let info := socketInfo s.endpoints
    if some authUserpass ∈ methods then
      .ok ((s.write [socksVersion, authUserpass]).onceData (.auth info))
    else if some authNone ∈ methods then
      let s := s.write [socksVersion, authNone]
      if opts.authenticate then s.authenticate answer none (authInfo none info)
      else .ok s.handleRequest
    else .ok (s.write [socksVersion, authNoAcceptable]).endSocket

end Socket

/-- The branch that the greeting handler takes. -/
inductive Choice
  | badVersion
  | userpass
  | noAuth
  | noAcceptable
  deriving DecidableEq, Repr

/-- The branch that the greeting handler takes on a chunk. -/
def choose (greeting : Bytes) : Choice :=
  if greeting[0]? ≠ some socksVersion then .badVersion
  else if some authUserpass ∈ offeredMethods greeting then .userpass
  else if some authNone ∈ offeredMethods greeting then .noAuth
  else .noAcceptable

namespace Socket

/-- The handler of the greeting does what it has chosen. -/
theorem onGreeting_eq (opts : Options) (answer : AuthInfo → Answer) (g : Bytes) (s : Socket) :
    s.onGreeting opts answer g =
      match choose g with
      | .badVersion => .ok s.endSocket
      | .userpass =>
        .ok ((s.write [socksVersion, authUserpass]).onceData (.auth (socketInfo s.endpoints)))
      | .noAuth =>
        if opts.authenticate then
          (s.write [socksVersion, authNone]).authenticate answer none
            (authInfo none (socketInfo s.endpoints))
        else .ok (s.write [socksVersion, authNone]).handleRequest
      | .noAcceptable => .ok (s.write [socksVersion, authNoAcceptable]).endSocket := by
  simp only [onGreeting, choose]
  split_ifs <;> rfl

/-- The `data` listener of the username/password message. -/
def onAuth (opts : Options) (answer : AuthInfo → Answer) (info : SocketInfo) (authData : Bytes)
    (s : Socket) : Except Socket Socket :=
  match parseAuth authData with
  | none => .ok (s.write [0x01, 0x01]).endSocket
  | some credentials =>
    let authInfo := authInfo (some credentials) info
    if opts.authenticate then s.authenticate answer (some credentials) authInfo
    -- `Promise.resolve(true)`
    else .ok { s with checks := s.checks ++ [⟨some credentials, authInfo, false⟩] }

/-- The `data` listener of the CONNECT request. -/
def onRequest (requestData : Bytes) (s : Socket) : Socket :=
  if requestData[1]? ≠ some cmdConnect then (s.write (buildReply 0x07)).endSocket
  else
    match parseAddress requestData with
    | none => (s.write (buildReply 0x01)).endSocket
    | some address => s.promote address

/-- A `data` listener is called; a `once` listener has been removed before. -/
def callListener (opts : Options) (answer : AuthInfo → Answer) (chunk : Bytes) (s : Socket)
    (listener : DataListener) : Except Socket Socket :=
  let removed := { s with dataListeners := s.dataListeners.erase listener }
  match listener with
  | .greeting => removed.onGreeting opts answer chunk
  | .auth info => removed.onAuth opts answer info chunk
  | .request => .ok (removed.onRequest chunk)
  | .pipe => .ok (s.act (.piped chunk))

/-- The socket after its handlers have run; what one of them throws is uncaught. -/
def afterHandlers : Except Socket Socket → Socket
  | .ok s => s
  | .error s => s.act .uncaught

/-- The socket emits `data`: the listeners are called in turn until one throws. -/
def onData (opts : Options) (answer : AuthInfo → Answer) (chunk : Bytes) (s : Socket) : Socket :=
  if s.dataListeners = [] then s.act (.lost chunk)
  else
    afterHandlers
      (s.dataListeners.foldlM (callListener opts answer chunk) (s.act (.received chunk)))

/-- The `then` and `catch` handlers of a check. -/
def onSettled (check : Check) (result : Settlement) (s : Socket) : Socket :=
  match result, check.credentials with
  | .fulfilled true, some credentials =>
    ({ s with auth := some credentials }.write [0x01, 0x00]).handleRequest
  | .fulfilled true, none => s.handleRequest
  | .fulfilled false, some _ => (s.write [0x01, 0x01]).endSocket
  | .fulfilled false, none => s.endSocket
  | .rejected, _ => (s.act (.error none false)).endSocket

/-- A promise settles. One that `authenticate` has no part in is fulfilled with `true`. -/
def onSettle (i : ℕ) (result : Settlement) (s : Socket) : Socket :=
  match s.checks[i]? with
  | none => s
  | some check =>
    let s := { s with checks := s.checks.eraseIdx i }
    if check.asked then (s.act (.settled result)).onSettled check result
    else s.onSettled check (.fulfilled true)

/-- An `error` listener is called. -/
def callErrorListener (code : Option String) (s : Socket) : ErrorListener → Socket
  | .server => s.act (.error code false)
  | .tunnel => if isBenign code then s.destroy else (s.act (.error code true)).destroy

/-- The socket emits `error`; its stream is destroyed then. -/
def onError (code : Option String) (s : Socket) : Socket :=
  if s.errorListeners = [] then s.destroy.act .uncaught
  else s.errorListeners.foldl (callErrorListener code) s.destroy

/-- The socket emits `close`. -/
def onClose (s : Socket) : Socket :=
  s.promoted.foldl (fun s _ => s.act .close)
    { s with
      destroyed := true
      closed := true
      handshakeTimer := false
      handshaking := false
      connections := [] }

/-- `bind` of a connection: the reply, then the tunnel's listeners on the client socket. -/
def bind (s : Socket) : Socket :=
  let s := s.write (buildReply 0x00)
  { s with
    errorListeners := s.errorListeners ++ [.tunnel]
    dataListeners := s.dataListeners ++ [.pipe]
    paused := false }

end Socket

/-- An event of a client socket. -/
inductive Event
  /-- The socket emits a chunk; `answer` is how `authenticate` ends if it is called. -/
  | data (chunk : Bytes) (answer : AuthInfo → Answer)
  /-- The promise of one of the unsettled checks settles. -/
  | settle (i : ℕ) (result : Settlement)
  | handshakeTimeout
  | error (code : Option String)
  | close
  /-- The user's handler calls `bind`, -/
  | bind
  /-- `error` -/
  | refuse
  /-- or `end` of a connection. -/
  | «end»
  /-- `close` of the server destroys the socket. -/
  | destroy

namespace Socket

/-- A socket after the server's `connection` handler for it. -/
def accepted (endpoints : SocketInfo) : Socket where
  endpoints := endpoints
  paused := false
  destroyed := false
  closed := false
  dataListeners := [.greeting]
  errorListeners := [.server]
  handshakeTimer := true
  checks := []
  auth := none
  handshaking := true
  promoted := []
  connections := []
  log := []

/-- The reaction to one event. A socket emits data only while it flows, closes once, and has
methods for the user once it is promoted. -/
def step (opts : Options) (s : Socket) : Event → Socket
  | .data chunk answer => if s.paused || s.destroyed then s else s.onData opts answer chunk
  | .settle i result => s.onSettle i result
  | .handshakeTimeout => if s.handshakeTimer then { s with handshakeTimer := false }.destroy else s
  | .error code => if s.closed then s else s.onError code
  | .close => if s.closed then s else s.onClose
  | .bind => if s.promoted = [] then s else s.bind
  | .refuse => if s.promoted = [] then s else (s.write (buildReply 0x01)).endSocket
  | .end => if s.promoted = [] then s else s.endSocket
  | .destroy => { s with handshaking := false, connections := [] }.destroy

end Socket

/-! ## The server -/

/-- The server: its client sockets in the order in which they were accepted. -/
structure Server where
  sockets : List Socket
  deriving DecidableEq, Repr

/-- An event of the server. -/
inductive ServerEvent
  | accept (endpoints : SocketInfo)
  | socket (i : ℕ) (e : Event)
  /-- `close`: every tracked socket is destroyed and both sets are cleared. -/
  | close

namespace Server

/-- A server without sockets. -/
def new : Server := ⟨[]⟩

/-- The sockets in `_handshaking` or `_connections`. -/
def tracked (s : Socket) : Bool := s.handshaking || !s.connections.isEmpty

/-- The reaction to one event. -/
def step (opts : Options) (server : Server) : ServerEvent → Server
  | .accept endpoints => ⟨server.sockets ++ [Socket.accepted endpoints]⟩
  | .socket i e => ⟨server.sockets.modify i (·.step opts e)⟩
  | .close => ⟨server.sockets.map fun s => if tracked s then s.step opts .destroy else s⟩

/-- `connectionCount()`. -/
def connectionCount (server : Server) : ℕ :=
  (server.sockets.map fun s => s.connections.length).sum

/-- Every socket of a server got there by a run of its own. -/
theorem mem_sockets (opts : Options) (events : List ServerEvent) :
    ∀ s ∈ (run (step opts) new events).sockets,
      ∃ endpoints es, s = run (Socket.step opts) (Socket.accepted endpoints) es := by
  refine run_invariant (P := fun server : Server => ∀ s ∈ server.sockets,
    ∃ endpoints es, s = run (Socket.step opts) (Socket.accepted endpoints) es) ?_ ?_ events
  · intro server e ih s hs
    have extend : ∀ {s e}, s ∈ server.sockets →
        ∃ endpoints es, s.step opts e = run (Socket.step opts) (Socket.accepted endpoints) es := by
      intro s e hs
      obtain ⟨endpoints, es, rfl⟩ := ih s hs
      exact ⟨endpoints, es ++ [e], (run_concat es e).symm⟩
    cases e with
    | accept endpoints =>
        rcases List.mem_append.mp hs with hs | hs
        · exact ih s hs
        · obtain rfl : s = Socket.accepted endpoints := by simpa using hs
          exact ⟨endpoints, [], rfl⟩
    | socket i e =>
        rw [step] at hs
        obtain ⟨j, hj, rfl⟩ := List.getElem_of_mem hs
        rw [List.getElem_modify]
        split
        · exact extend (List.getElem_mem _)
        · exact ih _ (List.getElem_mem _)
    | close =>
        obtain ⟨s', hs', rfl⟩ := List.mem_map.mp hs
        split
        · exact extend hs'
        · exact ih s' hs'
  · intro s hs
    cases hs

end Server

end Proxinator.Socks5
