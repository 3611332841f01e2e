import Proxinator.Socks5.Segmentation
import Proxinator.Socks5.Address
import Proxinator.Socks5.Auth

/-!
# A SOCKS5 session

The server of this repository and a client that follows the protocol, with the bytes that are
under way between them. The client sends a message only after the reply to the one before, and
waits for a whole reply; the server is given what has arrived in chunks of any length.

The server takes a chunk for a whole message. Of a part of the username/password message, or of
the request, it makes nothing (`parseAuth_chunk`, `parseAddress_chunk`), so these may be cut
anywhere. The greeting is not checked for its length: a part of it that offers a method is
accepted, and the rest is taken for the next message; and what arrives while a check is pending
is lost, so of a message that is cut then the server reads the rest. `Session.Whole` leaves out
these two kinds of cuts, and nothing else.

## Main definitions

* `Client` — what a client asks for.
* `Session`, `Session.step` — both parties and what is under way.
* `Session.Admits` — what the network can do.
* `Session.Whole` — the cuts that the server does not misread.
-/

namespace Proxinator.Socks5

open Lib

/-! ## The client -/

/-- What a client offers, the credentials it has, and the destination it asks for. -/
structure Client where
  methods : Bytes
  username : Bytes
  password : Bytes
  destination : Destination
  port : Fin 65536
  methods_fit : methods.length < 256
  username_fits : username.length < 256
  password_fits : password.length < 256

theorem nil_fits : ([] : Bytes).length < 256 := by decide

namespace Client

/-- The greeting: version and methods. -/
def greeting (c : Client) : Bytes := socksVersion :: prefixed 1 c.methods

/-- The username/password message. -/
def message (c : Client) : Bytes := 0x01 :: (prefixed 1 c.username ++ prefixed 1 c.password)

/-- The CONNECT request. -/
def request (c : Client) : Bytes := Socks5.request c.destination c.port

/-- The address that the server makes of the request. -/
def address (c : Client) : Address := c.destination.address c.port

/-- Whether the client is asked for its credentials. -/
def identified (c : Client) : Prop := authUserpass ∈ c.methods

instance (c : Client) : Decidable c.identified := inferInstanceAs (Decidable (_ ∈ _))

/-- The client offers a method that the server can choose. -/
def Served (c : Client) : Prop := c.identified ∨ authNone ∈ c.methods

/-- What `getAuth()` should return: the credentials, if the client is asked for them. -/
def auth (c : Client) : Option Credentials :=
  if c.identified then some ⟨utf8Decode c.username, utf8Decode c.password⟩ else none

/-- The method that the server should choose. -/
def selection (c : Client) : Bytes :=
  if c.identified then [socksVersion, authUserpass] else [socksVersion, authNone]

/-- The replies with which the server lets the client make its request. -/
def granted (c : Client) : List Bytes :=
  if c.identified then [c.selection, [0x01, 0x00]] else [c.selection]

/-- What the client sends before its request. -/
def introduction (c : Client) : Bytes :=
  if c.identified then c.greeting ++ c.message else c.greeting

end Client

/-- Where a client is: it waits for a reply, or is done. -/
inductive Stage
  | method
  | status
  | reply
  | connected
  | failed
  deriving DecidableEq, Repr

namespace Client

variable {c : Client}

/-- What the server reads of the methods is what the client offers. -/
theorem offeredMethods_greeting (c : Client) :
    offeredMethods c.greeting = c.methods.map some := by
  have hlength : c.greeting[1]? = some (UInt8.ofNat c.methods.length) := by
    simp [greeting, prefixed_one c.methods_fit]
  have hcount : (UInt8.ofNat c.methods.length).toNat = c.methods.length := by
    simp [Nat.mod_eq_of_lt c.methods_fit]
  rw [offeredMethods, hlength]
  simp only [hcount]
  apply List.ext_getElem?
  intro i
  by_cases hi : i < c.methods.length
  · simp [greeting, prefixed_one c.methods_fit, hi, Nat.add_comm 2]
  · simp [hi]

/-- The method that the server chooses for a whole greeting. -/
theorem choose_greeting (c : Client) :
    choose c.greeting =
      if c.identified then .userpass
      else if authNone ∈ c.methods then .noAuth else .noAcceptable := by
  have hversion : c.greeting[0]? = some socksVersion := rfl
  have hoffered : ∀ method, some method ∈ offeredMethods c.greeting ↔ method ∈ c.methods := by
    simp [offeredMethods_greeting]
  rw [choose, if_neg (by simp [hversion])]
  by_cases huser : c.identified
  · rw [if_pos ((hoffered _).mpr huser), if_pos huser]
  · rw [if_neg fun h => huser ((hoffered _).mp h), if_neg huser]
    by_cases hnone : authNone ∈ c.methods
    · rw [if_pos ((hoffered _).mpr hnone), if_pos hnone]
    · rw [if_neg fun h => hnone ((hoffered _).mp h), if_neg hnone]

/-- **Of a part of the message only the whole is accepted**, with the client's credentials. -/
theorem parseAuth_chunk (h : c.identified) {chunk : Bytes} (hchunk : chunk <+: c.message)
    {credentials : Credentials} (hparse : parseAuth chunk = some credentials) :
    chunk = c.message ∧ some credentials = c.auth := by
  obtain ⟨-, username, password, ⟨husername, hpassword, version, rest, rfl⟩, rfl⟩ :=
    parseAuth_eq_some.mp hparse
  obtain ⟨more, hmore⟩ := hchunk
  have hbegins : BeginsWith c.message username password := by
    refine ⟨husername, hpassword, version, rest ++ more, ?_⟩
    rw [← hmore]
    simp
  have hown : BeginsWith c.message c.username c.password :=
    ⟨c.username_fits, c.password_fits, 0x01, [], by simp [message]⟩
  obtain ⟨rfl, rfl⟩ := hbegins.unique hown
  rw [message, List.cons_append] at hmore
  obtain ⟨rfl, hfields⟩ := List.cons_eq_cons.mp hmore
  have hnil : rest = [] := by
    have hempty : rest ++ more = [] := by simpa using hfields
    exact (List.append_eq_nil_iff.mp hempty).1
  exact ⟨by simp [message, hnil], by simp [auth, h]⟩

/-- **Of a part of the request only the whole is accepted**, -/
theorem eq_request {chunk : Bytes} (hchunk : chunk <+: c.request) {address : Address}
    (hparse : parseAddress chunk = some address) : chunk = c.request := by
  have hprefix : chunk <+: Socks5.request c.destination c.port ++ [] := by
    rwa [List.append_nil]
  have hwhole : ¬ (chunk.length < minRequestSize ∨ chunk.length < c.destination.requestLength) := by
    rw [← parseAddress_truncated c.destination c.port hprefix, hparse]
    simp
  refine hchunk.eq_of_length_le ?_
  rw [request, length_request]
  omega

/-- with the client's destination. -/
theorem parseAddress_chunk {chunk : Bytes} (hchunk : chunk <+: c.request) {address : Address}
    (hparse : parseAddress chunk = some address) : address = c.address := by
  rw [eq_request hchunk hparse] at hparse
  have hrequests : Requests c.request c.destination c.port := by
    simpa [request] using requests_request c.destination c.port []
  exact address_of_requests hparse hrequests

end Client

/-! ## The session -/

/-- The server's socket for a client, the client, and how far they have read what the other has
sent. -/
structure Session where
  socket : Socket
  stage : Stage
  /-- All that the client has sent, -/
  sent : Bytes
  /-- of which the server was given this many bytes. -/
  taken : ℕ
  /-- So many bytes of the replies the client has read. -/
  read : ℕ
  deriving DecidableEq, Repr

namespace Session

/-- What happens in a session. -/
inductive Event
  /-- The server's socket emits the next bytes as one chunk; `answer` is how `authenticate` ends
  if it is called. -/
  | deliver (n : ℕ) (answer : AuthInfo → Answer)
  /-- Anything else happens at the server. -/
  | server (e : Socks5.Event)
  /-- The client reads the next reply, if it has arrived as a whole. -/
  | receive
  /-- A connected client sends data. -/
  | send (data : Bytes)

/-- A session in which the client has sent its greeting. -/
def new (c : Client) (endpoints : SocketInfo) : Session :=
  ⟨Socket.accepted endpoints, .method, c.greeting, 0, 0⟩

/-- The replies that the client has not read. -/
def arrived (s : Session) : Bytes := (repliesOf s.socket.log).flatten.drop s.read

/-- The client sends a message and waits for the reply to it. -/
def proceed (s : Session) (stage : Stage) (message : Bytes) (read : ℕ) : Session :=
  { s with stage := stage, sent := s.sent ++ message, read := s.read + read }

/-- The client reads a reply. -/
def receive (c : Client) (s : Session) : Session :=
  match s.stage, s.arrived with
  | .method, version :: method :: _ =>
    if version = socksVersion ∧ method = authUserpass ∧ authUserpass ∈ c.methods then
      s.proceed .status c.message 2
    else if version = socksVersion ∧ method = authNone ∧ authNone ∈ c.methods then
      s.proceed .reply c.request 2
    else s.proceed .failed [] 2
  | .status, _ :: status :: _ =>
    if status = 0x00 then s.proceed .reply c.request 2 else s.proceed .failed [] 2
  -- the server's replies to a request have an IPv4 address
  | .reply, _ :: rep :: _ :: _ :: _ :: _ :: _ :: _ :: _ :: _ :: _ =>
    if rep = 0x00 then s.proceed .connected [] 10 else s.proceed .failed [] 10
  | _, _ => s

/-- The next bytes that the server is given. -/
def chunk (s : Session) (n : ℕ) : Bytes := (s.sent.drop s.taken).take n

/-- The reaction to an event. -/
def step (opts : Options) (c : Client) (s : Session) : Event → Session
  | .deliver n answer =>
    { s with
      socket := s.socket.step opts (.data (s.chunk n) answer)
      taken := s.taken + n }
  | .server e => { s with socket := s.socket.step opts e }
  | .receive => s.receive c
  | .send data => if s.stage = .connected then { s with sent := s.sent ++ data } else s

/-- What the network can do: it delivers bytes that were sent, in order. -/
def Admits (s : Session) : Event → Prop
  | .deliver n _ => 0 < n ∧ s.taken + n ≤ s.sent.length ∧ s.socket.destroyed = false
  | .server e => ∀ chunk answer, e ≠ .data chunk answer
  | _ => True

/-- The cuts that the server does not misread: the greeting arrives as a whole, or in a first
chunk that offers nothing, and what arrives while a check is pending is all that is under way. -/
def Whole (s : Session) : Event → Prop
  | .deliver n _ =>
    (s.socket.dataListeners = [.greeting] →
      s.taken + n = s.sent.length ∨ choose (s.chunk n) = .noAcceptable) ∧
    (s.socket.checks ≠ [] → s.taken + n = s.sent.length)
  | _ => True

end Session

end Proxinator.Socks5
