import Proxinator.Tunnel
import Proxinator.Lib.IpText
import Proxinator.Lib.Run
import Proxinator.Lib.Utf8
import Mathlib.Data.List.Sort

/-!
# The forward server

What the forward server keeps for a client that sent a CONNECT request, from the `connect`
event on, and how it reacts to the events of the client socket and to what the user's
handler does with the connection. A response is the text that `writeResponse` writes, and
`getAuth` reads the credentials of the request.
-/

namespace Proxinator.Forward

open Lib

/-- `PROXY_AGENT`. -/
@[simp] abbrev proxyAgent : String := "Proxinator"

/-- The text of a number: digits with a sign, a point and an exponent, or `NaN` or `Infinity`. -/
structure NumberText where
  text : String
  chars : text.toList.all "0123456789+-.eNaInfity".toList.contains = true
  deriving DecidableEq, Repr

/-- The digits of a natural number. -/
def NumberText.ofNat (n : ℕ) : NumberText where
  text := toString n
  chars := by
    have hdigits : (List.range 10).all fun d =>
        "0123456789+-.eNaInfity".toList.contains (Nat.digitChar d) := by decide
    have htext : (toString n).toList = Nat.toDigits 10 n := by
      rw [show toString n = n.repr from rfl, Nat.repr_eq_ofList_toDigits, String.toList_ofList]
    rw [htext, List.all_eq_true]
    intro c hc
    obtain ⟨d, hd, rfl⟩ := mem_toDigits (by decide) hc
    exact List.all_eq_true.mp hdigits d (List.mem_range.mpr hd)

/-- The numbers that count as none. -/
def NumberText.falsy (number : NumberText) : Bool := number.text = "0" || number.text = "NaN"

/-- Names and values of HTTP headers, in the order in which an object was given them. -/
abbrev Headers := List (String × String)

/-- `Object.assign` of one property: an existing key keeps its place, and what is assigned to
`__proto__` is no property. -/
def setHeader (headers : Headers) (header : String × String) : Headers :=
  if header.1 = "__proto__" then headers
  else if headers.any (·.1 = header.1) then
    headers.map fun h => if h.1 = header.1 then header else h
  else headers ++ [header]

/-- The number that a name is the text of, if it is an array index. -/
def arrayIndex (name : String) : Option ℕ :=
  let index := Nat.ofDigitChars 10 name.toList 0
  if toString index = name ∧ index < 2 ^ 32 - 1 then some index else none

/-- The order of `Object.keys`: array indices come first, in ascending order. -/
def orderKeys (headers : Headers) : Headers :=
  (headers.filter fun header => (arrayIndex header.1).isSome).insertionSort
      (fun header header' => (arrayIndex header.1).getD 0 ≤ (arrayIndex header'.1).getD 0) ++
    headers.filter fun header => !(arrayIndex header.1).isSome

/-- The headers of every response. -/
def defaultHeaders : Headers := [("Connection", "Close"), ("Proxy-agent", proxyAgent)]

/-- The status message; a CR or LF in it would split the response. -/
def safeMessage (statusMessage : String) : String :=
  statusMessage.map fun char => if char = '\r' ∨ char = '\n' then ' ' else char

/-- The line of a header. -/
def headerLine (header : String × String) : String := header.1 ++ ": " ++ header.2

/-- The text of a response: status line and headers, no body. -/
def responseText (statusCode : NumberText) (statusMessage : String) (headers : Headers) : String :=
  let responseHeaders := headers.foldl setHeader defaultHeaders
  let headerLines := (orderKeys responseHeaders).map headerLine
  "HTTP/1.1 " ++ statusCode.text ++ " " ++ safeMessage statusMessage ++ "\r\n" ++
    String.intercalate "\r\n" headerLines ++ "\r\n\r\n"

/-- What a client of the server authenticates with. -/
structure Auth where
  username : String
  password : String
  deriving DecidableEq, Repr

/-- `getAuth`: parse Basic proxy auth from the Proxy-Authorization header, `none` where there is
none. `decode64` is `Buffer.from(text, "base64")`. -/
def getAuth (decode64 : String → Bytes) (header : Option String) : Option Auth :=
  match header with
  | none => none
  | some header =>
    if header = "" then none
    else
      let headerTokens := header.toList.splitOn ' '
      let headerType := headerTokens.headD []
      let headerValue := String.ofList ([' '].intercalate headerTokens.tail)
      if headerType = "Basic".toList then
        let credentials := (utf8Decode (decode64 headerValue)).toList
        match credentials.findIdx? (· = ':') with
        | none => none
        | some colonIndex =>
          some ⟨String.ofList (credentials.take colonIndex),
            String.ofList (credentials.drop (colonIndex + 1))⟩
      else none

/-- A listener of the `error` event: the server's, or that of a tunnel. -/
inductive ErrorListener
  | server
  | tunnel
  deriving DecidableEq, Repr

/-- What the server emits; an error with the connection or without. -/
inductive Emitted
  | connection
  | close
  | error (code : Option String) (connection : Bool)
  deriving DecidableEq, Repr

/-- A connection with its client socket. -/
structure Connection where
  /-- `_head`: what the client sent behind its request. -/
  head : Bytes
  flowing : Bool
  destroyed : Bool
  /-- `end()` was called on the socket. -/
  ended : Bool
  closed : Bool
  errorListeners : List ErrorListener
  /-- How many tunnels the socket's data is piped into. -/
  pipes : ℕ
  /-- The responses written to the client. -/
  responses : List String
  /-- What `bind` wrote to the target, and what is piped to it. -/
  written : List Bytes
  piped : List Bytes
  emitted : List Emitted
  /-- An error was thrown that nothing catches. -/
  uncaught : Bool
  deriving DecidableEq, Repr

namespace Connection

/-- A connection after the server's `connect` handler. -/
def accepted (head : Bytes) : Connection where
  head := head
  flowing := false
  destroyed := false
  ended := false
  closed := false
  errorListeners := [.server]
  pipes := 0
  responses := []
  written := []
  piped := []
  emitted := [.connection]
  uncaught := false

/-- `writeResponse`: nothing is written to a socket that is destroyed or ended. -/
def writeResponse (c : Connection) (statusCode : NumberText) (statusMessage : String)
    (headers : Headers) : Connection :=
  if c.destroyed || c.ended then c
  else { c with responses := c.responses ++ [responseText statusCode statusMessage headers] }

/-- `end`. -/
def endSocket (c : Connection) : Connection := { c with flowing := true, ended := true }

/-- `error`: a response with the error's message, by default with status 400. -/
def refuse (c : Connection) (message : String) (status : Option NumberText) (headers : Headers) :
    Connection :=
  let statusCode := (status.filter (!·.falsy)).getD (.ofNat 400)
  (c.writeResponse statusCode message headers).endSocket

/-- `bind`: the head to the target, the response to the client, then the tunnel. -/
def bind (c : Connection) : Connection :=
  let c := { c with written := if 0 < c.head.length then c.written ++ [c.head] else c.written }
  let c := c.writeResponse (.ofNat 200) "Connection Established" []
  { c with
    errorListeners := c.errorListeners ++ [.tunnel]
    pipes := c.pipes + 1
    flowing := true }

/-- The socket emits a chunk while it flows; without a tunnel it is lost. -/
def onData (c : Connection) (data : Bytes) : Connection :=
  if c.flowing && !c.destroyed then { c with piped := c.piped ++ List.replicate c.pipes data }
  else c

/-- An `error` listener is called. -/
def callErrorListener (code : Option String) (c : Connection) : ErrorListener → Connection
  | .server => { c with emitted := c.emitted ++ [.error code false], destroyed := true }
  | .tunnel =>
    if isBenign code then { c with destroyed := true }
    else { c with emitted := c.emitted ++ [.error code true], destroyed := true }

/-- The socket emits `error`; its stream is destroyed then. -/
def onError (c : Connection) (code : Option String) : Connection :=
  if c.closed then c
  else if c.errorListeners = [] then { c with destroyed := true, uncaught := true }
  else c.errorListeners.foldl (callErrorListener code) { c with destroyed := true }

/-- The socket emits `close`. -/
def onClose (c : Connection) : Connection :=
  if c.closed then c
  else { c with destroyed := true, closed := true, emitted := c.emitted ++ [.close] }

end Connection

/-- An event of a connection. -/
inductive Event
  | bind
  | refuse (message : String) (status : Option NumberText) (headers : Headers)
  | «end»
  | data (data : Bytes)
  | error (code : Option String)
  | close
  deriving DecidableEq, Repr

/-- The reaction to one event. -/
def Connection.step (c : Connection) : Event → Connection
  | .bind => c.bind
  | .refuse message status headers => c.refuse message status headers
  | .end => c.endSocket
  | .data data => c.onData data
  | .error code => c.onError code
  | .close => c.onClose

end Proxinator.Forward
