import Proxinator.Url
import Mathlib.Data.Nat.Notation

/-!
# The proxy clients

The clients that connect to a target directly, through an HTTP or HTTPS proxy, or through a
SOCKS5 proxy. What they ask for is computed here; what comes of it is up to Node and to the
`socks` package, which are the parameter `Node`: it acts on a world of which only the
network log is looked at. `Node.Documented` is what their documentation says.
-/

namespace Proxinator.Client

/-- An error that a promise is rejected with. -/
structure Error where
  message : String
  code : Option String
  /-- The status code of `response`. -/
  response : Option ℕ
  deriving DecidableEq, Repr

/-- An error that has only a message. -/
def error (message : String) : Error := ⟨message, none, none⟩

/-- `CONNECT_TIMEOUT`, in ms; it is the same for every client. -/
@[simp] abbrev connectTimeout : ℕ := 30000

variable {World Socket Lookup : Type*}

/-- The options of a client. -/
structure Options (Socket Lookup : Type*) where
  lookup : Option Lookup
  socket : Option Socket
  family : Option ℕ

/-- `family`, if it is one: 0 counts as none. -/
def Options.givenFamily (opts : Options Socket Lookup) : Option ℕ := opts.family.filter (· ≠ 0)

/-! ## What the clients ask for -/

/-- The modules that send requests. -/
inductive HttpModule
  | http
  | https
  deriving DecidableEq, Repr

/-- `protocol[protocolName]`. -/
def protocol (protocolName : String) : Option HttpModule :=
  if protocolName = "http" then some .http
  else if protocolName = "https" then some .https
  else none

/-- The property that every object literal inherits and a URL can have as its protocol: all others
have capitals or underscores. -/
def inherited : String := "constructor"

/-- What is thrown where there is no such module: nothing is found, or `Object`, which has no
`request`. -/
def noModule (protocolName : String) : Error :=
  error <|
    if protocolName = inherited then "protocol[protocolName].request is not a function"
    else "Cannot read properties of undefined (reading 'request')"

/-- An `https.Agent`. -/
structure Agent where
  servername : String
  deriving DecidableEq, Repr

/-- The options of a request, and its timeout. -/
structure RequestOptions (Socket Lookup : Type*) where
  port : Option (Fin 65536)
  host : String
  method : String
  path : String
  headers : List (String × String)
  /-- The socket that `createConnection` returns. -/
  createConnection : Option Socket
  lookup : Option Lookup
  family : Option ℕ
  agent : Option Agent
  timeout : ℕ

/-- The options of `SocksClient.createConnection`. -/
structure SocksOptions (Socket : Type*) where
  command : String
  proxyHost : String
  proxyPort : ℕ
  proxyType : ℕ
  credentials : Option (String × String)
  destinationHost : String
  destinationPort : ℕ
  timeout : ℕ
  /-- `existing_socket`. -/
  existingSocket : Option Socket

/-- The options of `net.connect`. -/
structure ConnectOptions (Lookup : Type*) where
  port : ℕ
  host : String
  timeout : ℕ
  lookup : Option Lookup
  family : Option ℕ

/-- User name and password of a proxy, decoded. -/
def credentials (proxy : Url) : Except Error (Option (String × String)) :=
  if proxy.username = "" then .ok none
  else
    match decodeURIComponent proxy.username, decodeURIComponent proxy.password with
    | some username, some password => .ok (some (username, password))
    | _, _ => .error (error "URI malformed")

/-- The options of the forward client's request. -/
def requestOptions (base64 : String → String) (proxy host : Url) (opts : Options Socket Lookup) :
    Except Error (RequestOptions Socket Lookup) :=
  (credentials proxy).map fun userinfo =>
    let authorization := userinfo.map fun user =>
      ("Proxy-Authorization", "Basic " ++ base64 (user.1 ++ ":" ++ user.2))
    { port := proxy.port
      host := proxy.hostname
      method := "CONNECT"
      path := host.host
      headers :=
        [("host", host.host), ("connection", "keep-alive"), ("keep-alive", "timeout=3600")] ++
          authorization.toList
      createConnection := opts.socket
      lookup := if opts.socket.isSome then none else opts.lookup
      family := opts.givenFamily
      agent := if proxy.protocolName = "https" then some ⟨proxy.hostname⟩ else none
      timeout := connectTimeout }

/-- The options of the SOCKS5 client. -/
def socksOptions (proxy target : Url) (opts : Options Socket Lookup) :
    Except Error (SocksOptions Socket) :=
  (credentials proxy).map fun userinfo =>
    { command := "connect"
      proxyHost := proxy.hostname
      proxyPort := proxy.portOr 1080
      proxyType := 5
      credentials := userinfo
      destinationHost := target.hostname
      destinationPort := target.portOr 80
      timeout := connectTimeout
      existingSocket := opts.socket }

/-- The options of the direct client. -/
def connectOptions (url : Url) (opts : Options Socket Lookup) : ConnectOptions Lookup where
  -- `url.port || 80` keeps the text "0"
  port := (url.port.map Fin.val).getD 80
  host := url.hostname
  timeout := connectTimeout
  lookup := opts.lookup
  family := opts.givenFamily

/-! ## Node and the network -/

/-- How a CONNECT request ends. -/
inductive Response (Socket : Type*)
  | connect (statusCode : ℕ) (statusMessage : String) (socket : Socket) (head : List UInt8)
  | timeout (socket : Option Socket)
  | error (error : Error) (socket : Option Socket)

/-- What a handshake asks a proxy for. -/
inductive Request
  | connect (path : String)
  | socks5 (host : String) (port : ℕ)
  deriving DecidableEq, Repr

/-- What happens on the network: a new connection is opened, a handshake is sent over a
socket, a socket is destroyed. -/
inductive Action (Socket Lookup : Type*)
  | dial (socket : Socket) (host : String) (port : ℕ) (lookup : Option Lookup) (family : Option ℕ)
  | handshake (socket : Socket) (request : Request)
  | destroy (socket : Socket)
  deriving DecidableEq

/-- Node and the `socks` package. -/
structure Node (World Socket Lookup : Type*) where
  /-- `Buffer.from(text).toString("base64")`. -/
  base64 : String → String
  /-- `http.request` or `https.request`, until the request ends. -/
  request : HttpModule → RequestOptions Socket Lookup → World → Response Socket × World
  /-- `SocksClient.createConnection`, until its promise settles. -/
  createConnection : SocksOptions Socket → World → Except Error Socket × World
  /-- `net.connect`. -/
  connect : ConnectOptions Lookup → World → Socket × World
  unshift : Socket → List UInt8 → World → World
  destroy : Socket → World → World
  /-- A URL that is taken for a socket. -/
  ofUrl : Url → Socket
  /-- Whether something that is taken for a socket is one. -/
  isSocket : Socket → Bool
  /-- What has happened on the network. -/
  log : World → List (Action Socket Lookup)

/-- The port that a module's requests go to. -/
def HttpModule.portOf (module : HttpModule) (port : Option (Fin 65536)) : ℕ :=
  match port, module with
  | some port, _ => port.val
  | none, .http => 80
  | none, .https => 443

/-- **What is documented of Node and the `socks` package**, for requests that reach their
proxy. -/
structure Node.Documented (node : Node World Socket Lookup) : Prop where
  /-- `createConnection` is used if there is no agent. -/
  request_createConnection : ∀ module o w status message socket head w' existing,
    node.request module o w = (.connect status message socket head, w') →
    o.agent = none → o.createConnection = some existing →
    socket = existing ∧ node.log w' = node.log w ++ [.handshake socket (.connect o.path)]
  /-- The default agent opens a connection of its own, -/
  request_default : ∀ module o w status message socket head w',
    node.request module o w = (.connect status message socket head, w') →
    o.agent = none → o.createConnection = none →
    node.log w' = node.log w ++ [.dial socket o.host (module.portOf o.port) o.lookup o.family,
      .handshake socket (.connect o.path)]
  /-- and so does an agent that is given. -/
  request_agent : ∀ module o w status message socket head w' agent,
    node.request module o w = (.connect status message socket head, w') →
    o.agent = some agent →
    node.log w' = node.log w ++ [.dial socket o.host (module.portOf o.port) o.lookup o.family,
      .handshake socket (.connect o.path)]
  /-- The `socks` package sends its handshake over an existing socket, -/
  socks_existing : ∀ o w socket w' existing,
    node.createConnection o w = (.ok socket, w') → o.existingSocket = some existing →
    socket = existing ∧ node.log w' =
      node.log w ++ [.handshake socket (.socks5 o.destinationHost o.destinationPort)]
  /-- or else opens a connection to the proxy. -/
  socks_dial : ∀ o w socket w',
    node.createConnection o w = (.ok socket, w') → o.existingSocket = none →
    node.log w' = node.log w ++ [.dial socket o.proxyHost o.proxyPort none none,
      .handshake socket (.socks5 o.destinationHost o.destinationPort)]
  isSocket_ofUrl : ∀ url, node.isSocket (node.ofUrl url) = false
  /-- What a request or a handshake that succeeds gives is a socket. -/
  request_socket : ∀ module o w status message socket head w',
    node.request module o w = (.connect status message socket head, w') →
    node.isSocket socket = true
  socks_socket : ∀ o w socket w', node.createConnection o w = (.ok socket, w') →
    node.isSocket socket = true
  log_unshift : ∀ socket head w, node.log (node.unshift socket head w) = node.log w
  log_destroy : ∀ socket w, node.log (node.destroy socket w) = node.log w ++ [.destroy socket]

/-! ## The clients -/

variable (node : Node World Socket Lookup)

/-- `destroy` of a socket that a request may not have had yet. -/
def destroyIfAny (socket : Option Socket) (w : World) : World :=
  match socket with
  | some socket => node.destroy socket w
  | none => w

/-- Connect to a target through an upstream proxy. -/
def forward (proxy host : Url) (opts : Options Socket Lookup) (w : World) :
    Except Error Socket × World :=
  match requestOptions node.base64 proxy host opts, protocol proxy.protocolName with
  | .error e, _ => (.error e, w)
  | .ok _, none => (.error (noModule proxy.protocolName), w)
  | .ok requestOptions, some module =>
    match node.request module requestOptions w with
    | (.connect statusCode statusMessage socket head, w) =>
      if statusCode ≠ 200 then
        let message := "Proxy server returned " ++ toString statusCode ++ " (" ++ statusMessage ++
          ") (" ++ proxy.href ++ ") (" ++ host.href ++ ")"
        (.error { error message with response := some statusCode }, node.destroy socket w)
      -- bytes that came with the response go back to the socket
      else (.ok socket, if 0 < head.length then node.unshift socket head w else w)
    | (.timeout socket, w) =>
      let message := "CONNECT timeout after " ++ toString connectTimeout ++ "ms (" ++ proxy.href ++
        ") (" ++ host.href ++ ")"
      (.error (error message), destroyIfAny node socket w)
    | (.error e socket, w) => (.error e, destroyIfAny node socket w)

/-- Connect to a target through an upstream SOCKS5 proxy. -/
def socks5 (proxy target : Url) (opts : Options Socket Lookup) (w : World) :
    Except Error Socket × World :=
  match socksOptions proxy target opts with
  | .error e => (.error e, w)
  | .ok socksOptions => node.createConnection socksOptions w

/-- Connect directly to a target; the socket is returned before it has connected. -/
def reverse (url : Url) (opts : Options Socket Lookup) (w : World) : Socket × World :=
  match opts.socket with
  | some socket => (socket, w)
  | none => node.connect (connectOptions url opts) w

end Proxinator.Client
