import Proxinator.Client

/-!
# Chains of proxies

The chain client: every proxy is asked for the next one, the last for the target, and every
hop but the first is given the socket of the hop before it. A hop that fails makes the
sockets of the hops before it be destroyed.
-/

namespace Proxinator.Client

variable {World Socket Lookup : Type*}

/-! ## The chain client -/

/-- A proxy of a chain, and what it is asked to connect to. -/
structure Hop where
  proxy : Url
  target : Url
  deriving DecidableEq, Repr

/-- A client that `getClient` gives. -/
inductive Protocol
  | forward
  | socks5
  deriving DecidableEq, Repr

/-- `clients`. -/
def clients : List (String × Protocol) :=
  [("http", .forward), ("https", .forward), ("socks5", .socks5)]

/-- What `getClient` finds: a client, or `Object`, the `constructor` that `clients` inherits. -/
inductive Found
  | ours (client : Protocol)
  | object
  deriving DecidableEq, Repr

/-- The client for a proxy based on its protocol. -/
def getClient (proxy : Url) : Except Error Found :=
  match clients.lookup proxy.protocolName with
  | some client => .ok (.ours client)
  | none =>
    if proxy.protocolName = inherited then .ok .object
    else .error (error ("Unsupported proxy protocol: " ++ proxy.protocolName))

/-- A call of a client. -/
def Protocol.call (node : Node World Socket Lookup) (client : Protocol) (hop : Hop)
    (opts : Options Socket Lookup) (w : World) : Except Error Socket × World :=
  match client with
  | .forward => Client.forward node hop.proxy hop.target opts w
  | .socks5 => Client.socks5 node hop.proxy hop.target opts w

/-- A call of what was found: `Object` returns the URL of the proxy. -/
def Found.call (node : Node World Socket Lookup) (found : Found) (hop : Hop)
    (opts : Options Socket Lookup) (w : World) : Except Error Socket × World :=
  match found with
  | .ours client => client.call node hop opts w
  | .object => (.ok (node.ofUrl hop.proxy), w)

/-- Every proxy is asked for the next one, the last for the target. -/
def hops (proxies : List Url) (target : Url) : List Hop :=
  proxies.mapIdx fun i proxy => ⟨proxy, proxies[i + 1]?.getD target⟩

/-- The options of the `i`-th hop: lookup and family for the first, a socket for the others. -/
def hopOptions (opts : Options Socket Lookup) (i : ℕ) (socket : Option Socket) :
    Options Socket Lookup :=
  if i = 0 then { lookup := opts.lookup, socket := none, family := opts.givenFamily }
  else { lookup := none, socket := socket, family := none }

/-- What a chain has come to: its promise, and the sockets it would have to destroy. -/
structure Chained (World Socket : Type*) where
  chain : Except Error (Option Socket)
  sockets : List Socket
  world : World

variable (node : Node World Socket Lookup) (opts : Options Socket Lookup)

/-- Chain one more hop; its index comes with it. -/
def Chained.hop (state : Chained World Socket) (hop : Hop × ℕ) : Chained World Socket :=
  match state.chain with
  | .error _ => state
  | .ok socket =>
    let sockets := state.sockets ++ socket.toList
    match getClient hop.1.proxy with
    | .error e => ⟨.error e, sockets, state.world⟩
    | .ok client =>
      let (result, world) := client.call node hop.1 (hopOptions opts hop.2 socket) state.world
      ⟨result.map some, sockets, world⟩

/-- The hops of a chain, before its `catch`. -/
def chained (proxies : List Url) (target : Url) (w : World) : Chained World Socket :=
  (hops proxies target).zipIdx.foldl (Chained.hop node opts) ⟨.ok none, [], w⟩

/-- `destroy` is called on what was collected; on what is no socket that throws. -/
def destroyAll : List Socket → World → Option Error × World
  | [], w => (none, w)
  | socket :: sockets, w =>
    if node.isSocket socket then destroyAll sockets (node.destroy socket w)
    else (some (error "socket.destroy is not a function"), w)

/-- Chain proxies into a single socket. -/
def chain (proxies : List Url) (target : Url) (w : World) :
    Except Error (Option Socket) × World :=
  if proxies.length = 0 then
    let (socket, w) := reverse node target opts w
    (.ok (some socket), w)
  else
    let state := chained node opts proxies target w
    match state.chain with
    | .ok socket => (.ok socket, state.world)
    | .error e =>
      let (thrown, w) := destroyAll node state.sockets state.world
      (.error (thrown.getD e), w)

end Proxinator.Client
