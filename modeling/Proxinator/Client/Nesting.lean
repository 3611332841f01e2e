import Proxinator.Client.Chain
import Mathlib.Data.Int.Notation

/-!
# Nested hops

The network log of a chain. A hop that is given a socket sends its handshake over it, unless
its proxy is an HTTPS proxy: the agent that the forward client makes for those dials the
proxy directly. So every such proxy behind the first costs one connection more
(`chain_dials`), and a chain is nested exactly if there is none (`chain_nested_iff`).
-/

namespace Proxinator.Client

variable {World Socket Lookup : Type*} {node : Node World Socket Lookup}

/-- The protocols that a chain has clients for. -/
def Chainable (proxy : Url) : Prop :=
  proxy.protocolName = "http" ∨ proxy.protocolName = "https" ∨ proxy.protocolName = "socks5"

instance (proxy : Url) : Decidable (Chainable proxy) := inferInstanceAs (Decidable (_ ∨ _))

theorem getClient_eq {proxy : Url} (h : Chainable proxy) :
    getClient proxy =
      .ok (.ours (if proxy.protocolName = "socks5" then .socks5 else .forward)) := by
  rcases h with h | h | h <;> simp [getClient, clients, List.lookup_cons, h]

/-- A client is found for these protocols only. -/
theorem chainable_of_getClient {proxy : Url} {client : Protocol}
    (h : getClient proxy = .ok (.ours client)) : Chainable proxy := by
  rw [getClient] at h
  cases hlookup : clients.lookup proxy.protocolName with
  | none =>
      rw [hlookup] at h
      dsimp only at h
      split_ifs at h
      cases h
  | some found =>
      simp only [clients, List.lookup_cons, List.lookup_nil] at hlookup
      split at hlookup
      next heq => exact Or.inl (beq_iff_eq.mp heq)
      next =>
        split at hlookup
        next heq => exact Or.inr (Or.inl (beq_iff_eq.mp heq))
        next =>
          split at hlookup
          next heq => exact Or.inr (Or.inr (beq_iff_eq.mp heq))
          next => cases hlookup

/-- What is no client is found for one protocol. -/
theorem inherited_of_getClient {proxy : Url} (h : getClient proxy = .ok .object) :
    proxy.protocolName = inherited := by
  rw [getClient] at h
  split at h
  · cases h
  · split_ifs at h with hname
    exact hname

/-! ## One hop -/

/-- What a hop asks its proxy for. -/
def Hop.request (hop : Hop) : Request :=
  if hop.proxy.protocolName = "socks5" then .socks5 hop.target.hostname (hop.target.portOr 80)
  else .connect hop.target.host

/-- The port that a proxy is dialed at. -/
def dialPort (proxy : Url) : ℕ :=
  if proxy.protocolName = "http" then HttpModule.http.portOf proxy.port
  else if proxy.protocolName = "https" then HttpModule.https.portOf proxy.port
  else proxy.portOr 1080

/-- A connection to a proxy with a lookup and a family; the `socks` package is given neither. -/
def dialTo (proxy : Url) (lookup : Option Lookup) (family : Option ℕ) (socket : Socket) :
    Action Socket Lookup :=
  if proxy.protocolName = "socks5" then
    .dial socket proxy.hostname (dialPort proxy) none none
  else .dial socket proxy.hostname (dialPort proxy) lookup family

/-- An HTTP or HTTPS hop that gets through had its options, and a response of 200. -/
theorem forward_ok {proxy host : Url} {opts : Options Socket Lookup} {w w' : World}
    {socket : Socket} (h : forward node proxy host opts w = (.ok socket, w')) :
    ∃ o module message head w'', requestOptions node.base64 proxy host opts = .ok o ∧
      protocol proxy.protocolName = some module ∧
      node.request module o w = (.connect 200 message socket head, w'') ∧
      w' = if 0 < head.length then node.unshift socket head w'' else w'' := by
  rw [forward] at h
  split at h
  · cases h
  · cases h
  · rename_i o module ho hmodule
    split at h
    · rename_i status message socket' head w'' hrequest
      by_cases hstatus : status = 200
      · rw [if_neg (not_not.mpr hstatus)] at h
        obtain ⟨hsocket, hw⟩ := Prod.mk.inj h
        obtain rfl : socket' = socket := Except.ok.inj hsocket
        subst hstatus
        exact ⟨o, module, message, head, w'', ho, hmodule, hrequest, hw.symm⟩
      · rw [if_pos hstatus] at h
        cases h
    · cases h
    · cases h

/-- The options of a request, whatever its credentials. -/
theorem requestOptions_ok {base64 : String → String} {proxy host : Url}
    {opts : Options Socket Lookup} {o : RequestOptions Socket Lookup}
    (h : requestOptions base64 proxy host opts = .ok o) :
    o.port = proxy.port ∧ o.host = proxy.hostname ∧ o.path = host.host ∧
      o.createConnection = opts.socket ∧
      o.lookup = (if opts.socket.isSome then none else opts.lookup) ∧
      o.family = opts.givenFamily ∧
      o.agent = if proxy.protocolName = "https" then some ⟨proxy.hostname⟩ else none := by
  rw [requestOptions] at h
  cases hcredentials : credentials proxy with
  | error e =>
      rw [hcredentials] at h
      cases h
  | ok userinfo =>
      rw [hcredentials] at h
      cases h
      exact ⟨rfl, rfl, rfl, rfl, rfl, rfl, rfl⟩

/-- The options of a SOCKS5 handshake, whatever its credentials. -/
theorem socksOptions_ok {proxy target : Url} {opts : Options Socket Lookup}
    {o : SocksOptions Socket} (h : socksOptions proxy target opts = .ok o) :
    o.proxyHost = proxy.hostname ∧ o.proxyPort = proxy.portOr 1080 ∧
      o.destinationHost = target.hostname ∧ o.destinationPort = target.portOr 80 ∧
      o.existingSocket = opts.socket := by
  rw [socksOptions] at h
  cases hcredentials : credentials proxy with
  | error e =>
      rw [hcredentials] at h
      cases h
  | ok userinfo =>
      rw [hcredentials] at h
      cases h
      exact ⟨rfl, rfl, rfl, rfl, rfl⟩

/-- The module of a proxy dials the port of its scheme. -/
theorem protocol_eq_some {proxy : Url} {module : HttpModule}
    (h : protocol proxy.protocolName = some module) :
    proxy.protocolName ≠ "socks5" ∧ module.portOf proxy.port = dialPort proxy := by
  rw [protocol] at h
  split_ifs at h with hhttp hhttps
  · cases h
    rw [dialPort, if_pos hhttp, hhttp]
    exact ⟨by decide, rfl⟩
  · cases h
    rw [dialPort, if_neg hhttp, if_pos hhttps, hhttps]
    exact ⟨by decide, rfl⟩

/-- What the log of a client call may look like: the handshake goes over the socket that
was given, or over a connection that is dialed for it. -/
def Hop.Logged (hop : Hop) (opts : Options Socket Lookup) (socket : Socket)
    (before after : List (Action Socket Lookup)) : Prop :=
  (opts.socket = some socket ∧ hop.proxy.protocolName ≠ "https" ∧
      after = before ++ [.handshake socket hop.request]) ∨
  ((opts.socket = none ∨ hop.proxy.protocolName = "https") ∧
    after = before ++ [dialTo hop.proxy (if opts.socket.isSome then none else opts.lookup)
      opts.givenFamily socket, .handshake socket hop.request])

variable {hop : Hop} {opts : Options Socket Lookup} {w w' : World} {socket : Socket}

/-- **The forward client uses a socket that it is given, except for an HTTPS proxy.** -/
theorem forward_logged (hnode : node.Documented)
    (h : forward node hop.proxy hop.target opts w = (.ok socket, w')) :
    hop.Logged opts socket (node.log w) (node.log w') := by
  obtain ⟨o, module, message, head, w'', ho, hmodule, hrequest, rfl⟩ := forward_ok h
  obtain ⟨hport, hhost, hpath, hsocket, hlookup, hfamily, hagent⟩ := requestOptions_ok ho
  obtain ⟨hsocks, hdial⟩ := protocol_eq_some hmodule
  have hlog : node.log (if 0 < head.length then node.unshift socket head w'' else w'') =
      node.log w'' := by
    split_ifs
    · exact hnode.log_unshift socket head w''
    · rfl
  have hrequested : hop.request = .connect o.path := by rw [Hop.request, if_neg hsocks, hpath]
  have hdialed : dialTo hop.proxy o.lookup o.family socket =
      .dial socket o.host (module.portOf o.port) o.lookup o.family := by
    rw [dialTo, if_neg hsocks, hhost, hport, hdial]
  rw [hlog, Hop.Logged, hrequested, ← hlookup, ← hfamily, hdialed, ← hsocket]
  by_cases hhttps : hop.proxy.protocolName = "https"
  · rw [if_pos hhttps] at hagent
    exact .inr ⟨.inr hhttps, hnode.request_agent _ _ _ _ _ _ _ _ _ hrequest hagent⟩
  · rw [if_neg hhttps] at hagent
    cases hexisting : o.createConnection with
    | none =>
        have hopened := hnode.request_default _ _ _ _ _ _ _ _ hrequest hagent hexisting
        exact .inr ⟨.inl rfl, hopened⟩
    | some existing =>
        obtain ⟨rfl, hsent⟩ :=
          hnode.request_createConnection _ _ _ _ _ _ _ _ _ hrequest hagent hexisting
        exact .inl ⟨rfl, hhttps, hsent⟩

/-- **So does the SOCKS5 client.** -/
theorem socks5_logged (hnode : node.Documented) (hsocks : hop.proxy.protocolName = "socks5")
    (h : socks5 node hop.proxy hop.target opts w = (.ok socket, w')) :
    hop.Logged opts socket (node.log w) (node.log w') := by
  rw [socks5] at h
  cases ho : socksOptions hop.proxy hop.target opts with
  | error e =>
      rw [ho] at h
      cases h
  | ok o =>
      rw [ho] at h
      obtain ⟨hhost, hport, hdestination, hdestinationPort, hsocket⟩ := socksOptions_ok ho
      have hrequested : hop.request = .socks5 o.destinationHost o.destinationPort := by
        rw [Hop.request, if_pos hsocks, hdestination, hdestinationPort]
      have hdialed : ∀ lookup family, dialTo hop.proxy lookup family socket =
          (.dial socket o.proxyHost o.proxyPort none none : Action Socket Lookup) := by
        intro lookup family
        rw [dialTo, if_pos hsocks, hhost, hport, dialPort, hsocks]
        rfl
      rw [Hop.Logged, hrequested, hdialed, ← hsocket, hsocks]
      cases hexisting : o.existingSocket with
      | none => exact .inr ⟨.inl rfl, hnode.socks_dial _ _ _ _ h hexisting⟩
      | some existing =>
          obtain ⟨rfl, hsent⟩ := hnode.socks_existing _ _ _ _ _ h hexisting
          exact .inl ⟨rfl, by decide, hsent⟩

/-- Every client that a chain uses. -/
theorem call_logged (hnode : node.Documented) {client : Protocol}
    (hclient : getClient hop.proxy = .ok (.ours client))
    (h : client.call node hop opts w = (.ok socket, w')) :
    hop.Logged opts socket (node.log w) (node.log w') := by
  rw [getClient_eq (chainable_of_getClient hclient)] at hclient
  split_ifs at hclient with hsocks
  · cases hclient
    exact socks5_logged hnode hsocks h
  · cases hclient
    exact forward_logged hnode h

/-- A hop that gets through came after hops that did. -/
theorem Chained.hop_ok (hnode : node.Documented) (hproxy : Chainable hop.proxy)
    {state : Chained World Socket} {i : ℕ} {result : Option Socket}
    (h : (state.hop node opts (hop, i)).chain = .ok result) :
    ∃ previous socket, state.chain = .ok previous ∧ result = some socket ∧
      (state.hop node opts (hop, i)).sockets = state.sockets ++ previous.toList ∧
      hop.Logged (hopOptions opts i previous) socket (node.log state.world)
        (node.log (state.hop node opts (hop, i)).world) := by
  cases hprevious : state.chain with
  | error e => simp [Chained.hop, hprevious] at h
  | ok previous =>
      have hclient := getClient_eq hproxy
      generalize (if hop.proxy.protocolName = "socks5" then Protocol.socks5 else .forward) = client
        at hclient
      cases hcall : client.call node hop (hopOptions opts i previous) state.world with
      | mk outcome world =>
          simp only [Chained.hop, hprevious, hclient, Found.call, hcall] at h ⊢
          cases outcome with
          | error e => cases h
          | ok socket =>
              cases h
              exact ⟨previous, socket, rfl, rfl, rfl, call_logged hnode hclient hcall⟩

/-- What a client of ours returns is a socket. -/
theorem call_isSocket (hnode : node.Documented) {client : Protocol}
    (h : client.call node hop opts w = (.ok socket, w')) : node.isSocket socket = true := by
  cases client with
  | forward =>
      obtain ⟨o, module, message, head, w'', -, -, hrequest, -⟩ := forward_ok h
      exact hnode.request_socket _ _ _ _ _ _ _ _ hrequest
  | socks5 =>
      rw [Protocol.call, socks5] at h
      cases ho : socksOptions hop.proxy hop.target opts with
      | error e =>
          rw [ho] at h
          cases h
      | ok o =>
          rw [ho] at h
          exact hnode.socks_socket _ _ _ _ h

/-! ## Runs of hops -/

/-- A new connection. -/
def Action.isDial : Action Socket Lookup → Bool
  | .dial .. => true
  | _ => false

/-- How many connections were opened. -/
def dials (log : List (Action Socket Lookup)) : ℕ := log.countP Action.isDial

/-- The proxy dialed for a hop behind the first. -/
def Hop.redials (hop : Hop) : Bool := hop.proxy.protocolName = "https"

@[simp] theorem dials_append (log log' : List (Action Socket Lookup)) :
    dials (log ++ log') = dials log + dials log' :=
  List.countP_append

theorem dials_dialTo (proxy : Url) (lookup : Option Lookup) (family : Option ℕ)
    (socket : Socket) : dials [dialTo proxy lookup family socket] = 1 := by
  rw [dialTo]
  split_ifs <;> rfl

theorem dials_handshake (socket : Socket) (request : Request) :
    dials [(.handshake socket request : Action Socket Lookup)] = 0 := rfl

/-- A hop behind the first opens a connection for an HTTPS proxy, -/
theorem Hop.Logged.dials_eq {i : ℕ} (hi : 0 < i) {previous : Socket}
    {before after : List (Action Socket Lookup)}
    (h : hop.Logged (hopOptions opts i (some previous)) socket before after) :
    dials after = dials before + if hop.redials then 1 else 0 := by
  rw [hopOptions, if_neg (Nat.ne_of_gt hi)] at h
  rcases h with ⟨-, hplain, rfl⟩ | ⟨hnone | hhttps, rfl⟩
  · have hredials : hop.redials = false := by simpa [Hop.redials] using hplain
    rw [dials_append, hredials]
    rfl
  · cases hnone
  · have hredials : hop.redials = true := by simpa [Hop.redials] using hhttps
    rw [List.append_cons, dials_append, dials_append, dials_dialTo, dials_handshake, hredials,
      if_pos rfl]

/-- and else keeps the socket. -/
theorem Hop.Logged.kept {i : ℕ} (hi : 0 < i) {previous : Socket}
    {before after : List (Action Socket Lookup)} (hplain : hop.redials = false)
    (h : hop.Logged (hopOptions opts i (some previous)) socket before after) :
    socket = previous ∧ after = before ++ [.handshake previous hop.request] := by
  rw [hopOptions, if_neg (Nat.ne_of_gt hi)] at h
  rcases h with ⟨hsocket, -, rfl⟩ | ⟨hnone | hhttps, -⟩
  · cases hsocket
    exact ⟨rfl, rfl⟩
  · cases hnone
  · simp [Hop.redials, hhttps] at hplain

/-- A chain that has failed stays so. -/
theorem foldl_hop_error (hops : List (Hop × ℕ)) {state : Chained World Socket} {e : Error}
    (h : state.chain = .error e) : hops.foldl (Chained.hop node opts) state = state := by
  induction hops with
  | nil => rfl
  | cons hop hops ih =>
      have hstay : state.hop node opts hop = state := by simp [Chained.hop, h]
      rw [List.foldl_cons, hstay, ih]

/-- If a run of hops gets through, its first hop does, and the others behind it. -/
theorem foldl_hop_ok (hnode : node.Documented) (hproxy : Chainable hop.proxy) {hops : List Hop}
    {i : ℕ} {state : Chained World Socket} {result : Option Socket}
    (h : (((hop :: hops).zipIdx i).foldl (Chained.hop node opts) state).chain = .ok result) :
    ∃ previous socket, state.chain = .ok previous ∧
      (state.hop node opts (hop, i)).chain = .ok (some socket) ∧
      (state.hop node opts (hop, i)).sockets = state.sockets ++ previous.toList ∧
      hop.Logged (hopOptions opts i previous) socket (node.log state.world)
        (node.log (state.hop node opts (hop, i)).world) := by
  rw [List.zipIdx_cons, List.foldl_cons] at h
  cases hchain : (state.hop node opts (hop, i)).chain with
  | error e =>
      rw [foldl_hop_error _ hchain, hchain] at h
      cases h
  | ok passed =>
      obtain ⟨previous, socket, hprevious, rfl, hsockets, hlogged⟩ :=
        Chained.hop_ok hnode hproxy hchain
      exact ⟨previous, socket, hprevious, rfl, hsockets, hlogged⟩

/-- **Behind the first hop every HTTPS proxy opens a connection, and no other proxy does.** -/
theorem dials_hops (hnode : node.Documented) (hops : List Hop)
    (hproxies : ∀ hop ∈ hops, Chainable hop.proxy) {i : ℕ} (hi : 0 < i)
    {state : Chained World Socket} {previous : Socket}
    (hstate : state.chain = .ok (some previous))
    {result : Option Socket}
    (h : ((hops.zipIdx i).foldl (Chained.hop node opts) state).chain = .ok result) :
    dials (node.log ((hops.zipIdx i).foldl (Chained.hop node opts) state).world) =
      dials (node.log state.world) + hops.countP Hop.redials := by
  induction hops generalizing i state previous with
  | nil => rfl
  | cons hop hops ih =>
      obtain ⟨previous', socket, hprevious, hpassed, -, hlogged⟩ := foldl_hop_ok hnode
        (hproxies hop List.mem_cons_self) h
      obtain rfl : some previous = previous' := by
        rw [hstate] at hprevious
        exact Except.ok.inj hprevious
      have hrest := ih (fun hop hmem => hproxies hop (List.mem_cons_of_mem _ hmem))
        (Nat.succ_pos i) hpassed h
      rw [List.zipIdx_cons, List.foldl_cons, hrest, hlogged.dials_eq hi, List.countP_cons]
      omega

/-- **Without HTTPS proxies all handshakes go over the socket of the first hop.** -/
theorem foldl_hop_kept (hnode : node.Documented) (hops : List Hop)
    (hproxies : ∀ hop ∈ hops, Chainable hop.proxy) {i : ℕ} (hi : 0 < i)
    (hplain : ∀ hop ∈ hops, hop.redials = false) {state : Chained World Socket}
    {previous : Socket} (hstate : state.chain = .ok (some previous)) {result : Option Socket}
    (h : ((hops.zipIdx i).foldl (Chained.hop node opts) state).chain = .ok result) :
    ((hops.zipIdx i).foldl (Chained.hop node opts) state).sockets =
        state.sockets ++ List.replicate hops.length previous ∧
      node.log ((hops.zipIdx i).foldl (Chained.hop node opts) state).world =
        node.log state.world ++ hops.map fun hop => .handshake previous hop.request := by
  induction hops generalizing i state with
  | nil => exact ⟨by simp, by simp⟩
  | cons hop hops ih =>
      obtain ⟨previous', socket, hprevious, hpassed, hsockets, hlogged⟩ := foldl_hop_ok hnode
        (hproxies hop List.mem_cons_self) h
      obtain rfl : some previous = previous' := by
        rw [hstate] at hprevious
        exact Except.ok.inj hprevious
      obtain ⟨rfl, hlog⟩ := hlogged.kept hi (hplain hop List.mem_cons_self)
      have hrest := ih (fun hop hmem => hproxies hop (List.mem_cons_of_mem _ hmem))
        (Nat.succ_pos i) (fun hop hmem => hplain hop (List.mem_cons_of_mem _ hmem)) hpassed h
      rw [hlog, hsockets] at hrest
      rw [List.zipIdx_cons, List.foldl_cons]
      refine ⟨hrest.1.trans ?_, hrest.2.trans ?_⟩
      · simp [List.replicate_succ]
      · simp

/-! ## Chains -/

/-- The hops of a chain, from the first on. -/
theorem hops_cons (first : Url) (rest : List Url) (target : Url) :
    ∃ next, hops (first :: rest) target = ⟨first, next⟩ :: hops rest target :=
  ⟨_, List.mapIdx_cons⟩

/-- A chain that gets through is all of its hops. -/
theorem chain_ok {proxies : List Url} {target : Url} (hne : proxies ≠ [])
    {result : Option Socket} (h : (chain node opts proxies target w).1 = .ok result) :
    (chained node opts proxies target w).chain = .ok result ∧
      (chain node opts proxies target w).2 = (chained node opts proxies target w).world := by
  have hlength : proxies.length ≠ 0 := by simpa using hne
  rw [chain, if_neg hlength] at h ⊢
  cases hchain : (chained node opts proxies target w).chain with
  | ok socket =>
      simp only [hchain] at h ⊢
      exact ⟨h, trivial⟩
  | error e =>
      simp only [hchain] at h
      cases h

/-- **Every hop of a chain is nested in the previous one.** One connection is opened: to the
first proxy, with the lookup and the family of the chain. Then every hop sends its handshake,
the first over that connection, each other over the socket that the hop before it returned. -/
def Nested (node : Node World Socket Lookup) (opts : Options Socket Lookup) (first : Url)
    (rest : List Url) (target : Url) (w : World) : Prop :=
  let returned := (chained node opts (first :: rest) target w).sockets
  ∃ opened, returned.length = rest.length ∧
    node.log (chain node opts (first :: rest) target w).2 =
      node.log w ++ dialTo first opts.lookup opts.givenFamily opened ::
        List.zipWith .handshake (opened :: returned)
          ((hops (first :: rest) target).map Hop.request)

/-- A hop for every proxy. -/
theorem map_proxy_hops (proxies : List Url) (target : Url) :
    (hops proxies target).map Hop.proxy = proxies := by
  induction proxies with
  | nil => rfl
  | cons first rest ih =>
      obtain ⟨next, hhops⟩ := hops_cons first rest target
      rw [hhops, List.map_cons, ih]

theorem chainable_hops {proxies : List Url} {target : Url}
    (h : ∀ proxy ∈ proxies, Chainable proxy) :
    ∀ hop ∈ hops proxies target, Chainable hop.proxy := by
  intro hop hmem
  have hproxy : hop.proxy ∈ proxies := by
    rw [← map_proxy_hops proxies target]
    exact List.mem_map_of_mem hmem
  exact h _ hproxy

theorem givenFamily_hopOptions (opts : Options Socket Lookup) :
    (hopOptions opts 0 none).givenFamily = opts.givenFamily := by
  rw [hopOptions, if_pos rfl, Options.givenFamily, Options.givenFamily, Option.filter_filter]
  simp

/-- The first hop of a chain opens its connection. -/
theorem chained_cons (hnode : node.Documented) {first : Url} (hfirst : Chainable first)
    {rest : List Url} {target : Url} {result : Option Socket}
    (h : (chained node opts (first :: rest) target w).chain = .ok result) :
    ∃ next state opened, hops (first :: rest) target = ⟨first, next⟩ :: hops rest target ∧
      chained node opts (first :: rest) target w =
        ((hops rest target).zipIdx 1).foldl (Chained.hop node opts) state ∧
      state.chain = .ok (some opened) ∧ state.sockets = [] ∧
      node.log state.world = node.log w ++ [dialTo first opts.lookup opts.givenFamily opened,
        .handshake opened (Hop.request ⟨first, next⟩)] := by
  obtain ⟨next, hhops⟩ := hops_cons first rest target
  rw [chained, hhops] at h
  obtain ⟨previous, opened, hprevious, hpassed, hsockets, hlogged⟩ := foldl_hop_ok hnode hfirst h
  cases hprevious
  refine ⟨next, _, opened, hhops, ?_, hpassed, hsockets, ?_⟩
  · rw [chained, hhops]
    rfl
  · rcases hlogged with ⟨hsocket, -⟩ | ⟨-, hlog⟩
    · cases hsocket
    · rw [hlog, givenFamily_hopOptions]
      rfl

/-- **A chain opens one connection, and one more for every HTTPS proxy behind the first.** -/
theorem chain_dials (hnode : node.Documented) (first : Url) (rest : List Url) (target : Url)
    (hproxies : ∀ proxy ∈ first :: rest, Chainable proxy)
    {result : Option Socket} (h : (chain node opts (first :: rest) target w).1 = .ok result) :
    dials (node.log (chain node opts (first :: rest) target w).2) =
      dials (node.log w) + 1 + rest.countP fun proxy => proxy.protocolName = "https" := by
  obtain ⟨hchain, hworld⟩ := chain_ok (List.cons_ne_nil _ _) h
  obtain ⟨next, state, opened, -, hstate, hopened, -, hlog⟩ :=
    chained_cons hnode (hproxies first List.mem_cons_self) hchain
  have hrest : ∀ hop ∈ hops rest target, Chainable hop.proxy := chainable_hops fun proxy hmem =>
    hproxies proxy (List.mem_cons_of_mem _ hmem)
  have hredials : (hops rest target).countP Hop.redials =
      rest.countP fun proxy => proxy.protocolName = "https" := by
    conv_rhs => rw [← map_proxy_hops rest target, List.countP_map]
    rfl
  rw [hstate] at hchain hworld
  rw [hworld, dials_hops hnode _ hrest Nat.one_pos hopened hchain, hlog, List.append_cons,
    dials_append, dials_append, dials_dialTo, dials_handshake, hredials]

theorem dials_handshakes (sockets : List Socket) (requests : List Request) :
    dials (List.zipWith .handshake sockets requests : List (Action Socket Lookup)) = 0 := by
  apply List.countP_eq_zero.mpr
  intro action hmem
  obtain ⟨i, hi, rfl⟩ := List.getElem_of_mem hmem
  rw [List.getElem_zipWith]
  exact Bool.false_ne_true

theorem handshakes_replicate (socket : Socket) (hops : List Hop) :
    (List.zipWith .handshake (List.replicate hops.length socket) (hops.map Hop.request) :
        List (Action Socket Lookup)) =
      hops.map fun hop => .handshake socket hop.request := by
  induction hops with
  | nil => rfl
  | cons hop hops ih =>
      rw [List.length_cons, List.replicate_succ, List.map_cons, List.map_cons,
        List.zipWith_cons_cons, ih]

/-- **A chain that gets through is nested exactly if no proxy behind the first is an HTTPS
proxy.** -/
theorem chain_nested_iff (node : Node World Socket Lookup) (hnode : node.Documented)
    (opts : Options Socket Lookup) (first : Url) (rest : List Url) (target : Url) (w : World)
    (hproxies : ∀ proxy ∈ first :: rest, Chainable proxy)
    (result : Option Socket) (h : (chain node opts (first :: rest) target w).1 = .ok result) :
    Nested node opts first rest target w ↔ ∀ proxy ∈ rest, proxy.protocolName ≠ "https" := by
  obtain ⟨hchain, hworld⟩ := chain_ok (List.cons_ne_nil _ _) h
  obtain ⟨next, state, opened, hhops, hstate, hopened, hsockets, hlog⟩ :=
    chained_cons hnode (hproxies first List.mem_cons_self) hchain
  constructor
  · rintro ⟨opened', -, hnested⟩ proxy hmem hhttps
    have hdials := chain_dials hnode first rest target hproxies h
    have hpos : 0 < rest.countP fun proxy => proxy.protocolName = "https" :=
      List.countP_pos_iff.mpr ⟨proxy, hmem, by simpa using hhttps⟩
    rw [hnested, List.append_cons, dials_append, dials_append, dials_dialTo,
      dials_handshakes] at hdials
    omega
  · intro hplain
    have hkept : ∀ hop ∈ hops rest target, hop.redials = false := by
      intro hop hmem
      have hproxy : hop.proxy ∈ rest := by
        rw [← map_proxy_hops rest target]
        exact List.mem_map_of_mem hmem
      simpa [Hop.redials] using hplain _ hproxy
    rw [hstate] at hchain
    obtain ⟨hreturned, hsent⟩ :=
      foldl_hop_kept hnode (hops rest target)
        (chainable_hops fun proxy hmem => hproxies proxy (List.mem_cons_of_mem _ hmem))
        Nat.one_pos hkept hopened hchain
    rw [hsockets, List.nil_append] at hreturned
    refine ⟨opened, ?_, ?_⟩
    · rw [hstate, hreturned, List.length_replicate, hops, List.length_mapIdx]
    · rw [hworld, hstate, hsent, hreturned, hhops, hlog, List.map_cons, List.zipWith_cons_cons,
        handshakes_replicate]
      simp

/-! ## Chains of two proxies -/

/-- Open a connection, the number of which is the length of the log, for a handshake. -/
def dialed (host : String) (port : ℕ) (lookup : Option ℕ) (family : Option ℕ) (request : Request)
    (log : List (Action ℤ ℕ)) : List (Action ℤ ℕ) :=
  log ++ [.dial log.length host port lookup family, .handshake log.length request]

/-- A network on which every proxy answers 200. The sockets are the numbers from 0 on, and -1 is
every URL. -/
def agreeable : Node (List (Action ℤ ℕ)) ℤ ℕ where
  base64 := id
  request module o log :=
    match o.agent, o.createConnection with
    | none, some socket =>
      if 0 ≤ socket then
        (.connect 200 "OK" socket [], log ++ [.handshake socket (.connect o.path)])
      else (.error (error "socket.on is not a function") none, log)
    | _, _ => (.connect 200 "OK" log.length [],
        dialed o.host (module.portOf o.port) o.lookup o.family (.connect o.path) log)
  createConnection o log :=
    match o.existingSocket with
    | some socket =>
      if 0 ≤ socket then
        (.ok socket, log ++ [.handshake socket (.socks5 o.destinationHost o.destinationPort)])
      else (.error (error "An existing socket was provided but it is not valid"), log)
    | none => (.ok log.length,
        dialed o.proxyHost o.proxyPort none none (.socks5 o.destinationHost o.destinationPort) log)
  connect o log := (log.length, log ++ [.dial log.length o.host o.port o.lookup o.family])
  unshift _ _ log := log
  destroy socket log := log ++ [.destroy socket]
  ofUrl _ := -1
  isSocket socket := decide (0 ≤ socket)
  log := id

theorem agreeable_documented : agreeable.Documented where
  request_createConnection := by
    intro module o w status message socket head w' existing h hagent hexisting
    simp only [agreeable, hagent, hexisting] at h
    split_ifs at h
    · cases h
      exact ⟨rfl, rfl⟩
    · cases h
  request_default := by
    intro module o w status message socket head w' h hagent hexisting
    simp only [agreeable, hagent, hexisting] at h
    cases h
    rfl
  request_agent := by
    intro module o w status message socket head w' agent h hagent
    simp only [agreeable, hagent] at h
    cases h
    rfl
  socks_existing := by
    intro o w socket w' existing h hexisting
    simp only [agreeable, hexisting] at h
    split_ifs at h
    · cases h
      exact ⟨rfl, rfl⟩
    · cases h
  socks_dial := by
    intro o w socket w' h hexisting
    simp only [agreeable, hexisting] at h
    cases h
    rfl
  isSocket_ofUrl := fun _ => rfl
  request_socket := by
    intro module o w status message socket head w' h
    simp only [agreeable] at h
    split at h
    · split_ifs at h with hsocket
      · cases h
        exact decide_eq_true hsocket
      · cases h
    · cases h
      exact decide_eq_true (Int.natCast_nonneg w.length)
  socks_socket := by
    intro o w socket w' h
    simp only [agreeable] at h
    split at h
    · split_ifs at h with hsocket
      · cases h
        exact decide_eq_true hsocket
      · cases h
    · cases h
      exact decide_eq_true (Int.natCast_nonneg w.length)
  log_unshift := fun _ _ _ => rfl
  log_destroy := fun _ _ => rfl

/-- `protocol://hostname:port`. -/
def plainUrl (protocol hostname : String) (port : Option (Fin 65536)) : Url :=
  ⟨protocol, "", "", hostname, port, "", "", ""⟩

theorem chain_nested_http_socks5 :
    Nested agreeable ⟨some 1, none, some 4⟩ (plainUrl "http:" "a.test" (some 8080))
      [plainUrl "socks5:" "b.test" (some 1080)] (plainUrl "tcp:" "c.test" (some 443)) [] :=
  (chain_nested_iff agreeable agreeable_documented _ _ _ _ _ (by decide +kernel) (some 0)
    (by decide +kernel)).mpr (by decide +kernel)

/-- An HTTPS proxy behind an HTTP proxy is dialed past it. -/
theorem chain_https_dialed :
    agreeable.Documented ∧
    (chain agreeable ⟨some 1, none, some 4⟩ [plainUrl "http:" "a.test" (some 8080),
      plainUrl "https:" "b.test" none] (plainUrl "tcp:" "c.test" (some 443)) []).1 = .ok (some 2) ∧
    ¬ Nested agreeable ⟨some 1, none, some 4⟩ (plainUrl "http:" "a.test" (some 8080))
      [plainUrl "https:" "b.test" none] (plainUrl "tcp:" "c.test" (some 443)) [] := by
  refine ⟨agreeable_documented, by decide +kernel, ?_⟩
  rintro ⟨opened, -, hlog⟩
  have hdials := congrArg dials hlog
  rw [List.append_cons, dials_append, dials_append, dials_dialTo, dials_handshakes] at hdials
  exact absurd hdials (by decide +kernel)

end Proxinator.Client
