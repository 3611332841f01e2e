import Proxinator.Client.Chain
import Proxinator.Socks5.Destination

/-!
# The agent, and IP addresses as targets

The agent of HTTP and HTTPS requests makes a URL of the host and the port that it is asked
for, and chains the proxies to it. Such a URL, or that of a SOCKS5 server, comes to a client
that dials it. The host name of a URL keeps the brackets of an IPv6 address; the clients
hand it on with them, and what is handed on is no address then.

## Main results

* `createConnection_literal` — the agent makes a URL of every IP address.
* `Targets.hostname` — the host name of a URL that is made for an address.
* `literal_dialed_iff` — what a client dials is that address for IPv4 only.
-/

namespace Proxinator.Client

open Lib Socks5

variable {World Socket Lookup : Type*}

/-! ## The agent -/

/-- The options of the agent. -/
structure AgentOptions (Lookup : Type*) where
  lookup : Option Lookup
  family : Option ℕ
  /-- `connect`: the promise of a target for a host and a port. -/
  connect : Option (String → ℕ → Except Error Url)

/-- How `createConnection` ends: `new URL` throws, or the callback is given an error or a
socket. -/
inductive Created (Socket : Type*)
  | throws
  | callback (result : Except Error (Option Socket))

/-- The URL of the target. -/
def agentTarget (tail : List Char → UrlTail) (host : String) (port : ℕ) : Option Url :=
  let hostPart := if ':' ∈ host.toList then "[" ++ host ++ "]" else host
  newTcpUrl tail (hostPart ++ ":" ++ toString port)

/-- `createConnection` of the agent. -/
def createConnection (node : Node World Socket Lookup) (tail : List Char → UrlTail)
    (proxies : List Url) (opts : AgentOptions Lookup) (host : String) (port : ℕ) (w : World) :
    Created Socket × World :=
  let chainTo (target : Url) : Created Socket × World :=
    let (result, w) := chain node ⟨opts.lookup, none, opts.family⟩ proxies target w
    (.callback result, w)
  match opts.connect with
  | some connect =>
    match connect host port with
    | .ok target => chainTo target
    | .error e => (.callback (.error e), w)
  | none =>
    match agentTarget tail host port with
    | some target => chainTo target
    | none => (.throws, w)

/-! ## URLs of IP addresses -/

/-- What a SOCKS5 request for an address asks for. -/
def destinationOf : Ip → Destination
  | .v4 ip => .ipv4 ip
  | .v6 ip => .ipv6 ip

/-- A URL that is made for an address and a port: by `getDestination` of the SOCKS5 server,
or by the agent for any text of the address. -/
inductive Targets (tail : List Char → UrlTail) (ip : Ip) (port : Fin 65536) (url : Url) : Prop
  | server (data : Bytes) (address : Address) (parsed : parseAddress data = some address)
      (requests : Requests data (destinationOf ip) port)
      (made : getDestination tail address = some url)
  | agent (host : String) (literal : parseIp host.toList = some ip)
      (made : agentTarget tail host port.val = some url)

/-- **The agent reads the text of an address as a host.** -/
theorem agentTarget_literal (tail : List Char → UrlTail) {host : String} {ip : Ip}
    (h : parseIp host.toList = some ip) (port : Fin 65536) :
    agentTarget tail host port.val =
      some (tcpUrl tail
        (match ip with
          | .v4 _ => host.toList
          | .v6 ip => '[' :: (ip.toText ++ [']'])) port) := by
  rw [parseIp] at h
  cases hv4 : parseIpv4 host.toList with
  | some ip4 =>
      rw [hv4] at h
      obtain rfl := Option.some.inj h
      have hcolon : ':' ∉ host.toList := by
        intro hmem
        rcases mem_of_parseIpv4 hv4 ':' hmem with hdot | hdigit
        · exact absurd hdot (by decide)
        · exact absurd hdigit (by decide)
      have hurl := newTcpUrl_hostPort tail (readAs_of_parseIpv4 hv4) port
      rw [String.ofList_toList] at hurl
      simp only [agentTarget, if_neg hcolon]
      exact hurl
  | none =>
      rw [hv4] at h
      obtain ⟨ip6, hv6, rfl⟩ := Option.map_eq_some_iff.mp h
      have hurl := newTcpUrl_hostPort tail (readAs_bracket hv6) port
      have hbrackets : String.ofList ('[' :: (host.toList ++ [']'])) = "[" ++ host ++ "]" := by
        rw [← String.toList_inj]
        simp
      rw [hbrackets] at hurl
      simp only [agentTarget, if_pos (colon_mem_of_parseIpv6 hv6)]
      exact hurl

/-- **For the text of an address `createConnection` does not throw**, and the proxies are chained
to the URL of the address. -/
theorem createConnection_literal (node : Node World Socket Lookup) (tail : List Char → UrlTail)
    (proxies : List Url) {opts : AgentOptions Lookup} (hconnect : opts.connect = none)
    {host : String} {ip : Ip} (h : parseIp host.toList = some ip) (port : Fin 65536) (w : World) :
    ∃ target, agentTarget tail host port.val = some target ∧
      createConnection node tail proxies opts host port.val w =
        let (result, w) := chain node ⟨opts.lookup, none, opts.family⟩ proxies target w
        (.callback result, w) := by
  have htarget := agentTarget_literal tail h port
  refine ⟨_, htarget, ?_⟩
  simp only [createConnection, hconnect, htarget]

/-- **The host name of a URL that is made for an address**: a text of an IPv4 address, and for
IPv6 something in brackets. -/
theorem Targets.hostname {tail : List Char → UrlTail} {ip : Ip} {port : Fin 65536} {url : Url}
    (h : Targets tail ip port url) :
    url.port = some port ∧
      match ip with
      | .v4 ip => parseIpv4 url.hostname.toList = some ip
      | .v6 _ => ∃ text, url.hostname.toList = '[' :: text := by
  cases h with
  | server data address parsed requests made =>
      obtain ⟨url', hmade, hport, hdenoted⟩ :=
        (names_iff tail (destinationOf ip) port).mpr (by cases ip <;> trivial)
      rw [address_of_requests parsed requests, hmade] at made
      obtain rfl := Option.some.inj made
      refine ⟨hport, ?_⟩
      cases ip with
      | v4 ip => exact hdenoted
      | v6 ip =>
          obtain ⟨text, htext, -⟩ := hdenoted
          exact ⟨_, htext⟩
  | agent host literal made =>
      rw [agentTarget_literal tail literal port] at made
      obtain rfl := Option.some.inj made
      refine ⟨rfl, ?_⟩
      cases ip with
      | v4 ip =>
          have hhostname : (tcpUrl tail host.toList port).hostname.toList = host.toList :=
            String.toList_ofList
          rw [parseIp] at literal
          cases hv4 : parseIpv4 host.toList with
          | some ip4 =>
              rw [hv4] at literal
              cases literal
              exact (congrArg parseIpv4 hhostname).trans hv4
          | none =>
              rw [hv4] at literal
              obtain ⟨ip6, -, hv6⟩ := Option.map_eq_some_iff.mp literal
              cases hv6
      | v6 ip => exact ⟨ip.toText ++ [']'], String.toList_ofList⟩

/-! ## What is dialed -/

/-- A client that a target comes to: the direct client, or the SOCKS5 client of a proxy. -/
inductive Dialer
  | reverse
  | socks5 (proxy : Url)

/-- The host and the port that a client hands on: to `net.connect`, or to the `socks` package;
`none` where the user information of its proxy cannot be decoded. -/
def Dialer.handed (opts : Options Socket Lookup) (url : Url) : Dialer → Option (String × ℕ)
  | reverse => some ((connectOptions url opts).host, (connectOptions url opts).port)
  | socks5 proxy =>
    match socksOptions proxy url opts with
    | .ok o => some (o.destinationHost, o.destinationPort)
    | .error _ => none

/-- What is handed on are the host name of the URL and its port. -/
theorem Dialer.handed_eq {opts : Options Socket Lookup} {url : Url} {port : Fin 65536}
    (hport : url.port = some port) {dialer : Dialer} {handed : String × ℕ}
    (h : dialer.handed opts url = some handed) :
    handed.1 = url.hostname ∧ (handed.2 = port.val ↔ dialer = .reverse ∨ port ≠ 0) := by
  cases dialer with
  | reverse =>
      cases h
      simp [connectOptions, hport]
  | socks5 proxy =>
      rw [Dialer.handed] at h
      cases ho : socksOptions proxy url opts with
      | error e =>
          rw [ho] at h
          cases h
      | ok o =>
          rw [ho] at h
          cases h
          simp only [socksOptions] at ho
          cases hcredentials : credentials proxy with
          | error e =>
              rw [hcredentials] at ho
              cases ho
          | ok userinfo =>
              rw [hcredentials] at ho
              cases ho
              refine ⟨rfl, ?_⟩
              have hzero : port ≠ 0 ↔ port.val ≠ 0 := not_congr Fin.ext_iff
              simp only [Url.portOr, hport, reduceCtorEq, false_or, hzero]
              split_ifs with h0
              · omega
              · omega

/-- **What is dialed for an IP address is that address and its port exactly for IPv4**, there
unless a SOCKS5 proxy is asked for port 0. -/
theorem literal_dialed_iff {tail : List Char → UrlTail} {ip : Ip} {port : Fin 65536} {url : Url}
    (hurl : Targets tail ip port url) (opts : Options Socket Lookup) {dialer : Dialer}
    {handed : String × ℕ} (h : dialer.handed opts url = some handed) :
    parseIp handed.1.toList = some ip ∧ handed.2 = port.val ↔
      (∃ ip4, ip = .v4 ip4) ∧ (dialer = .reverse ∨ port ≠ 0) := by
  obtain ⟨hport, hhostname⟩ := hurl.hostname
  obtain ⟨hhost, hsame⟩ := Dialer.handed_eq hport h
  rw [hhost, hsame]
  apply and_congr_left'
  cases ip with
  | v4 ip4 =>
      have hparse : parseIpv4 url.hostname.toList = some ip4 := hhostname
      simp [parseIp, hparse]
  | v6 ip6 =>
      obtain ⟨text, htext⟩ : ∃ text, url.hostname.toList = '[' :: text := hhostname
      simp [htext, parseIp_bracket]

theorem literal_dialed_ipv4 :
    parseIp "127.0.0.1".toList = some (.v4 ⟨127, 0, 0, 1⟩) ∧ 80 = (80 : Fin 65536).val := by
  have hliteral : parseIp "127.0.0.1".toList = some (.v4 ⟨127, 0, 0, 1⟩) := by decide +kernel
  have hhanded : Dialer.handed (⟨none, none, none⟩ : Options ℕ ℕ)
      (tcpUrl pathTail "127.0.0.1".toList 80) .reverse = some ("127.0.0.1", 80) := rfl
  exact (literal_dialed_iff
    (.agent "127.0.0.1" hliteral (agentTarget_literal pathTail hliteral 80)) _ hhanded).mpr
    ⟨⟨_, rfl⟩, Or.inl rfl⟩

/-- CONNECT [::1]:80. -/
def loopbackRequest : Bytes :=
  [5, 1, 0, 4, 0, 0, 0, 0, 0, 0, 0, 0, 0, 0, 0, 0, 0, 0, 0, 1, 0, 80]

/-- **For the IPv6 loopback address a host name in brackets is dialed.** -/
theorem literal_dialed_brackets :
    ∃ url, Targets pathTail (.v6 ⟨[0, 0, 0, 0, 0, 0, 0, 1], rfl⟩) 80 url ∧
      (connectOptions url (⟨none, none, none⟩ : Options ℕ ℕ)).host = "[::1]" ∧
      parseIp "[::1]".toList = none := by
  have hparsed : parseAddress loopbackRequest = some ⟨"0:0:0:0:0:0:0:1", 80, 4⟩ := by
    decide +kernel
  have hmade : (getDestination pathTail ⟨"0:0:0:0:0:0:0:1", 80, 4⟩).map Url.hostname =
      some "[::1]" := by
    decide +kernel
  obtain ⟨url, hurl, hhost⟩ := Option.map_eq_some_iff.mp hmade
  exact ⟨url, .server loopbackRequest _ hparsed ⟨5, 1, 0, [], by decide⟩ hurl, hhost,
    parseIp_bracket _⟩

end Proxinator.Client
