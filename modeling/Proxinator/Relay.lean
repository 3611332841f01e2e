import Proxinator.Client.Chain
import Proxinator.Forward.Destination
import Proxinator.Socks5.Address

/-!
# Relaying from proxy to proxy

A handler that relays asks the next proxy for the destination of its connection. One of our
clients writes the request then and one of our servers reads it, so that the destination goes
through a URL, a request and a URL again at every proxy. The host name survives that as it is,
and so does the port once there is one; the only thing that a SOCKS5 proxy does not let through
is a host name of less than three bytes or more than 255.

## Main definitions

* `relay` — what the server of a proxy makes of what the client asks it for.
* `relayed` — the destination behind any number of proxies.

## Main results

* `relay_eq` — one proxy.
* `relayed_eq` — any number of them.
-/

namespace Proxinator

open Lib Client

/-- What lies between a client and a server that is not ours. -/
structure Wire where
  /-- The target of a CONNECT request, as Node's server reads what Node's client has written;
  `none` where it refuses it. -/
  connect : String → Option String
  /-- The request of the `socks` package; `none` is the error that it throws. -/
  socks : String → ℕ → Option Bytes

/-- A letter or a digit. -/
def alphanumeric (c : Char) : Bool :=
  ('0' ≤ c && c ≤ '9') || ('A' ≤ c && c ≤ 'Z') || ('a' ≤ c && c ≤ 'z')

/-- A character that may stand in the target of a CONNECT request. -/
def authorityChar (c : Char) : Bool := alphanumeric c || c ∈ "-._~!$&'()*+,;=%:[]@".toList

/-- **What is documented of it**: Node passes an authority on as it is, and the `socks` package
asks for an IPv4 address as such, for any other text that is no address as a domain name, which
has to be shorter than 256 bytes. -/
structure Wire.Documented (wire : Wire) : Prop where
  connect : ∀ text : String, (∀ c ∈ text.toList, authorityChar c) → wire.connect text = some text
  ipv4 : ∀ (ip : Ipv4) (port : Fin 65536),
    wire.socks (String.ofList ip.toText) port.val = some (Socks5.request (.ipv4 ip) port)
  domain : ∀ (host : String) (port : Fin 65536) (fits : (utf8Encode host).length < 256),
    host ≠ "" → parseIp host.toList = none →
    wire.socks host port.val = some (Socks5.request (.domain (utf8Encode host) fits) port)
  tooLong : ∀ (host : String) (port : ℕ), 256 ≤ (utf8Encode host).length →
    parseIp host.toList = none → wire.socks host port = none

variable {Socket Lookup : Type*}

section

variable (wire : Wire) (base64 : String → String) (tail : List Char → UrlTail)
  (opts : Options Socket Lookup)

/-- The destination of the connection that a proxy makes of a client's request for a target. -/
def relay (proxy target : Url) : Option Url :=
  match getClient proxy with
  | .error _ => none
  | .ok (.ours .forward) =>
    match requestOptions base64 proxy target opts with
    | .error _ => none
    | .ok options => (wire.connect options.path).bind (Forward.getDestination tail)
  | .ok (.ours .socks5) =>
    match socksOptions proxy target opts with
    | .error _ => none
    | .ok options =>
      (wire.socks options.destinationHost options.destinationPort).bind fun data =>
        (Socks5.parseAddress data).bind (Socks5.getDestination tail)
  -- `Object` asks no proxy for anything
  | .ok .object => none

/-- The destination behind any number of proxies, each of which is asked for the destination
that the one before it was asked for. -/
def relayed (proxies : List Url) (target : Url) : Option Url :=
  proxies.foldlM (fun target proxy => relay wire base64 tail opts proxy target) target

end

/-! ## Host names and ports -/

/-- A character of a registered name or an IPv4 address. -/
def nameChar (c : Char) : Bool := alphanumeric c || c ∈ "-._~!$&'()*+,;=%".toList

/-- A host name that a URL can have: an IPv6 address in brackets, or a registered name. -/
def Hosted (hostname : String) : Prop :=
  (∃ ip : Ipv6, hostname.toList = '[' :: (ip.toText ++ [']'])) ∨
    (hostname.toList ≠ [] ∧ ∀ c ∈ hostname.toList, nameChar c)

/-- What a SOCKS5 request can be made of. -/
def Fits (hostname : String) : Prop := 3 ≤ hostname.length ∧ hostname.length ≤ 255

instance (hostname : String) : Decidable (Fits hostname) := inferInstanceAs (Decidable (_ ∧ _))

theorem defaultSocksPort_lt : 80 < 65536 := by omega

/-- The port that the SOCKS5 client asks for when there is none. -/
def defaultSocksPort : Fin 65536 := ⟨80, defaultSocksPort_lt⟩

/-- The port that a proxy is asked for. -/
def hopPort (client : Protocol) (port : Option (Fin 65536)) : Fin 65536 :=
  match client, port with
  | .forward, port => port.getD Forward.defaultConnectPort
  | .socks5, none => defaultSocksPort
  -- a port of 0 counts as none
  | .socks5, some port => if port.val = 0 then defaultSocksPort else port

theorem ascii_of_alphanumeric {c : Char} (h : alphanumeric c) : c.toNat < 128 := by
  simp only [alphanumeric, Bool.or_eq_true, Bool.and_eq_true, decide_eq_true_eq] at h
  rcases h with (h | h) | h
  · exact lt_of_le_of_lt (b := '9'.toNat) h.2 (by decide)
  · exact lt_of_le_of_lt (b := 'Z'.toNat) h.2 (by decide)
  · exact lt_of_le_of_lt (b := 'z'.toNat) h.2 (by decide)

theorem ascii_of_authorityChar {c : Char} (h : authorityChar c) : c.toNat < 128 := by
  rw [authorityChar, Bool.or_eq_true, decide_eq_true_eq] at h
  rcases h with h | h
  · exact ascii_of_alphanumeric h
  · have hall : "-._~!$&'()*+,;=%:[]@".toList.all (·.toNat < 128) := by decide
    exact of_decide_eq_true (List.all_eq_true.mp hall c h)

/-- The characters of a name belong to an authority, -/
theorem authorityChar_of_nameChar {c : Char} (h : nameChar c) : authorityChar c := by
  rw [nameChar, Bool.or_eq_true, decide_eq_true_eq] at h
  rw [authorityChar, Bool.or_eq_true, decide_eq_true_eq]
  refine h.imp_right fun h => ?_
  have hall : "-._~!$&'()*+,;=%".toList.all (· ∈ "-._~!$&'()*+,;=%:[]@".toList) := by decide
  exact of_decide_eq_true (List.all_eq_true.mp hall c h)

/-- and are kept by the host parser. -/
theorem plain_of_nameChar {c : Char} (h : nameChar c) : Plain c := by
  have hall : ∀ n : Fin 128, nameChar (Char.ofNat n) →
      c0Control (Char.ofNat n) = false ∧ forbiddenHost (Char.ofNat n) = false := by
    decide +kernel
  have hc := hall ⟨c.toNat, ascii_of_authorityChar (authorityChar_of_nameChar h)⟩
  rw [Char.ofNat_toNat] at hc
  exact hc h

/-- So do the digits of an address. -/
theorem authorityChar_of_digit {c : Char} (h : (digitValue c).isSome) : authorityChar c := by
  have hascii : c.toNat < 128 := by
    by_contra hlarge
    simp only [digitValue] at h
    split_ifs at h with h0 ha hA
    · exact hlarge (lt_of_le_of_lt (b := '9'.toNat) h0.2 (by decide))
    · exact hlarge (lt_of_le_of_lt (b := 'f'.toNat) ha.2 (by decide))
    · exact hlarge (lt_of_le_of_lt (b := 'F'.toNat) hA.2 (by decide))
    · cases h
  have hall : ∀ n : Fin 128, (digitValue (Char.ofNat n)).isSome → authorityChar (Char.ofNat n) := by
    decide +kernel
  have hc := hall ⟨c.toNat, hascii⟩
  rw [Char.ofNat_toNat] at hc
  exact hc h

/-- A text of such characters has as many bytes as characters. -/
theorem length_utf8Encode_of_authorityChar {text : String}
    (h : ∀ c ∈ text.toList, authorityChar c) : (utf8Encode text).length = text.length := by
  have hsize : ∀ c ∈ text.toList, (String.utf8EncodeChar c).length = 1 := by
    intro c hc
    rw [String.length_utf8EncodeChar, Char.utf8Size_eq_one_iff, UInt32.le_iff_toNat_le]
    exact Nat.le_of_lt_succ (ascii_of_authorityChar (h c hc))
  rw [utf8Encode, List.length_flatMap, List.map_congr_left hsize, ← String.length_toList]
  simp

namespace Hosted

variable {hostname : String}

/-- A host name is read as a host, and named as it is written. -/
theorem readAs (h : Hosted hostname) : ReadAs hostname.toList hostname.toList := by
  rcases h with ⟨ip, hip⟩ | ⟨hne, hname⟩
  · rw [hip]
    exact readAs_bracket (parseIpv6_toText ip)
  · exact readAs_plain hne fun c hc => plain_of_nameChar (hname c hc)

theorem authority (h : Hosted hostname) : ∀ c ∈ hostname.toList, authorityChar c := by
  rcases h with ⟨ip, hip⟩ | ⟨-, hname⟩
  · intro c hc
    rw [hip] at hc
    simp only [List.mem_cons, List.mem_append, List.not_mem_nil, or_false] at hc
    rcases hc with rfl | hc | rfl
    · decide
    · rcases mem_of_parseIpv6 (parseIpv6_toText ip) c hc with rfl | rfl | hdigit
      · decide
      · decide
      · exact authorityChar_of_digit hdigit
    · decide
  · exact fun c hc => authorityChar_of_nameChar (hname c hc)

/-- It is no IP address, except for an IPv4 address. -/
theorem parseIp_eq_none (h : Hosted hostname) (hv4 : parseIpv4 hostname.toList = none) :
    parseIp hostname.toList = none := by
  rcases h with ⟨ip, hip⟩ | ⟨-, hname⟩
  · rw [hip]
    exact parseIp_bracket _
  · have hv6 : parseIpv6 hostname.toList = none := by
      by_contra hsome
      obtain ⟨ip, hip⟩ := Option.ne_none_iff_exists'.mp hsome
      have hcolon := hname ':' (colon_mem_of_parseIpv6 hip)
      exact absurd hcolon (by decide)
    rw [parseIp, hv4, hv6]
    rfl

end Hosted

/-! ## One proxy -/

/-- Host name and port of a URL. -/
def Url.hostPort (url : Url) : String × Option (Fin 65536) := (url.hostname, url.port)

theorem Hosted.ne_empty {hostname : String} (h : Hosted hostname) : hostname ≠ "" := by
  rintro rfl
  exact h.readAs.ne_nil rfl

/-- A host name by itself is read as a host without a port. -/
theorem Hosted.splitPort_eq {hostname : String} (h : Hosted hostname) :
    splitPort false (Forward.hostPort hostname) = (hostname.toList, none) := by
  have hlast : ∀ hne, ¬ hostname.toList.getLast hne ≤ ' ' := by
    intro hne hle
    have hauthority := h.authority _ (List.getLast_mem hne)
    have hall : ∀ n : Fin 33, authorityChar (Char.ofNat n) = false := by decide
    have hspace : (hostname.toList.getLast hne).toNat ≤ 32 := hle
    have hc := hall ⟨(hostname.toList.getLast hne).toNat, by omega⟩
    rw [Char.ofNat_toNat, hauthority] at hc
    cases hc
  have hself := Forward.hostPort_eq h.readAs.kept hlast
  rw [String.ofList_toList] at hself
  rw [hself]
  exact Forward.splitPort_host (h.readAs.splitPort_eq [])

/-- **The forward server's destination** for the target that the forward client asks for. -/
theorem getDestination_host_eq (tail : List Char → UrlTail) {target : Url}
    (h : Hosted target.hostname) :
    (Forward.getDestination tail target.host).map Url.hostPort =
      some (target.hostname, some (target.port.getD Forward.defaultConnectPort)) := by
  cases hport : target.port with
  | some port =>
      have hurl := newTcpUrl_hostPort tail h.readAs port
      rw [String.ofList_toList] at hurl
      have hhost : target.host = target.hostname ++ ":" ++ toString port.val := by
        rw [Url.host, hport]
      have hname : (tcpUrl tail target.hostname.toList port).hostname = target.hostname :=
        String.ofList_toList
      rw [hhost, Forward.getDestination_of_newTcpUrl hurl (by rw [hname]; exact h.ne_empty)]
      simp [Url.hostPort, tcpUrl]
  | none =>
      have hhost : target.host = target.hostname := by rw [Url.host, hport]
      have hparse : parseHost (splitPort false (Forward.hostPort target.hostname)).1 =
          some target.hostname.toList := by
        rw [h.splitPort_eq]
        exact h.readAs.parseHost_eq
      have hdigits :
          parsePort ((splitPort false (Forward.hostPort target.hostname)).2.getD []) =
            some none := by
        rw [h.splitPort_eq]
        rfl
      obtain ⟨url, hurl, hname, hnone⟩ := Forward.exists_newTcpUrl tail
        (by rw [h.splitPort_eq]; exact h.readAs.ne_nil) hparse hdigits
      rw [String.ofList_toList] at hname
      rw [hhost, Forward.getDestination_of_newTcpUrl hurl (by rw [hname]; exact h.ne_empty)]
      simp [Url.hostPort, hname, hnone]

/-- **The SOCKS5 server's destination** for what the `socks` package is asked for. -/
theorem getDestination_socks_eq {wire : Wire} (hwire : wire.Documented)
    (tail : List Char → UrlTail) {hostname : String} (h : Hosted hostname) (port : Fin 65536) :
    (((wire.socks hostname port.val).bind fun data =>
        (Socks5.parseAddress data).bind (Socks5.getDestination tail)).map Url.hostPort) =
      if Fits hostname then some (hostname, some port) else none := by
  -- what the server reads of a request that it parses
  have hread : ∀ destination : Socks5.Destination,
      destination.hostText = hostname → 3 ≤ destination.requestLength - 7 →
      ((Socks5.parseAddress (Socks5.request destination port)).bind
        (Socks5.getDestination tail)).map Url.hostPort = some (hostname, some port) := by
    intro destination hhost hlength
    have hparse := Socks5.parseAddress_request destination port []
    rw [List.append_nil, if_pos (by simp; omega)] at hparse
    have hurl := Socks5.getDestination_of_readAs tail destination port h.readAs
      (by rw [hhost, String.ofList_toList])
    rw [hparse, Option.bind_some, hurl, Option.map_some, Url.hostPort, tcpUrl,
      String.ofList_toList]
  have hbytes := length_utf8Encode_of_authorityChar h.authority
  cases hv4 : parseIpv4 hostname.toList with
  | some ip =>
      have htext : String.ofList ip.toText = hostname := by
        rw [toText_of_parseIpv4 hv4, String.ofList_toList]
      have hfits : Fits hostname := by
        rw [← htext, Fits, String.length_ofList]
        have hlength := ip.length_toText
        omega
      have hsocks := hwire.ipv4 ip port
      rw [htext] at hsocks
      rw [if_pos hfits, hsocks, Option.bind_some]
      exact hread (.ipv4 ip) ((Socks5.formatIPv4_eq ip).trans htext) le_rfl
  | none =>
      have hip := h.parseIp_eq_none hv4
      by_cases hlong : 256 ≤ (utf8Encode hostname).length
      · rw [hwire.tooLong hostname port.val hlong hip, if_neg (by rw [Fits]; omega)]
        rfl
      · rw [hwire.domain hostname port (Nat.lt_of_not_le hlong) h.ne_empty hip, Option.bind_some]
        by_cases hshort : hostname.length < 3
        · -- the request has less than the minimum size
          have hparse := Socks5.parseAddress_request
            (.domain (utf8Encode hostname) (Nat.lt_of_not_le hlong)) port []
          rw [List.append_nil, if_neg (by simp [Socks5.Destination.requestLength]; omega)] at hparse
          rw [hparse, if_neg (by rw [Fits]; omega)]
          rfl
        · rw [if_pos ⟨Nat.le_of_not_lt hshort, by omega⟩]
          refine hread _ (utf8Decode_utf8Encode hostname) ?_
          simp only [Socks5.Destination.requestLength]
          omega

/-- A proxy that a client can be asked for: its protocol is supported, and its credentials can
be decoded. -/
def Usable (proxy : Url) (client : Protocol) : Prop :=
  getClient proxy = .ok (.ours client) ∧ ∃ userinfo, credentials proxy = .ok userinfo

/-- The port behind a number of proxies. -/
def relayedPort (proxies : List Url) (port : Option (Fin 65536)) : Option (Fin 65536) :=
  proxies.foldl
    (fun port proxy =>
      match getClient proxy with
      | .ok (.ours client) => some (hopPort client port)
      | _ => none)
    port

theorem authority_host {target : Url} (h : Hosted target.hostname) :
    ∀ c ∈ target.host.toList, authorityChar c := by
  intro c hc
  rw [Url.host] at hc
  split at hc
  next => exact h.authority c hc
  next port _ =>
    simp only [String.toList_append, List.mem_append, Nat.toString_eq_repr, Nat.toList_repr] at hc
    rcases hc with (hc | hc) | hc
    · exact h.authority c hc
    · obtain rfl : c = ':' := by simpa using hc
      decide
    · obtain ⟨d, hd, rfl⟩ := mem_toDigits (by decide) hc
      exact authorityChar_of_digit (by rw [digitValue_digitChar (by omega)]; rfl)

theorem portOr_eq_hopPort (target : Url) :
    target.portOr 80 = (hopPort .socks5 target.port).val := by
  rw [Url.portOr, hopPort.eq_def]
  cases hport : target.port with
  | none => rfl
  | some port =>
      dsimp only
      split_ifs
      · rfl
      · rfl

section

variable {wire : Wire} (hwire : wire.Documented) (base64 : String → String)
  (tail : List Char → UrlTail) (opts : Options Socket Lookup)

include hwire

/-- **What arrives behind one proxy**: the host name as it was, and a port; unless the client is
the SOCKS5 client, and the name does not fit. -/
theorem relay_eq {proxy target : Url} {client : Protocol} (husable : Usable proxy client)
    (h : Hosted target.hostname) :
    (relay wire base64 tail opts proxy target).map Url.hostPort =
      if client = .socks5 → Fits target.hostname then
        some (target.hostname, some (hopPort client target.port))
      else none := by
  obtain ⟨hclient, userinfo, hcredentials⟩ := husable
  cases client with
  | forward =>
      simp only [relay, hclient, requestOptions, hcredentials, Except.map,
        hwire.connect _ (authority_host h), Option.bind_some]
      rw [if_pos (by simp)]
      exact getDestination_host_eq tail h
  | socks5 =>
      simp only [relay, hclient, socksOptions, hcredentials, Except.map, portOr_eq_hopPort,
        forall_const]
      exact getDestination_socks_eq hwire tail h _

/-- **What arrives behind any number of proxies**: the host name that was asked for, with the
port that every proxy keeps or gives a default for, unless there is a SOCKS5 proxy among them
for which the name is too short or too long. -/
theorem relayed_eq {proxies : List Url} {target : Url} (h : Hosted target.hostname)
    (husable : ∀ proxy ∈ proxies, ∃ client, Usable proxy client) :
    (relayed wire base64 tail opts proxies target).map Url.hostPort =
      if ∀ proxy ∈ proxies, getClient proxy = .ok (.ours .socks5) → Fits target.hostname then
        some (target.hostname, relayedPort proxies target.port)
      else none := by
  induction proxies generalizing target with
  | nil => rw [if_pos (by simp)]; rfl
  | cons proxy proxies ih =>
      rw [List.forall_mem_cons] at husable
      obtain ⟨⟨client, hclient⟩, husable⟩ := husable
      have hhop := relay_eq hwire base64 tail opts hclient h
      rw [relayed, List.foldlM_cons, relayedPort, List.foldl_cons, hclient.1]
      simp only [List.forall_mem_cons, hclient.1, Except.ok.injEq, Found.ours.injEq]
      by_cases hfits : client = .socks5 → Fits target.hostname
      · rw [if_pos hfits] at hhop
        obtain ⟨next, hnext, hurl⟩ := Option.map_eq_some_iff.mp hhop
        obtain ⟨hname, hport⟩ := Prod.mk.inj hurl
        have hrest := ih (hname.symm ▸ h) husable
        rw [hname, hport] at hrest
        rw [hnext]
        simp only [and_iff_right hfits]
        exact hrest
      · rw [if_neg hfits, Option.map_eq_none_iff] at hhop
        rw [hhop, if_neg (fun hall => hfits hall.1)]
        rfl

end

/-! ## A wire -/

theorem mod_port_lt (port : ℕ) : port % 65536 < 65536 := Nat.mod_lt port (by omega)

/-- A wire that does what is documented. -/
def plainWire : Wire where
  connect text := if text.toList.all authorityChar then some text else none
  socks host port :=
    let port := ⟨port % 65536, mod_port_lt port⟩
    match parseIp host.toList with
    | some (.v4 ip) => some (Socks5.request (.ipv4 ip) port)
    | some (.v6 ip) => some (Socks5.request (.ipv6 ip) port)
    | none =>
      if fits : (utf8Encode host).length < 256 then
        some (Socks5.request (.domain (utf8Encode host) fits) port)
      else none

theorem plainWire_documented : plainWire.Documented where
  connect text h := if_pos (List.all_eq_true.mpr h)
  ipv4 ip port := by
    have hport := Nat.mod_eq_of_lt port.isLt
    simp only [plainWire, String.toList_ofList, parseIp, parseIpv4_toText, hport]
  domain host port fits _ hip := by
    have hport := Nat.mod_eq_of_lt port.isLt
    simp only [plainWire, hip, dif_pos fits, hport]
  tooLong host port hlong hip := by
    simp only [plainWire, hip, dif_neg (Nat.not_lt.mpr hlong)]

theorem relayPort_lt : 5432 < 65536 := by omega

/-- A target with a port. -/
def relayTarget : Url := ⟨"tcp:", "", "", "db.test", some ⟨5432, relayPort_lt⟩, "", "", ""⟩

/-- An HTTP proxy with user name and password, and a SOCKS5 proxy behind it. -/
def relayProxies : List Url :=
  [⟨"http:", "user", "p%40ss", "outer.test", none, "/", "", ""⟩,
    ⟨"socks5:", "", "", "inner.test", none, "", "", ""⟩]

theorem relayed_eq_two :
    (relayed plainWire id (fun _ => ⟨"", "", ""⟩) (⟨none, none, none⟩ : Options Unit Unit)
      relayProxies relayTarget).map Url.hostPort = some ("db.test", some ⟨5432, relayPort_lt⟩) := by
  have husable : ∀ proxy ∈ relayProxies, ∃ client, Usable proxy client := by
    simp only [relayProxies, List.forall_mem_cons, List.not_mem_nil, false_implies, implies_true,
      and_true]
    exact ⟨⟨.forward, by decide +kernel, some ("user", "p@ss"), by decide +kernel⟩,
      ⟨.socks5, by decide +kernel, none, by decide +kernel⟩⟩
  have hhosted : Hosted relayTarget.hostname :=
    Or.inr ⟨by decide, List.all_eq_true.mp (by decide)⟩
  have heq := relayed_eq plainWire_documented id (fun _ => ⟨"", "", ""⟩)
    (⟨none, none, none⟩ : Options Unit Unit) hhosted husable
  rw [heq]
  decide +kernel

end Proxinator
