import Proxinator.Client.Nesting

/-!
# The addresses of the proxies in a chain

A proxy stands in a chain at the front, where its own client dials it, or behind another
proxy, whose client asks for it. The forward client asks for the `host` of the URL, which
shows no port where the URL gives none, and the SOCKS5 client fills in port 80. So the
addresses agree only where the URL gives a port, or where 80 happens to be the right one.

## Main results

* `request_names_iff` — one pair of neighbouring proxies.
* `chain_addresses_iff` — every pair of a chain.
-/

namespace Proxinator.Client

variable {World Socket Lookup : Type*}

/-! ## What is asked for, and what is dialed -/

/-- What the client of a hop asks its proxy for, if it comes to that. -/
def requested (base64 : String → String) (hop : Hop) (opts : Options Socket Lookup) :
    Option Request :=
  match getClient hop.proxy with
  | .error _ => none
  | .ok (.ours .forward) =>
    (requestOptions base64 hop.proxy hop.target opts).toOption.map fun o => .connect o.path
  | .ok (.ours .socks5) =>
    (socksOptions hop.proxy hop.target opts).toOption.map fun o =>
      .socks5 o.destinationHost o.destinationPort
  | .ok .object => none

/-- The address of a proxy: its host, and its port or else that of its scheme. -/
def address (proxy : Url) : String × ℕ := (proxy.hostname, dialPort proxy)

/-- A request that names an address: as the path of a CONNECT request, or as the destination
of a SOCKS5 handshake. -/
def Request.Names (address : String × ℕ) : Request → Prop
  | .connect path => path = address.1 ++ ":" ++ toString address.2
  | .socks5 host port => (host, port) = address

/-! ## One pair of proxies -/

/-- A hop asks for what `Hop.request` says if its user information can be decoded, and else
for nothing. -/
theorem requested_eq (base64 : String → String) (hop : Hop) (opts : Options Socket Lookup)
    (h : Chainable hop.proxy) :
    requested base64 hop opts =
      (credentials hop.proxy).toOption.map fun _ => hop.request := by
  rw [requested, getClient_eq h]
  by_cases hsocks : hop.proxy.protocolName = "socks5"
  · rw [if_pos hsocks, Hop.request, if_pos hsocks]
    simp only [socksOptions]
    cases credentials hop.proxy <;> rfl
  · rw [if_neg hsocks, Hop.request, if_neg hsocks]
    simp only [requestOptions]
    cases credentials hop.proxy <;> rfl

/-- The URL of the next proxy gives its port, or it is an HTTP proxy that a SOCKS5 proxy is
asked for. The SOCKS5 client takes a port of 0 for none, both for its proxy and for its
destination. -/
def Agree (proxy next : Url) : Prop :=
  if proxy.protocolName = "socks5" then
    match next.port with
    | none => next.protocolName = "http"
    | some port => port.val ≠ 0
  else
    match next.port with
    | none => False
    | some port => next.protocolName = "socks5" → port.val ≠ 0

/-- The decimal digits of a port determine it. -/
theorem toString_inj {n m : ℕ} (h : toString n = toString m) : n = m := by
  have hdigits : Nat.toDigits 10 n = Nat.toDigits 10 m := by
    have hlist := congrArg String.toList h
    rwa [Nat.toString_eq_repr, Nat.toString_eq_repr, Nat.toList_repr, Nat.toList_repr] at hlist
  rw [← Nat.ofDigitChars_toDigits (b := 10) (n := n) (by decide) (by decide), hdigits,
    Nat.ofDigitChars_toDigits (by decide) (by decide)]

theorem hostPort_inj {host : String} {n m : ℕ} :
    host ++ ":" ++ toString n = host ++ ":" ++ toString m ↔ n = m := by
  rw [String.append_right_inj]
  exact ⟨toString_inj, congrArg _⟩

/-- A host name with a port is longer than without. -/
theorem hostPort_ne (host : String) (n : ℕ) : host ≠ host ++ ":" ++ toString n := by
  intro h
  have hlength := congrArg String.length h
  simp only [String.length_append] at hlength
  have hcolon : ":".length = 1 := rfl
  omega

/-- The port that a chainable proxy is dialed at. -/
theorem dialPort_eq {proxy : Url} (h : Chainable proxy) :
    dialPort proxy =
      match proxy.port with
      | none =>
        if proxy.protocolName = "http" then 80
        else if proxy.protocolName = "https" then 443
        else 1080
      | some port => if proxy.protocolName = "socks5" ∧ port.val = 0 then 1080 else port.val := by
  rw [dialPort]
  cases hport : proxy.port with
  | none =>
      rcases h with h | h | h <;> simp [h, HttpModule.portOf, Url.portOr, hport]
  | some port =>
      rcases h with h | h | h <;> simp [h, HttpModule.portOf, Url.portOr, hport]

/-- **A proxy asks for the address of the next** exactly in the cases of `Agree`. -/
theorem request_names_iff {proxy next : Url} (hnext : Chainable next) :
    (Hop.request ⟨proxy, next⟩).Names (address next) ↔ Agree proxy next := by
  rw [Hop.request, Agree, address, dialPort_eq hnext]
  by_cases hsocks : proxy.protocolName = "socks5"
  · rw [if_pos hsocks, if_pos hsocks, Request.Names, Prod.mk.injEq, Url.portOr]
    cases next.port with
    | none =>
        rcases hnext with h | h | h <;> simp [h]
    | some port =>
        by_cases hzero : port.val = 0
        · rcases hnext with h | h | h <;> simp [h, hzero]
        · rcases hnext with h | h | h <;> simp [h, hzero]
  · rw [if_neg hsocks, if_neg hsocks, Request.Names, Url.host]
    cases next.port with
    | none =>
        simp only [iff_false]
        exact hostPort_ne _ _
    | some port =>
        simp only [hostPort_inj]
        by_cases hzero : next.protocolName = "socks5" ∧ port.val = 0
        · simp [hzero.1, hzero.2]
        · rw [if_neg hzero]
          simpa using not_and.mp hzero

/-! ## Chains -/

/-- Hop `i` of a chain goes through `proxies[i]` to `proxies[i + 1]`. -/
theorem getElem?_hops {proxies : List Url} {target : Url} {i : ℕ} (hi : i + 1 < proxies.length) :
    (hops proxies target)[i]? = some ⟨proxies[i], proxies[i + 1]⟩ := by
  have hlast : i < proxies.length := by omega
  simp [hops, hi, hlast]

/-- Hop `i` of a chain asks for the address of the next proxy. -/
def AsksForNext (base64 : String → String) (opts : Options Socket Lookup) (proxies : List Url)
    (target : Url) (i : ℕ) (hi : i + 1 < proxies.length) : Prop :=
  ∀ hop socket request, (hops proxies target)[i]? = some hop →
    requested base64 hop (hopOptions opts i socket) = some request →
    request.Names (address proxies[i + 1])

/-- **Hop `i` of a chain asks for the address of the next proxy exactly if the two agree**, or
if it asks for nothing since its user information cannot be decoded. -/
theorem chain_addresses_iff (base64 : String → String) (opts : Options Socket Lookup)
    (proxies : List Url) (target : Url) (hproxies : ∀ proxy ∈ proxies, Chainable proxy) (i : ℕ)
    (hi : i + 1 < proxies.length) :
    AsksForNext base64 opts proxies target i hi ↔
    ((∃ userinfo, credentials proxies[i] = .ok userinfo) → Agree proxies[i] proxies[i + 1]) := by
  have hnext : (Hop.request ⟨proxies[i], proxies[i + 1]⟩).Names (address proxies[i + 1]) ↔
      Agree proxies[i] proxies[i + 1] := request_names_iff (hproxies _ (List.getElem_mem hi))
  have hrequested : ∀ socket,
      requested base64 ⟨proxies[i], proxies[i + 1]⟩ (hopOptions opts i socket) =
        (credentials proxies[i]).toOption.map fun _ =>
          Hop.request ⟨proxies[i], proxies[i + 1]⟩ := by
    intro socket
    exact requested_eq base64 ⟨proxies[i], proxies[i + 1]⟩ _ (hproxies _ (List.getElem_mem _))
  rw [AsksForNext, getElem?_hops hi]
  constructor
  · rintro h ⟨userinfo, huserinfo⟩
    rw [← hnext]
    apply h _ none _ rfl
    rw [hrequested, huserinfo]
    rfl
  · intro h hop socket request hhop hrequest
    cases hhop
    rw [hrequested] at hrequest
    cases huserinfo : credentials proxies[i] with
    | error e =>
        rw [huserinfo] at hrequest
        cases hrequest
    | ok userinfo =>
        rw [huserinfo] at hrequest
        cases hrequest
        exact hnext.mpr (h ⟨_, huserinfo⟩)

theorem chain_addresses_explicit :
    AsksForNext id (⟨none, none, none⟩ : Options ℕ ℕ)
      [plainUrl "http:" "a.test" none, plainUrl "https:" "b.test" (some 8443)]
      (plainUrl "tcp:" "c.test" (some 443)) 0 (by decide) :=
  (chain_addresses_iff id ⟨none, none, none⟩ _ _ (by simp [Chainable, plainUrl, Url.protocolName])
    0 (by decide)).mpr fun _ => by
      simp [Agree, plainUrl, Url.protocolName]

/-- Two HTTP proxies at their default port. -/
def defaultPort : List Url :=
  [plainUrl "http:" "a.test" none, plainUrl "http:" "b.test" none]

/-- **The first is asked for the second without a port.** -/
theorem chain_addresses_default :
    ¬ AsksForNext id (⟨none, none, none⟩ : Options ℕ ℕ) defaultPort
      (plainUrl "tcp:" "c.test" (some 443)) 0 (by decide) := by
  intro h
  have hnames := h ⟨plainUrl "http:" "a.test" none, plainUrl "http:" "b.test" none⟩ none
    (.connect "b.test") rfl (by decide +kernel)
  have haddress : address (plainUrl "http:" "b.test" none) = ("b.test", 80) := by decide +kernel
  change Request.Names (address (plainUrl "http:" "b.test" none)) _ at hnames
  rw [haddress] at hnames
  exact hostPort_ne "b.test" 80 hnames

end Proxinator.Client
