import Proxinator.Ip
import Proxinator.Url.Parse

/-!
# The destination of a forward connection

The forward server emits a connection for every CONNECT request, and `getDestination` pastes its
target into a URL. Where the URL parser refuses the text, it throws; where the text has no host,
the URL has no port, and none can be set. `complete_iff` says that the other targets are all
right, and `Acceptable` which these are.

## Main results

* `getDestination_eq_some` — when there is a URL that has a port,
* `getDestination_host` — and what it is for a host, with or without a port.
* `complete_iff` — the targets with which a handler can do what it is documented to do.
-/

namespace Proxinator.Forward

open Lib

theorem defaultConnectPort_lt : 443 < 65536 := by omega

/-- `DEFAULT_CONNECT_PORT`. -/
def defaultConnectPort : Fin 65536 := ⟨443, defaultConnectPort_lt⟩

/-- `url.port = port`, which a URL without a host ignores. -/
def setPort (url : Url) (port : Fin 65536) : Url :=
  if url.hostname = "" then url else { url with port := some port }

/-- `getDestination()` of a connection with this target; `none` is the `TypeError` that it
throws. -/
def getDestination (tail : List Char → UrlTail) (target : String) : Option Url :=
  (newTcpUrl tail target).map fun destination =>
    if destination.port = none then setPort destination defaultConnectPort else destination

/-- What a socket reports of its two ends. -/
structure Endpoints where
  localPort : Option ℕ
  localAddress : Option String
  localFamily : Option String
  remotePort : Option ℕ
  remoteAddress : Option String
  remoteFamily : Option String
  deriving DecidableEq, Repr

/-- Connection details. -/
structure Details where
  localPort : Option ℕ
  localHost : Option String
  localAddressFamily : Option String
  remotePort : Option ℕ
  remoteHost : Option String
  remoteAddressFamily : Option String
  destination : Url
  deriving DecidableEq, Repr

/-- `details()`; `none` is what `getDestination` throws. -/
def details (tail : List Char → UrlTail) (endpoints : Endpoints) (target : String) :
    Option Details :=
  (getDestination tail target).map fun destination =>
    { localPort := endpoints.localPort
      localHost := endpoints.localAddress.map normalizeAddress
      localAddressFamily := normalizeFamily endpoints.localAddress endpoints.localFamily
      remotePort := endpoints.remotePort
      remoteHost := endpoints.remoteAddress.map normalizeAddress
      remoteAddressFamily := normalizeFamily endpoints.remoteAddress endpoints.remoteFamily
      destination := destination }

/-! ## Targets -/

/-- The text of host and port in a target: the authority, without user information. -/
def hostPort (target : String) : List Char :=
  let text := (target.toList.rdropWhile (· ≤ ' ')).filter (!isTabOrNewline ·)
  (text.takeWhile (!endsAuthority ·)).rtakeWhile (· ≠ '@')

/-- A host that the parser takes: an IPv6 address in brackets, or a text without forbidden
characters. -/
def HostAccepted (host : List Char) : Prop :=
  (∃ text ip, host = '[' :: (text ++ [']']) ∧ parseIpv6 text = some ip) ∨
    (host.head? ≠ some '[' ∧ ∀ c ∈ host, forbiddenHost c = false)

/-- No digits, or those of a port. -/
def PortAccepted (digits : List Char) : Prop :=
  digits = [] ∨ ∃ n, readDigits 10 digits = some n ∧ n < 65536

/-- **The target has a host, which the parser takes, and no port or one up to 65535.** -/
def Acceptable (target : String) : Prop :=
  let parts := splitPort false (hostPort target)
  parts.1 ≠ [] ∧ HostAccepted parts.1 ∧ PortAccepted (parts.2.getD [])

theorem isSome_parseHost (host : List Char) : (parseHost host).isSome ↔ HostAccepted host := by
  rw [parseHost.eq_def, HostAccepted]
  split
  next text =>
    constructor
    · intro h
      split_ifs at h with hlast
      · obtain ⟨ip, hip⟩ := Option.isSome_iff_exists.mp (Option.isSome_map.symm.trans h)
        have htext : text = text.dropLast ++ [']'] := by
          have hne : text ≠ [] := by
            rintro rfl
            cases hlast
          rw [List.getLast?_eq_some_getLast hne, Option.some.injEq] at hlast
          rw [← hlast, List.dropLast_append_getLast]
        exact Or.inl ⟨text.dropLast, ip, by rw [← htext], hip⟩
      · cases h
    · rintro (⟨text', ip, htext, hip⟩ | ⟨hbracket, -⟩)
      · obtain rfl : text = text' ++ [']'] := by simpa using htext
        simp [hip]
      · exact absurd rfl hbracket
  next _ hbracket =>
    have hhead : host.head? ≠ some '[' := by
      intro h
      obtain ⟨rest, hrest⟩ := List.head?_eq_some_iff.mp h
      exact hbracket rest hrest
    have hopaque : ¬ ∃ text ip, host = '[' :: (text ++ [']']) ∧ parseIpv6 text = some ip := by
      rintro ⟨text, ip, rfl, -⟩
      exact hhead rfl
    rw [or_iff_right hopaque]
    simp [hhead]

theorem isSome_parsePort (digits : List Char) : (parsePort digits).isSome ↔ PortAccepted digits := by
  rw [parsePort, PortAccepted]
  split_ifs with hdigits
  · simp [hdigits]
  · cases hread : readDigits 10 digits with
    | none => simp [hdigits]
    | some n =>
        by_cases hn : n < 65536
        · simp [hdigits, hn]
        · simp [hdigits, hn]

/-- What a URL says of the text it was parsed from, -/
theorem newTcpUrl_eq_some {tail : List Char → UrlTail} {target : String} {url : Url}
    (h : newTcpUrl tail target = some url) :
    parseHost (splitPort false (hostPort target)).1 = some url.hostname.toList ∧
      parsePort ((splitPort false (hostPort target)).2.getD []) = some url.port ∧
      ((splitPort false (hostPort target)).1 = [] →
        (splitPort false (hostPort target)).2 = none) := by
  simp only [newTcpUrl] at h
  split_ifs at h with hempty
  split at h
  next hostname port hhost hport =>
    cases h
    rw [String.toList_ofList]
    refine ⟨hhost, hport, fun hnil => ?_⟩
    by_contra hdigits
    exact hempty (Or.inr ⟨hnil, Option.isSome_iff_ne_none.mpr hdigits⟩)
  next => cases h

/-- and which texts have a URL. -/
theorem exists_newTcpUrl (tail : List Char → UrlTail) {target : String} {hostname : List Char}
    {port : Option (Fin 65536)} (hne : (splitPort false (hostPort target)).1 ≠ [])
    (hhost : parseHost (splitPort false (hostPort target)).1 = some hostname)
    (hport : parsePort ((splitPort false (hostPort target)).2.getD []) = some port) :
    ∃ url, newTcpUrl tail target = some url ∧ url.hostname = String.ofList hostname ∧
      url.port = port := by
  have hne' : hostPort target ≠ [] := by
    intro hnil
    rw [hnil] at hne
    exact hne rfl
  simp only [hostPort] at hne hne' hhost hport
  simp only [newTcpUrl, hne, hne', and_false, false_and, or_self, if_false, hhost, hport]
  exact ⟨_, rfl, rfl, rfl⟩

theorem ne_nil_of_parseHost {host hostname : List Char} (h : parseHost host = some hostname)
    (hne : host ≠ []) : hostname ≠ [] := by
  rcases parseHost_eq_some h with ⟨ip, rfl⟩ | ⟨-, hne'⟩
  · simp
  · exact hne' hne

/-- A URL with a host has its own port, or the default. -/
theorem getDestination_of_newTcpUrl {tail : List Char → UrlTail} {target : String} {url : Url}
    (h : newTcpUrl tail target = some url) (hhost : url.hostname ≠ "") :
    getDestination tail target =
      some { url with port := some (url.port.getD defaultConnectPort) } := by
  rw [getDestination, h, Option.map_some]
  cases hport : url.port with
  | none => rw [if_pos rfl, setPort, if_neg hhost, Option.getD_none]
  | some port =>
      rw [if_neg (Option.some_ne_none port), Option.getD_some, ← hport]

/-- **There is a URL that has a port exactly for an acceptable target.** -/
theorem getDestination_eq_some (tail : List Char → UrlTail) (target : String) :
    (∃ url, getDestination tail target = some url ∧ url.port ≠ none) ↔ Acceptable target := by
  simp only [Acceptable, ← isSome_parseHost, ← isSome_parsePort]
  constructor
  · rintro ⟨url, hurl, hport⟩
    obtain ⟨parsed, hparsed, hset⟩ := Option.map_eq_some_iff.mp hurl
    obtain ⟨hhost, hdigits, hnone⟩ := newTcpUrl_eq_some hparsed
    refine ⟨?_, by rw [hhost]; rfl, by rw [hdigits]; rfl⟩
    -- without a host there is no port, and none is set
    intro hnil
    rw [hnone hnil] at hdigits
    rw [hnil] at hhost
    have hempty : parsed.hostname = "" := by
      have hnil' : parsed.hostname.toList = [] := (Option.some.inj hhost).symm
      exact String.toList_eq_nil_iff.mp hnil'
    have hnoPort : parsed.port = none := (Option.some.inj hdigits).symm
    rw [if_pos hnoPort, setPort, if_pos hempty] at hset
    rw [← hset] at hport
    exact hport hnoPort
  · rintro ⟨hne, hhost, hdigits⟩
    obtain ⟨hostname, hhost⟩ := Option.isSome_iff_exists.mp hhost
    obtain ⟨port, hdigits⟩ := Option.isSome_iff_exists.mp hdigits
    obtain ⟨url, hurl, hname, -⟩ := exists_newTcpUrl tail hne hhost hdigits
    have hname' : url.hostname ≠ "" := by
      rw [hname, ne_eq, String.ofList_eq_empty_iff]
      exact ne_nil_of_parseHost hhost hne
    exact ⟨_, getDestination_of_newTcpUrl hurl hname', Option.some_ne_none _⟩

/-! ## Hosts with and without a port -/

/-- A host that a client may ask for. -/
inductive Host
  /-- A registered name or an IPv4 address: characters that a host keeps. -/
  | name (text : List Char) (nonempty : text ≠ []) (plain : ∀ c ∈ text, Plain c)
  /-- An IPv6 address in brackets. -/
  | ipv6 (text : List Char) (ip : Ipv6) (h : parseIpv6 text = some ip)

namespace Host

/-- The host in a target. -/
def text : Host → List Char
  | name text _ _ => text
  | ipv6 text _ _ => '[' :: (text ++ [']'])

/-- A host name of a URL stands for the host. -/
def NamedBy (hostname : String) : Host → Prop
  | name text _ _ => hostname = String.ofList text
  | ipv6 _ ip _ => ∃ text, hostname.toList = '[' :: (text ++ [']']) ∧ parseIpv6 text = some ip

/-- The host is read as one, and its name stands for it. -/
theorem exists_readAs (host : Host) :
    ∃ hostname, ReadAs host.text hostname ∧ host.NamedBy (String.ofList hostname) := by
  cases host with
  | name text nonempty plain => exact ⟨text, readAs_plain nonempty plain, rfl⟩
  | ipv6 text ip h =>
      refine ⟨_, readAs_bracket h, ip.toText, ?_, parseIpv6_toText ip⟩
      rw [String.toList_ofList]

end Host

/-- Without the colon there is no port. -/
theorem splitPort_host {insideBrackets : Bool} {host : List Char}
    (h : splitPort insideBrackets (host ++ [':']) = (host, some [])) :
    splitPort insideBrackets host = (host, none) := by
  induction host generalizing insideBrackets with
  | nil => rfl
  | cons c host ih =>
      rw [List.cons_append, splitPort] at h
      by_cases hcolon : c = ':' ∧ insideBrackets = false
      · rw [if_pos hcolon] at h
        cases h
      · rw [if_neg hcolon] at h
        obtain ⟨hhost, hdigits⟩ := Prod.mk.inj h
        have hrest := ih (Prod.ext (List.cons.inj hhost).2 hdigits)
        rw [splitPort, if_neg hcolon, hrest]

/-- Of a text without user information all is host and port. -/
theorem hostPort_eq {text : List Char} (hkept : ∀ c ∈ text, Kept c)
    (hlast : ∀ hne, ¬ text.getLast hne ≤ ' ') : hostPort (String.ofList text) = text := by
  have hstrip : text.rdropWhile (· ≤ ' ') = text := by
    rw [List.rdropWhile_eq_self_iff]
    intro hne
    simpa using hlast hne
  have hfilter : text.filter (!isTabOrNewline ·) = text :=
    List.filter_eq_self.mpr fun c hc => by simp [(hkept c hc).2.1]
  have htake : text.takeWhile (!endsAuthority ·) = text :=
    List.takeWhile_eq_self_iff.mpr fun c hc => by simp [(hkept c hc).1]
  have hat : text.rtakeWhile (· ≠ '@') = text :=
    List.rtakeWhile_eq_self_iff.mpr fun c hc => by simp [(hkept c hc).2.2]
  simp only [hostPort, String.toList_ofList, hstrip, hfilter, htake, hat]

theorem Host.getLast_text (host : Host) (hne : host.text ≠ []) :
    ¬ host.text.getLast hne ≤ ' ' := by
  cases host with
  | name text nonempty plain => exact (plain _ (List.getLast_mem _)).not_le_space
  | ipv6 text ip h =>
      have hlast : ('[' :: (text ++ [']'])).getLast (by simp) = ']' := by simp
      simp only [Host.text, hlast]
      decide

/-- A host in a target by itself. -/
theorem splitPort_text (host : Host) :
    splitPort false (hostPort (String.ofList host.text)) = (host.text, none) := by
  obtain ⟨hostname, hread, -⟩ := host.exists_readAs
  rw [hostPort_eq hread.kept host.getLast_text]
  exact splitPort_host (hread.splitPort_eq [])

/-- A host with a port. -/
theorem splitPort_text_port (host : Host) {digits : List Char} {n : ℕ} (hne : digits ≠ [])
    (h : readDigits 10 digits = some n) :
    splitPort false (hostPort (String.ofList (host.text ++ ':' :: digits))) =
      (host.text, some digits) := by
  obtain ⟨hostname, hread, -⟩ := host.exists_readAs
  have hplain : ∀ c ∈ digits, Plain c := by
    intro c hc
    exact plain_of_digit (isSome_digitValue_of_readDigits h c hc)
  rw [hostPort_eq, hread.splitPort_eq]
  · intro c hc
    simp only [List.mem_append, List.mem_cons] at hc
    rcases hc with hc | rfl | hc
    · exact hread.kept c hc
    · exact ⟨by decide, by decide, by decide⟩
    · exact (hplain c hc).kept
  · intro hne'
    rw [List.getLast_append_of_ne_nil _ (by simp), List.getLast_cons hne]
    exact (hplain _ (List.getLast_mem hne)).not_le_space

/-- **The URL of a host** has a name that stands for it, and the port that is given. -/
theorem getDestination_host (tail : List Char → UrlTail) (host : Host) {target : String}
    {digits : Option (List Char)} {port : Option (Fin 65536)}
    (hsplit : splitPort false (hostPort target) = (host.text, digits))
    (hport : parsePort (digits.getD []) = some port) :
    ∃ url, getDestination tail target = some url ∧ host.NamedBy url.hostname ∧
      url.port = some (port.getD defaultConnectPort) := by
  obtain ⟨hostname, hread, hnamed⟩ := host.exists_readAs
  have hparsed : parseHost (splitPort false (hostPort target)).1 = some hostname := by
    rw [hsplit]
    exact hread.parseHost_eq
  have hnumber : parsePort ((splitPort false (hostPort target)).2.getD []) = some port := by
    rw [hsplit]
    exact hport
  obtain ⟨url, hurl, hname, hport'⟩ :=
    exists_newTcpUrl tail (by rw [hsplit]; exact hread.ne_nil) hparsed hnumber
  have hne : url.hostname ≠ "" := by
    rw [hname, ne_eq, String.ofList_eq_empty_iff]
    exact ne_nil_of_parseHost hread.parseHost_eq hread.ne_nil
  refine ⟨_, getDestination_of_newTcpUrl hurl hne, ?_, by rw [hport']⟩
  rw [hname]
  exact hnamed

/-! ## What a handler can do -/

/-- **Destination and details of a connection with this target.** Neither throws, and the URL has
a port; for a host, with or without a port, it has that host, and that port or 443. -/
structure Complete (tail : List Char → UrlTail) (target : String) : Prop where
  destination : ∃ url, getDestination tail target = some url ∧ url.port ≠ none
  details : ∀ endpoints, (details tail endpoints target).isSome
  host_port : ∀ (host : Host) (digits : List Char) (n : ℕ),
    digits ≠ [] → readDigits 10 digits = some n →
    target = String.ofList (host.text ++ ':' :: digits) →
    ∃ url, getDestination tail target = some url ∧ host.NamedBy url.hostname ∧
      url.port.map Fin.val = some n
  host_only : ∀ host : Host, target = String.ofList host.text →
    ∃ url, getDestination tail target = some url ∧ host.NamedBy url.hostname ∧
      url.port.map Fin.val = some 443

/-- **A handler can use every acceptable target, and no other.** -/
theorem complete_iff (tail : List Char → UrlTail) (target : String) :
    Complete tail target ↔ Acceptable target := by
  constructor
  · intro h
    exact (getDestination_eq_some tail target).mp h.destination
  · intro h
    obtain ⟨url, hurl, hport⟩ := (getDestination_eq_some tail target).mpr h
    refine ⟨⟨url, hurl, hport⟩, ?_, ?_, ?_⟩
    · intro endpoints
      rw [details, hurl]
      rfl
    · rintro host digits n hne hdigits rfl
      have hsplit := splitPort_text_port host hne hdigits
      have haccepted : PortAccepted digits := by
        have hlast := h.2.2
        rwa [hsplit] at hlast
      obtain ⟨m, hm, hlt⟩ := haccepted.resolve_left hne
      obtain rfl : m = n := Option.some.inj (hm.symm.trans hdigits)
      have hparse : parsePort digits = some (some ⟨m, hlt⟩) := by
        rw [parsePort, if_neg hne, hdigits]
        exact dif_pos hlt
      obtain ⟨url', hurl', hnamed, hport'⟩ := getDestination_host tail host hsplit hparse
      exact ⟨url', hurl', hnamed, by rw [hport']; rfl⟩
    · rintro host rfl
      have hparse : parsePort ((none : Option (List Char)).getD []) = some none := rfl
      obtain ⟨url', hurl', hnamed, hport'⟩ :=
        getDestination_host tail host (splitPort_text host) hparse
      exact ⟨url', hurl', hnamed, by rw [hport']; rfl⟩

/-- A port that is none. -/
theorem not_complete_port :
    getDestination (fun _ => ⟨"", "", ""⟩) "a.test:99999" = none ∧
      ¬ Complete (fun _ => ⟨"", "", ""⟩) "a.test:99999" := by
  have hthrows : getDestination (fun _ => ⟨"", "", ""⟩) "a.test:99999" = none := by
    decide +kernel
  refine ⟨hthrows, fun h => ?_⟩
  obtain ⟨url, hurl, -⟩ := h.destination
  rw [hthrows] at hurl
  cases hurl

/-- A target without a host, for which the URL has no port. -/
example : (getDestination (fun _ => ⟨"", "", ""⟩) "/").map Url.port = some none := by
  decide +kernel

end Proxinator.Forward
