import Proxinator.Client.Agent
import Proxinator.Client.Credentials
import Proxinator.Lib.IpForms
import Proxinator.Relay

/-!
# Names that stand for an address

`nipio.convert` makes a name of an IPv4 address, or of the one that a host name is looked up as:
its bytes in hexadecimal digits, under `nip.io`. Given to the agent as its `connect`, it hides the
host that a request is for. What the agent does depends on the address alone then, and the
proxies are asked for a name that `nip.io` maps to it (`createConnection_obfuscate`).

## Main results

* `ipToHex_of_parseIpv4` — the digits of an address.
* `readHex_hexText` — the address is read back from them.
* `createConnection_obfuscate` — an agent that obfuscates its targets.
-/

namespace Proxinator

open Lib

/-! ## Numbers and addresses as text -/

/-- White space and line ends, as JavaScript has them. -/
def isSpace (c : Char) : Bool :=
  c.toNat ∈ [9, 10, 11, 12, 13, 32, 160, 5760, 8232, 8233, 8239, 8287, 12288, 65279] ||
    (8192 ≤ c.toNat && c.toNat ≤ 8202)

/-- `parseInt(text)`; `none` is NaN. -/
def parseInt (text : List Char) : Option ℤ :=
  let (sign, text) := match text.dropWhile isSpace with
    | '-' :: text => ((-1 : ℤ), text)
    | '+' :: text => (1, text)
    | text => (1, text)
  let (radix, text) := match text with
    | '0' :: 'x' :: text => (16, text)
    | '0' :: 'X' :: text => (16, text)
    | text => (10, text)
  let digits := text.takeWhile fun c => (digitValue c).any (· < radix)
  if digits = [] then none else (readDigits radix digits).map (sign * ·)

/-- `n.toString(16)`. -/
def toHexText : Option ℤ → List Char
  | none => ['N', 'a', 'N']
  | some n => (if n < 0 then ['-'] else []) ++ Nat.toDigits 16 n.natAbs

/-- `ipToHex`. -/
def ipToHex (ip : String) : String :=
  String.ofList ((ip.toList.splitOn '.').flatMap fun x => (toHexText (parseInt x)).leftpad 2 '0')

/-- An IPv6 address may have a zone behind it. -/
def withoutZone (text : List Char) : Option (List Char) :=
  match text.span (· ≠ '%') with
  | (text, []) => some text
  | (text, _ :: zone) =>
    if zone ≠ [] ∧ zone.all fun c => alphanumeric c || c ∈ ['-', '.', ':'] then some text else none

/-- `net.isIP`. -/
def netIsIP (text : List Char) : ℕ :=
  if (parseIpv4 text).isSome then 4
  else if ((withoutZone text).bind parseIpv6).isSome then 6
  else 0

example : ipToHex "192.168.1.1" = "c0a80101" := by decide +kernel

/-- The two digits of a byte. -/
def hexOctet (o : UInt8) : List Char := [Nat.digitChar (o.toNat / 16), Nat.digitChar (o.toNat % 16)]

/-- The eight digits of an address. -/
def hexText (ip : Ipv4) : List Char := [ip.a, ip.b, ip.c, ip.d].flatMap hexOctet

theorem toHexText_octet (o : UInt8) :
    (toHexText (parseInt (Nat.toDigits 10 o.toNat))).leftpad 2 '0' = hexOctet o := by
  have hall : ∀ n : Fin 256, (toHexText (parseInt (Nat.toDigits 10 n))).leftpad 2 '0' =
      [Nat.digitChar (n / 16), Nat.digitChar (n % 16)] := by
    decide +kernel
  exact hall ⟨o.toNat, o.toNat_lt⟩

/-- **The digits of an address** are those of its bytes, two for each. -/
theorem ipToHex_of_parseIpv4 {text : String} {ip : Ipv4} (h : parseIpv4 text.toList = some ip) :
    ipToHex text = String.ofList (hexText ip) := by
  rw [ipToHex, ← toText_of_parseIpv4 h, splitOn_toText]
  simp only [hexText, List.flatMap_map, toHexText_octet]

theorem netIsIP_eq_four {text : List Char} : netIsIP text = 4 ↔ ∃ ip, parseIpv4 text = some ip := by
  rw [netIsIP, ← Option.isSome_iff_exists]
  split_ifs with h4 h6 <;> simp [h4]

/-! ## nip.io -/

namespace Nipio

/-- `SUFFIX`. -/
def suffix : String := ".nip.io"

/-- `fromIP`. -/
def fromIP (ip : String) : String := ipToHex ip ++ suffix

variable (lookup : String → Except Client.Error String)

/-- `fromHostname`; `lookup` is how the lookup with `family: 4` calls back. -/
def fromHostname (hostname : String) : Except Client.Error String :=
  match lookup hostname with
  | .ok address => .ok (fromIP address)
  | .error e => .error e

/-- `convert`. -/
def convert (host : String) : Except Client.Error String :=
  if netIsIP host.toList = 4 then .ok (fromIP host)
  else if netIsIP host.toList = 6 then .error (Client.error "nip.io only supports IPv4")
  else fromHostname lookup host

/-- The `connect` of an agent that converts each host, and makes a URL of the name. -/
def obfuscate (tail : List Char → UrlTail) (host : String) (port : ℕ) : Except Client.Error Url :=
  match convert lookup host with
  | .ok obfuscated =>
    match newTcpUrl tail (obfuscated ++ ":" ++ toString port) with
    | some url => .ok url
    | none => .error (Client.error "Invalid URL")
  | .error e => .error e

/-- A byte of two digits. -/
def readOctet (high low : Char) : Option UInt8 := (readDigits 16 [high, low]).map UInt8.ofNat

/-- An address of eight digits. -/
def readHex : List Char → Option Ipv4
  | [a, a', b, b', c, c', d, d'] =>
    match readOctet a a', readOctet b b', readOctet c c', readOctet d d' with
    | some a, some b, some c, some d => some ⟨a, b, c, d⟩
    | _, _, _, _ => none
  | _ => none

/-- The name of an address. -/
def nameOf (ip : Ipv4) : String := String.ofList (hexText ip) ++ suffix

/-- What is documented of nip.io, which maps a name to an address: eight hexadecimal digits under
its domain are mapped to the address whose bytes they are. -/
def MapsBack (nipio : String → Option Ipv4) : Prop :=
  ∀ digits ip, readHex digits = some ip → nipio (String.ofList digits ++ ".nip.io") = some ip

/-- What is documented of a lookup with `family: 4`: its answers are IPv4 addresses. -/
def AnswersIpv4 : Prop :=
  ∀ host address, lookup host = .ok address → ∃ ip, parseIpv4 address.toList = some ip

/-- What a host stands for: it is an IPv4 address, or looked up as one. -/
inductive Denotes (host : String) (ip : Ipv4) : Prop
  | literal (parsed : parseIpv4 host.toList = some ip)
  | looked (address : String) (name : netIsIP host.toList = 0) (found : lookup host = .ok address)
      (parsed : parseIpv4 address.toList = some ip)

theorem readOctet_hexOctet (o : UInt8) :
    readOctet (Nat.digitChar (o.toNat / 16)) (Nat.digitChar (o.toNat % 16)) = some o := by
  have hall : ∀ n : Fin 256,
      readOctet (Nat.digitChar (n / 16)) (Nat.digitChar (n % 16)) = some (UInt8.ofNat n) := by
    decide +kernel
  rw [hall ⟨o.toNat, o.toNat_lt⟩, UInt8.ofNat_toNat]

theorem readHex_hexText (ip : Ipv4) : readHex (hexText ip) = some ip := by
  simp only [hexText, hexOctet, List.flatMap_cons, List.flatMap_nil, List.append_nil,
    List.cons_append, List.nil_append, readHex, readOctet_hexOctet]

theorem mem_hexText {ip : Ipv4} {c : Char} (hc : c ∈ hexText ip) :
    ∃ d, d < 16 ∧ c = Nat.digitChar d := by
  obtain ⟨o, -, ho⟩ := List.mem_flatMap.mp hc
  have hlt := o.toNat_lt
  rw [hexOctet, List.mem_cons, List.mem_singleton] at ho
  rcases ho with rfl | rfl
  · exact ⟨_, by omega, rfl⟩
  · exact ⟨_, by omega, rfl⟩

theorem nameChar_of_mem_hexText {ip : Ipv4} {c : Char} (hc : c ∈ hexText ip) :
    nameChar c ∧ c ≠ '.' := by
  obtain ⟨d, hd, rfl⟩ := mem_hexText hc
  have hall : ∀ d : Fin 16, nameChar (Nat.digitChar d) ∧ Nat.digitChar d ≠ '.' := by decide
  exact hall ⟨d, hd⟩

/-- **The name of an address is mapped back to it.** -/
theorem MapsBack.nameOf {nipio : String → Option Ipv4} (h : MapsBack nipio) (ip : Ipv4) :
    nipio (Nipio.nameOf ip) = some ip :=
  h (hexText ip) ip (readHex_hexText ip)

theorem hosted_nameOf (ip : Ipv4) : Hosted (nameOf ip) := by
  refine Or.inr ⟨?_, fun c hc => ?_⟩
  · simp [nameOf, suffix]
  · rw [nameOf, String.toList_append, String.toList_ofList] at hc
    rcases List.mem_append.mp hc with hc | hc
    · exact (nameChar_of_mem_hexText hc).1
    · have hall : suffix.toList.all nameChar = true := by decide +kernel
      exact List.all_eq_true.mp hall c hc

theorem fits_nameOf (ip : Ipv4) : Fits (nameOf ip) := by
  have hsuffix : suffix.length = 7 := by decide
  simp [Fits, nameOf, hsuffix, hexText, hexOctet]

/-! ## What is made of a host -/

variable {lookup} {host : String}

theorem fromIP_of_parseIpv4 {text : String} {ip : Ipv4} (h : parseIpv4 text.toList = some ip) :
    fromIP text = nameOf ip := by
  rw [fromIP, ipToHex_of_parseIpv4 h, nameOf]

/-- A host that stands for an address becomes the name of that address. -/
theorem convert_of_denotes {ip : Ipv4} (h : Denotes lookup host ip) :
    convert lookup host = .ok (nameOf ip) := by
  cases h with
  | literal parsed =>
      rw [convert, if_pos (netIsIP_eq_four.mpr ⟨ip, parsed⟩), fromIP_of_parseIpv4 parsed]
  | looked address name found parsed =>
      rw [convert, name, if_neg (by omega), if_neg (by omega), fromHostname, found]
      exact congrArg Except.ok (fromIP_of_parseIpv4 parsed)

/-- Any other host is refused, or its lookup fails. -/
theorem convert_of_not_denotes (hlookup : AnswersIpv4 lookup)
    (h : ∀ ip, ¬ Denotes lookup host ip) : ∃ e, convert lookup host = .error e := by
  by_cases h4 : netIsIP host.toList = 4
  · obtain ⟨ip, hip⟩ := netIsIP_eq_four.mp h4
    exact absurd (.literal hip) (h ip)
  rw [convert, if_neg h4]
  by_cases h6 : netIsIP host.toList = 6
  · exact ⟨_, if_pos h6⟩
  rw [if_neg h6, fromHostname]
  cases hfound : lookup host with
  | error e => exact ⟨e, rfl⟩
  | ok address =>
      obtain ⟨ip, hip⟩ := hlookup host address hfound
      have h0 : netIsIP host.toList = 0 := by
        rw [netIsIP] at h4 h6 ⊢
        split_ifs at h4 h6 ⊢ <;> simp_all
      exact absurd (.looked address h0 hfound hip) (h ip)

variable {World Socket Lookup : Type*}

/-- **An agent that obfuscates its targets hides their hosts.** What it does for a host depends on
the address that the host stands for alone, and the last proxy is asked for a name that nip.io
maps to this address, at the port that was asked for; only a SOCKS5 proxy is asked for port 80
in place of port 0. For a host that stands for none it calls back with an error, and connects to
nothing. -/
theorem createConnection_obfuscate (node : Client.Node World Socket Lookup)
    (tail : List Char → UrlTail) (proxies : List Url) {opts : Client.AgentOptions Lookup}
    (hconnect : opts.connect = some (obfuscate lookup tail))
    (hlookup : AnswersIpv4 lookup) {nipio : String → Option Ipv4} (hnipio : MapsBack nipio)
    (port : Fin 65536) :
    (∀ ip, ∃ target : Url,
      (∀ host w, Denotes lookup host ip →
        Client.createConnection node tail proxies opts host port.val w =
          let (result, w) := Client.chain node ⟨opts.lookup, none, opts.family⟩ proxies target w
          (.callback result, w)) ∧
      nipio target.hostname = some ip ∧
      ∀ (wire : Wire) (base64 : String → String) (clientOpts : Client.Options Socket Lookup)
        (proxy : Url) (client : Client.Protocol), wire.Documented → Usable proxy client →
        (relay wire base64 tail clientOpts proxy target).map Url.hostPort =
          some (target.hostname,
            some (if client = .socks5 ∧ port.val = 0 then defaultSocksPort else port))) ∧
    ∀ host w, (∀ ip, ¬ Denotes lookup host ip) →
      ∃ e, Client.createConnection node tail proxies opts host port.val w =
        (.callback (.error e), w) := by
  constructor
  · intro ip
    have hurl : newTcpUrl tail (nameOf ip ++ ":" ++ toString port.val) =
        some (tcpUrl tail (nameOf ip).toList port) := by
      have hread := newTcpUrl_hostPort tail (hosted_nameOf ip).readAs port
      rwa [String.ofList_toList] at hread
    have hname : (tcpUrl tail (nameOf ip).toList port).hostname = nameOf ip := String.ofList_toList
    refine ⟨tcpUrl tail (nameOf ip).toList port, fun host w h => ?_, ?_, ?_⟩
    · simp only [Client.createConnection, hconnect, obfuscate, convert_of_denotes h, hurl]
    · rw [hname]
      exact hnipio.nameOf ip
    · intro wire base64 clientOpts proxy client hwire husable
      have hhosted : Hosted (tcpUrl tail (nameOf ip).toList port).hostname := by
        rw [hname]
        exact hosted_nameOf ip
      have hfits : Fits (tcpUrl tail (nameOf ip).toList port).hostname := by
        rw [hname]
        exact fits_nameOf ip
      have hport : hopPort client (some port) =
          if client = .socks5 ∧ port.val = 0 then defaultSocksPort else port := by
        cases client <;> simp [hopPort]
      rw [relay_eq hwire base64 tail clientOpts husable hhosted, if_pos fun _ => hfits, ← hport]
      rfl
  · intro host w h
    obtain ⟨e, he⟩ := convert_of_not_denotes hlookup h
    refine ⟨e, ?_⟩
    simp only [Client.createConnection, hconnect, obfuscate, he]

/-- A lookup that finds one address. -/
def lookupOne : String → Except Client.Error String := fun _ => .ok "93.184.216.34"

/-- The names of eight digits, as nip.io maps them. -/
def mapDigits (name : String) : Option Ipv4 :=
  if name.toList.drop 8 = ".nip.io".toList then readHex (name.toList.take 8) else none

theorem mapsBack_mapDigits : MapsBack mapDigits := by
  intro digits ip h
  have hlength : digits.length = 8 := by
    rw [readHex.eq_def] at h
    split at h
    · rfl
    · cases h
  rw [mapDigits, String.toList_append, String.toList_ofList, ← hlength, List.drop_left,
    List.take_left, if_pos rfl, h]

/-- An agent without proxies that obfuscates its targets. -/
def obfuscating : Client.AgentOptions Unit :=
  ⟨none, none, some (obfuscate lookupOne fun _ => ⟨"", "", ""⟩)⟩

theorem createConnection_obfuscate_name :
    ∃ target : Url, mapDigits target.hostname = some ⟨93, 184, 216, 34⟩ ∧
      Client.createConnection Client.silentNode (fun _ => ⟨"", "", ""⟩) [] obfuscating "example.com"
          Forward.defaultConnectPort.val () =
        let (result, w) := Client.chain Client.silentNode ⟨none, none, none⟩ [] target ()
        (.callback result, w) := by
  have hparse : parseIpv4 "93.184.216.34".toList = some ⟨93, 184, 216, 34⟩ := by decide +kernel
  have hlookup : AnswersIpv4 lookupOne := by
    intro host address hfound
    cases hfound
    exact ⟨_, hparse⟩
  have hdenotes : Denotes lookupOne "example.com" ⟨93, 184, 216, 34⟩ :=
    .looked "93.184.216.34" (by decide +kernel) rfl hparse
  have hconnect : obfuscating.connect = some (obfuscate lookupOne fun _ => ⟨"", "", ""⟩) := rfl
  obtain ⟨htargets, -⟩ := createConnection_obfuscate Client.silentNode (fun _ => ⟨"", "", ""⟩) []
    hconnect hlookup mapsBack_mapDigits Forward.defaultConnectPort
  obtain ⟨target, hdone, hname, -⟩ := htargets ⟨93, 184, 216, 34⟩
  exact ⟨target, hname, hdone "example.com" () hdenotes⟩

end Nipio

end Proxinator
