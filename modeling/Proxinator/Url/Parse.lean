import Proxinator.Lib.IpText
import Proxinator.Url
import Mathlib.Data.List.DropRight

/-!
# Parsing URLs of the scheme `tcp`

The WHATWG parser for a text that begins with `tcp://`. The scheme is no special one, so a
host is either an IPv6 address in brackets or opaque: it is kept as it is where it holds
printable ASCII only, and where it holds a forbidden code point there is no URL. What
follows the authority has no part in host and port; how it is split into path, query and
fragment is a parameter.

## Main results

* `newTcpUrl_hostPort` — a host and a port are read as such.
* `newTcpUrl_host` — the host name of a URL that gives a port is an IPv6 address in brackets,
  or a text of plain characters.
-/

namespace Proxinator

open Lib

/-- What follows the authority of a URL. -/
structure UrlTail where
  pathname : String
  search : String
  hash : String

/-! ## Percent encoding -/

/-- The C0 control percent-encode set: all but printable ASCII. -/
def c0Control (c : Char) : Bool := c.toNat < 0x20 || 0x7E < c.toNat

/-- The userinfo percent-encode set. -/
def userinfoSet (c : Char) : Bool := c0Control c || c ∈ " \"#<>?^`\x7b\x7d/:;=@[\\]|".toList

/-- A byte, percent-encoded. -/
def percentEncodeByte (byte : UInt8) : List Char :=
  ['%', (Nat.digitChar (byte.toNat / 16)).toUpper, (Nat.digitChar (byte.toNat % 16)).toUpper]

/-- UTF-8 percent-encode the characters of a set. -/
def percentEncode (set : Char → Bool) (text : List Char) : List Char :=
  text.flatMap fun c =>
    if set c then (String.utf8EncodeChar c).flatMap percentEncodeByte else [c]

/-! ## Hosts -/

/-- A forbidden host code point. -/
def forbiddenHost (c : Char) : Bool :=
  c ∈ ['\x00', '\t', '\n', '\r', ' ', '#', '/', ':', '<', '>', '?', '@', '[', '\\', ']', '^', '|']

/-- The host parser, for a scheme that is not special; `none` is failure. -/
def parseHost : List Char → Option (List Char)
  | '[' :: text =>
    if text.getLast? = some ']' then
      (parseIpv6 text.dropLast).map fun ip => '[' :: (ip.toText ++ [']'])
    else none
  | text => if text.any forbiddenHost then none else some (percentEncode c0Control text)

/-! ## The authority -/

/-- What comes before and after the first colon outside brackets. -/
def splitPort : Bool → List Char → List Char × Option (List Char)
  | _, [] => ([], none)
  | insideBrackets, c :: rest =>
    if c = ':' ∧ insideBrackets = false then ([], some rest)
    else
      let parts := splitPort (if c = '[' then true else if c = ']' then false else insideBrackets)
        rest
      (c :: parts.1, parts.2)

/-- The port of a URL; `none` is failure, and no digits are no port. -/
def parsePort (digits : List Char) : Option (Option (Fin 65536)) :=
  if digits = [] then some none
  else
    match readDigits 10 digits with
    | some n => if h : n < 65536 then some (some ⟨n, h⟩) else none
    | none => none

/-- What the authority ends at. -/
def endsAuthority (c : Char) : Bool := c = '/' || c = '?' || c = '#'

/-- What the parser removes wherever it stands. -/
def isTabOrNewline (c : Char) : Bool := c = '\t' || c = '\n' || c = '\r'

/-- **`new URL("tcp://" + text)`**; `none` is the `TypeError` that it throws. -/
def newTcpUrl (tail : List Char → UrlTail) (text : String) : Option Url :=
  let text := (text.toList.rdropWhile (· ≤ ' ')).filter (!isTabOrNewline ·)
  let authority := text.takeWhile (!endsAuthority ·)
  let tail := tail (text.dropWhile (!endsAuthority ·))
  -- the user information ends at the last `@`
  let hostPort := authority.rtakeWhile (· ≠ '@')
  let userinfo := authority.take (authority.length - hostPort.length - 1)
  let parts := splitPort false hostPort
  if '@' ∈ authority ∧ hostPort = [] ∨ parts.1 = [] ∧ parts.2.isSome then none
  else
    match parseHost parts.1, parsePort (parts.2.getD []) with
    | some hostname, some port =>
      some
        { protocol := "tcp:"
          username := String.ofList (percentEncode userinfoSet (userinfo.takeWhile (· ≠ ':')))
          password :=
            String.ofList (percentEncode userinfoSet ((userinfo.dropWhile (· ≠ ':')).drop 1))
          hostname := String.ofList hostname
          port := port
          pathname := tail.pathname
          search := tail.search
          hash := tail.hash }
    | _, _ => none

/-- A URL of the scheme `tcp` that has only a host and a port. -/
def tcpUrl (tail : List Char → UrlTail) (hostname : List Char) (port : Fin 65536) : Url where
  protocol := "tcp:"
  username := ""
  password := ""
  hostname := String.ofList hostname
  port := some port
  pathname := (tail []).pathname
  search := (tail []).search
  hash := (tail []).hash

/-! ## Plain characters -/

/-- A character that an opaque host keeps. -/
def Plain (c : Char) : Prop := c0Control c = false ∧ forbiddenHost c = false

/-- A character that neither ends the host nor is removed from it. -/
def Kept (c : Char) : Prop := endsAuthority c = false ∧ isTabOrNewline c = false ∧ c ≠ '@'

theorem Plain.ne {c d : Char} (h : Plain c) (hd : forbiddenHost d = true) : c ≠ d := by
  rintro rfl
  rw [h.2] at hd
  cases hd

theorem Plain.kept {c : Char} (h : Plain c) : Kept c := by
  have hne : ∀ d, forbiddenHost d = true → c ≠ d := fun d => h.ne
  simp [Kept, endsAuthority, isTabOrNewline, hne '/' (by decide), hne '?' (by decide),
    hne '#' (by decide), hne '\t' (by decide), hne '\n' (by decide), hne '\r' (by decide),
    hne '@' (by decide)]

theorem Plain.not_le_space {c : Char} (h : Plain c) : ¬ c ≤ ' ' := by
  intro hle
  have hcontrol := h.1
  simp only [c0Control, Bool.or_eq_false_iff, decide_eq_false_iff_not] at hcontrol
  have hspace : c.toNat ≤ 0x20 := hle
  have hc : c = ' ' := by
    rw [← Char.ofNat_toNat c, show c.toNat = 0x20 by omega]
  exact h.ne (by decide) hc

theorem plain_of_digit {c : Char} (h : (digitValue c).isSome) : Plain c := by
  have hascii : c.toNat < 128 := by
    simp only [digitValue] at h
    split_ifs at h with h0 ha hA
    · exact lt_of_le_of_lt (b := '9'.toNat) h0.2 (by decide)
    · exact lt_of_le_of_lt (b := 'f'.toNat) ha.2 (by decide)
    · exact lt_of_le_of_lt (b := 'F'.toNat) hA.2 (by decide)
    · cases h
  have hall : ∀ n : Fin 128, (digitValue (Char.ofNat n)).isSome →
      c0Control (Char.ofNat n) = false ∧ forbiddenHost (Char.ofNat n) = false := by
    decide +kernel
  have hc := hall ⟨c.toNat, hascii⟩
  rw [Char.ofNat_toNat] at hc
  exact hc h

theorem plain_toDigits (n : ℕ) : ∀ c ∈ Nat.toDigits 10 n, Plain c := by
  intro c hc
  obtain ⟨d, hd, rfl⟩ := mem_toDigits (by decide) hc
  exact plain_of_digit (by rw [digitValue_digitChar (by omega)]; rfl)

/-- What stands for a byte: a percent sign and digits. -/
theorem mem_percentEncodeByte {byte : UInt8} {c : Char} (h : c ∈ percentEncodeByte byte) :
    c ∈ "%0123456789ABCDEF".toList := by
  have hdigit : ∀ d : Fin 16,
      (Nat.digitChar d).toUpper ∈ "%0123456789ABCDEF".toList := by decide +kernel
  have hbyte := byte.toNat_lt
  simp only [percentEncodeByte, List.mem_cons, List.not_mem_nil, or_false] at h
  rcases h with rfl | rfl | rfl
  · decide
  · exact hdigit ⟨byte.toNat / 16, by omega⟩
  · exact hdigit ⟨byte.toNat % 16, by omega⟩

/-- What percent-encoding leaves behind: characters that are kept, and what stands for a byte. -/
theorem mem_percentEncode {set : Char → Bool} {text : List Char} {c : Char}
    (h : c ∈ percentEncode set text) :
    c ∈ text ∧ set c = false ∨ c ∈ "%0123456789ABCDEF".toList := by
  obtain ⟨c', hc', hmem⟩ := List.mem_flatMap.mp h
  split_ifs at hmem with hset
  · obtain ⟨byte, -, hbyte⟩ := List.mem_flatMap.mp hmem
    exact Or.inr (mem_percentEncodeByte hbyte)
  · rw [List.mem_singleton.mp hmem]
    exact Or.inl ⟨hc', by simpa using hset⟩

/-- Where no character is in the set, nothing is encoded. -/
theorem percentEncode_eq_self {set : Char → Bool} {text : List Char}
    (h : ∀ c ∈ text, set c = false) : percentEncode set text = text := by
  induction text with
  | nil => rfl
  | cons c text ih =>
      rw [List.forall_mem_cons] at h
      rw [percentEncode, List.flatMap_cons, ← percentEncode, ih h.2, if_neg (by simp [h.1])]
      rfl

/-- A text of plain characters is encoded as itself. -/
theorem percentEncode_plain {text : List Char} (h : ∀ c ∈ text, Plain c) :
    percentEncode c0Control text = text :=
  percentEncode_eq_self fun c hc => (h c hc).1

theorem plain_percentEncode {text : List Char} (h : ∀ c ∈ text, forbiddenHost c = false) :
    ∀ c ∈ percentEncode c0Control text, Plain c := by
  intro c hc
  have hdigits : "%0123456789ABCDEF".toList.all
      (fun c => !c0Control c && !forbiddenHost c) = true := by decide
  rcases mem_percentEncode hc with hkept | hdigit
  · exact ⟨hkept.2, h c hkept.1⟩
  · have hplain : c0Control c = false ∧ forbiddenHost c = false := by
      simpa using List.all_eq_true.mp hdigits c hdigit
    exact hplain

/-! ## Hosts and ports -/

/-- A text that is read as a host, with the host name it gets. -/
structure ReadAs (host hostname : List Char) : Prop where
  ne_nil : host ≠ []
  kept : ∀ c ∈ host, Kept c
  splitPort_eq : ∀ digits, splitPort false (host ++ ':' :: digits) = (host, some digits)
  parseHost_eq : parseHost host = some hostname

/-- **A plain text is a host of its own name.** -/
theorem readAs_plain {host : List Char} (hne : host ≠ []) (h : ∀ c ∈ host, Plain c) :
    ReadAs host host where
  ne_nil := hne
  kept c hc := (h c hc).kept
  splitPort_eq digits := by
    clear hne
    induction host with
    | nil => rfl
    | cons c host ih =>
        simp only [List.mem_cons, forall_eq_or_imp] at h
        have hcolon : c ≠ ':' := h.1.ne (by decide)
        have hopen : c ≠ '[' := h.1.ne (by decide)
        have hclose : c ≠ ']' := h.1.ne (by decide)
        simp [splitPort, hcolon, hopen, hclose, ih h.2]
  parseHost_eq := by
    have hforbidden : ¬ host.any forbiddenHost = true := by
      simp only [List.any_eq_true, not_exists, not_and, Bool.not_eq_true]
      exact fun c hc => (h c hc).2
    rw [parseHost]
    · rw [if_neg hforbidden, percentEncode_plain h]
    · intro text heq
      have hbracket := h '[' (by rw [heq]; exact List.mem_cons_self)
      exact absurd hbracket.2 (by decide)

/-- The text of an IPv4 address is a host. -/
theorem readAs_of_parseIpv4 {text : List Char} {ip : Ipv4} (h : parseIpv4 text = some ip) :
    ReadAs text text := by
  apply readAs_plain
  · rintro rfl
    cases h
  · intro c hc
    rcases mem_of_parseIpv4 h c hc with rfl | hdigit
    · exact ⟨by decide, by decide⟩
    · exact plain_of_digit hdigit

/-- Inside brackets a colon is part of the host. -/
theorem splitPort_bracket {text : List Char} (h : ∀ c ∈ text, c ≠ ']') (digits : List Char) :
    splitPort true (text ++ ']' :: ':' :: digits) = (text ++ [']'], some digits) := by
  induction text with
  | nil => simp [splitPort]
  | cons c text ih =>
      simp only [List.mem_cons, forall_eq_or_imp] at h
      by_cases hopen : c = '['
      · simp [splitPort, hopen, ih h.2]
      · simp [splitPort, hopen, h.1, ih h.2]

/-- **The text of an IPv6 address in brackets is a host**, of which the name is the canonical
text. -/
theorem readAs_bracket {text : List Char} {ip : Ipv6} (h : parseIpv6 text = some ip) :
    ReadAs ('[' :: (text ++ [']'])) ('[' :: (ip.toText ++ [']'])) where
  ne_nil := by simp
  kept c hc := by
    simp only [List.mem_cons, List.mem_append, List.not_mem_nil, or_false] at hc
    rcases hc with rfl | hc | rfl
    · exact ⟨by decide, by decide, by decide⟩
    · rcases mem_of_parseIpv6 h c hc with rfl | rfl | hdigit
      · exact ⟨by decide, by decide, by decide⟩
      · exact ⟨by decide, by decide, by decide⟩
      · exact (plain_of_digit hdigit).kept
    · exact ⟨by decide, by decide, by decide⟩
  splitPort_eq digits := by
    have hclose : ∀ c ∈ text, c ≠ ']' := by
      rintro c hc rfl
      rcases mem_of_parseIpv6 h _ hc with hcolon | hdot | hdigit
      · exact absurd hcolon (by decide)
      · exact absurd hdot (by decide)
      · exact absurd hdigit (by decide)
    have hsplit := splitPort_bracket hclose digits
    simp [splitPort, hsplit]
  parseHost_eq := by simp [parseHost, h]

theorem parsePort_toDigits (port : Fin 65536) :
    parsePort (Nat.toDigits 10 port.val) = some (some port) := by
  rw [parsePort, if_neg Nat.toDigits_ne_nil, readDigits_toDigits (by decide) (by decide)]
  exact dif_pos port.isLt

/-- **A host and a port are read as such.** -/
theorem newTcpUrl_hostPort (tail : List Char → UrlTail) {host hostname : List Char}
    (h : ReadAs host hostname) (port : Fin 65536) :
    newTcpUrl tail (String.ofList host ++ ":" ++ toString port.val) =
      some (tcpUrl tail hostname port) := by
  have htext : (String.ofList host ++ ":" ++ toString port.val).toList =
      host ++ ':' :: Nat.toDigits 10 port.val := by
    simp [Nat.toString_eq_repr]
  have hkept : ∀ c ∈ host ++ ':' :: Nat.toDigits 10 port.val, Kept c := by
    intro c hc
    simp only [List.mem_append, List.mem_cons] at hc
    rcases hc with hc | rfl | hc
    · exact h.kept c hc
    · exact ⟨by decide, by decide, by decide⟩
    · exact (plain_toDigits _ c hc).kept
  have hstrip : (host ++ ':' :: Nat.toDigits 10 port.val).rdropWhile (· ≤ ' ') =
      host ++ ':' :: Nat.toDigits 10 port.val := by
    rw [List.rdropWhile_eq_self_iff]
    intro hne
    have hlast : (host ++ ':' :: Nat.toDigits 10 port.val).getLast hne ∈
        Nat.toDigits 10 port.val := by
      rw [List.getLast_append_of_ne_nil _ (by simp), List.getLast_cons Nat.toDigits_ne_nil]
      exact List.getLast_mem _
    simpa using (plain_toDigits _ _ hlast).not_le_space
  have hfilter : (host ++ ':' :: Nat.toDigits 10 port.val).filter (!isTabOrNewline ·) =
      host ++ ':' :: Nat.toDigits 10 port.val :=
    List.filter_eq_self.mpr fun c hc => by simp [(hkept c hc).2.1]
  have htake : (host ++ ':' :: Nat.toDigits 10 port.val).takeWhile (!endsAuthority ·) =
      host ++ ':' :: Nat.toDigits 10 port.val :=
    List.takeWhile_eq_self_iff.mpr fun c hc => by simp [(hkept c hc).1]
  have hdrop : (host ++ ':' :: Nat.toDigits 10 port.val).dropWhile (!endsAuthority ·) = [] :=
    List.dropWhile_eq_nil_iff.mpr fun c hc => by simp [(hkept c hc).1]
  have hat : (host ++ ':' :: Nat.toDigits 10 port.val).rtakeWhile (· ≠ '@') =
      host ++ ':' :: Nat.toDigits 10 port.val :=
    List.rtakeWhile_eq_self_iff.mpr fun c hc => by simp [(hkept c hc).2.2]
  have hnotMem : '@' ∉ host ++ ':' :: Nat.toDigits 10 port.val := by
    intro hmem
    exact (hkept _ hmem).2.2 rfl
  rw [newTcpUrl, htext]
  simp only [hstrip, hfilter, htake, hdrop, hat, hnotMem, h.splitPort_eq, h.ne_nil, false_and,
    or_self, if_false, h.parseHost_eq, Option.getD_some, parsePort_toDigits, Nat.sub_self,
    Nat.zero_sub, List.take_zero]
  rfl

/-- The host parser succeeds for an address in brackets or an opaque host. -/
theorem parseHost_eq_some {host hostname : List Char} (h : parseHost host = some hostname) :
    (∃ ip : Ipv6, hostname = '[' :: (ip.toText ++ [']'])) ∨
      (∀ c ∈ hostname, Plain c) ∧ (host ≠ [] → hostname ≠ []) := by
  rw [parseHost.eq_def] at h
  split at h
  next text =>
    split_ifs at h
    obtain ⟨ip, -, rfl⟩ := Option.map_eq_some_iff.mp h
    exact Or.inl ⟨ip, rfl⟩
  next text hbracket =>
    split_ifs at h with hforbidden
    obtain rfl := Option.some.inj h
    right
    constructor
    · apply plain_percentEncode
      simpa using hforbidden
    · intro hne heq
      obtain ⟨c, rest, rfl⟩ := List.exists_cons_of_ne_nil hne
      rw [percentEncode, List.flatMap_eq_nil_iff] at heq
      have hc := heq c List.mem_cons_self
      split_ifs at hc
      obtain ⟨byte, bytes, hbytes⟩ := List.exists_cons_of_ne_nil
        (String.utf8EncodeChar_ne_nil (c := c))
      rw [hbytes] at hc
      cases hc

/-- **The host of a URL that gives a port** is an IPv6 address in brackets, or a text of plain
characters. -/
theorem newTcpUrl_host {tail : List Char → UrlTail} {text : String} {url : Url}
    (h : newTcpUrl tail text = some url) (hport : url.port ≠ none) :
    (∃ ip : Ipv6, url.hostname.toList = '[' :: (ip.toText ++ [']'])) ∨
      (∀ c ∈ url.hostname.toList, Plain c) ∧ url.hostname.toList ≠ [] := by
  simp only [newTcpUrl] at h
  split_ifs at h with hempty
  split at h
  next hostname port hhost hparse =>
    cases h
    rw [String.toList_ofList]
    rcases parseHost_eq_some hhost with hip | ⟨hplain, hne⟩
    · exact Or.inl hip
    · refine Or.inr ⟨hplain, hne fun hnil => hempty (Or.inr ⟨hnil, ?_⟩)⟩
      -- without a colon there is no port
      by_contra hnone
      rw [Bool.not_eq_true, Option.isSome_eq_false_iff, Option.isNone_iff_eq_none] at hnone
      rw [hnone] at hparse
      cases hparse
      exact hport rfl
  next => cases h

end Proxinator
