import Proxinator.Socks5.Destination

/-!
# Address parsing as the inverse of the encoding

`parseAddress` on the encoding of every address, on what is cut off it, and on what encodes no
address. One check stands in front of the others: it wants ten bytes, which is what a request
for an IPv4 address has. A request for a domain of one or two bytes is shorter, and one for an
empty domain reaches ten bytes with what follows it; `parsed_iff` says that nothing else goes
wrong.

## Main results

* `parseAddress_eq_none` — what is refused.
* `parsed_iff` — which requests are parsed as they should be.
-/

namespace Proxinator.Socks5

open Lib

/-! ## What is refused -/

/-- **The parser refuses a buffer exactly when it is shorter than any request, shorter than its
type needs, or of an unknown type.** -/
theorem parseAddress_eq_none (data : Bytes) :
    parseAddress data = none ↔
      data.length < minRequestSize ∨
      (∃ len, data[3]? = some atypDomain ∧ data[4]? = some len ∧
        data.length < 7 + len.toNat) ∨
      (data[3]? = some atypIPv6 ∧ data.length < 22) ∨
      (data[3]? ≠ some atypIPv4 ∧ data[3]? ≠ some atypDomain ∧ data[3]? ≠ some atypIPv6) := by
  by_cases hsize : data.length < minRequestSize
  · rw [parseAddress, dif_pos hsize]
    simp [hsize]
  · have hmin : 10 ≤ data.length := Nat.le_of_not_lt hsize
    have htype : data[3]? = some data[3] := List.getElem?_eq_getElem (by omega)
    have hlen : data[4]? = some data[4] := List.getElem?_eq_getElem (by omega)
    have hlen' : ∀ n : ℕ, data.length < 5 + n + 2 ↔ data.length < 7 + n := by omega
    rw [parseAddress, dif_neg hsize, htype, hlen]
    simp only [hsize, false_or, Option.some.injEq, ne_eq]
    by_cases hv4 : data[3] = atypIPv4
    · simp [hv4]
    by_cases hdomain : data[3] = atypDomain
    · simp [hdomain, hlen']
    by_cases hv6 : data[3] = atypIPv6
    · simp [hv6]
    simp [hv4, hdomain, hv6]

/-! ## Requests -/

/-- A host that a client can ask for. -/
inductive Host
  | ipv4 (ip : Ipv4)
  | ipv6 (ip : Ipv6)
  /-- A domain name of 1 to 255 bytes. -/
  | domain (name : String) (nonempty : 1 ≤ (utf8Encode name).length)
    (fits : (utf8Encode name).length ≤ 255)

/-- The host as the destination of a request. -/
def Host.destination : Host → Destination
  | ipv4 ip => .ipv4 ip
  | ipv6 ip => .ipv6 ip
  | domain name _ fits => .domain (utf8Encode name) (Nat.lt_succ_of_le fits)

/-- The CONNECT request for a destination. -/
def request (destination : Destination) (port : Fin 65536) : Bytes :=
  [socksVersion, cmdConnect, 0x00] ++ (destination.bytes ++ uintBE 2 port.val)

/-- A domain without a name. -/
def emptyDomain : Destination := .domain [] (by decide)

/-- What a client may send. -/
inductive Sent
  /-- A request, and any bytes behind it. -/
  | request (host : Host) (port : Fin 65536) (rest : Bytes)
  /-- The first bytes of a request, but not all. -/
  | cut (host : Host) (port : Fin 65536) (n : ℕ)
    (h : n < (request host.destination port).length)
  /-- A request for an empty domain, and any bytes behind it. -/
  | empty (port : Fin 65536) (rest : Bytes)
  /-- Bytes with a type that is none of the three. -/
  | unknown (data : Bytes) (atyp : UInt8) (htype : data[3]? = some atyp)
    (h : atyp ∉ [atypIPv4, atypDomain, atypIPv6])

namespace Sent

/-- The bytes that are sent. -/
def bytes : Sent → Bytes
  | request host port rest => Socks5.request host.destination port ++ rest
  | cut host port n _ => (Socks5.request host.destination port).take n
  | empty port rest => Socks5.request emptyDomain port ++ rest
  | unknown data _ _ _ => data

/-- The result is what they ask for, if they are a request, and `null` otherwise. -/
def Parsed (result : Option Address) : Sent → Prop
  | request (.ipv4 ip) port _ =>
    result = some ⟨formatIPv4 ip.a ip.b ip.c ip.d, port.val, atypIPv4⟩
  | request (.ipv6 ip) port _ =>
    ∃ host, result = some ⟨String.ofList host, port.val, atypIPv6⟩ ∧
      host = joinPieces ip.pieces ∧ parseIpv6 host = some ip
  | request (.domain name _ _) port _ => result = some ⟨name, port.val, atypDomain⟩
  | cut _ _ _ _ | empty _ _ | unknown _ _ _ _ => result = none

/-- A request for a domain has at least ten bytes with what follows it, and one for an empty
domain has fewer. -/
def Regular : Sent → Prop
  | request (.domain name _ _) _ rest => 3 ≤ (utf8Encode name).length + rest.length
  | empty _ rest => rest.length < 3
  | _ => True

end Sent

/-! ## Reading them -/

/-- How long the request for a destination is. -/
def Destination.requestLength : Destination → ℕ
  | ipv4 _ => 10
  | ipv6 _ => 22
  | domain name _ => 7 + name.length

theorem length_request (destination : Destination) (port : Fin 65536) :
    (request destination port).length = destination.requestLength := by
  cases destination with
  | ipv4 ip => simp [request, Destination.bytes, Destination.requestLength]
  | ipv6 ip =>
      simp [request, Destination.bytes, Destination.requestLength, ip.length_pieces]
  | domain name fits =>
      simp [request, Destination.bytes, Destination.requestLength]
      omega

/-- **The beginning of a request is refused exactly when it is shorter than that request, or
than any.** -/
theorem parseAddress_truncated (destination : Destination) (port : Fin 65536) {data rest : Bytes}
    (h : data <+: request destination port ++ rest) :
    parseAddress data = none ↔
      data.length < minRequestSize ∨ data.length < destination.requestLength := by
  rw [parseAddress_eq_none]
  by_cases hsize : data.length < minRequestSize
  · simp [hsize]
  · have hmin : 10 ≤ data.length := Nat.le_of_not_lt hsize
    obtain ⟨more, hmore⟩ := h
    have hread : ∀ i, i < 10 → data[i]? = (request destination port ++ rest)[i]? := by
      intro i hi
      rw [← hmore, List.getElem?_append_left (by omega)]
    rw [hread 3 (by omega), hread 4 (by omega)]
    simp only [hsize, false_or]
    cases destination with
    | ipv4 ip =>
        have hlength : ¬ data.length < 10 := by omega
        simp [request, Destination.bytes, Destination.requestLength, hlength]
    | ipv6 ip => simp [request, Destination.bytes, Destination.requestLength]
    | domain name fits =>
        simp [request, Destination.bytes, Destination.requestLength, prefixed, uintBE,
          Nat.mod_eq_of_lt fits]

theorem requests_request (destination : Destination) (port : Fin 65536) (rest : Bytes) :
    Requests (request destination port ++ rest) destination port :=
  ⟨socksVersion, cmdConnect, 0x00, rest, by simp [request]⟩

/-- **A request is parsed to its destination, if it has the minimum size.** -/
theorem parseAddress_request (destination : Destination) (port : Fin 65536) (rest : Bytes) :
    parseAddress (request destination port ++ rest) =
      if minRequestSize ≤ destination.requestLength + rest.length then
        some (destination.address port)
      else none := by
  have hlength : (request destination port ++ rest).length =
      destination.requestLength + rest.length := by
    rw [List.length_append, length_request]
  have hnone := parseAddress_truncated destination port
    (List.prefix_refl (request destination port ++ rest))
  rw [hlength] at hnone
  split_ifs with hsize
  · cases hparse : parseAddress (request destination port ++ rest) with
    | none =>
        have hshort := hnone.mp hparse
        omega
    | some address => rw [address_of_requests hparse (requests_request destination port rest)]
  · exact hnone.mpr (Or.inl (Nat.lt_of_not_le hsize))

/-! ## The inverse -/

/-- **What a client sends is parsed to what it asks for, except for a domain of one or two bytes
in less than ten and an empty domain in ten or more.** -/
theorem parsed_iff (sent : Sent) : sent.Parsed (parseAddress sent.bytes) ↔ sent.Regular := by
  cases sent with
  | request host port rest =>
      rw [Sent.bytes, parseAddress_request]
      cases host with
      | ipv4 ip =>
          simp [Sent.Parsed, Sent.Regular, Host.destination, Destination.requestLength,
            Destination.address]
      | ipv6 ip =>
          have hsize : minRequestSize ≤ 22 + rest.length := by
            simp only [minRequestSize]
            omega
          simp [Sent.Parsed, Sent.Regular, Host.destination, Destination.requestLength,
            Destination.address, hsize, parseIpv6_full]
      | domain name nonempty fits =>
          have hsize : minRequestSize ≤ 7 + (utf8Encode name).length + rest.length ↔
              3 ≤ (utf8Encode name).length + rest.length := by
            simp only [minRequestSize]
            omega
          simp [Sent.Parsed, Sent.Regular, Host.destination, Destination.requestLength,
            Destination.address, hsize]
  | cut host port n h =>
      refine iff_of_true ?_ trivial
      have hprefix : (request host.destination port).take n <+:
          request host.destination port ++ [] := by
        rw [List.append_nil]
        exact List.take_prefix _ _
      refine (parseAddress_truncated host.destination port hprefix).mpr (Or.inr ?_)
      rw [List.length_take, ← length_request host.destination port]
      omega
  | empty port rest =>
      have hsize : minRequestSize ≤ 7 + rest.length ↔ ¬ rest.length < 3 := by
        simp only [minRequestSize]
        omega
      rw [Sent.bytes, parseAddress_request]
      simp [Sent.Parsed, Sent.Regular, emptyDomain, Destination.requestLength, hsize]
  | unknown data atyp htype h =>
      refine iff_of_true ((parseAddress_eq_none data).mpr (Or.inr (Or.inr (Or.inr ?_)))) trivial
      simp only [List.mem_cons, List.not_mem_nil, or_false, not_or] at h
      simpa [htype] using h

/-- A request for the domain `a`. -/
def shortRequest : Sent := .request (.domain "a" (by decide) (by decide)) ⟨80, by decide⟩ []

/-- A request for an empty domain, and three more bytes. -/
def emptyRequest : Sent := .empty ⟨80, by decide⟩ [1, 2, 3]

/-- The first has eight bytes and is refused, the second has ten and is not. -/
theorem not_parsed_short_empty :
    parseAddress shortRequest.bytes = none ∧
      ¬ shortRequest.Parsed (parseAddress shortRequest.bytes) ∧
      parseAddress emptyRequest.bytes = some ⟨"", 80, atypDomain⟩ ∧
      ¬ emptyRequest.Parsed (parseAddress emptyRequest.bytes) := by
  have hshort : parseAddress shortRequest.bytes = none := by decide
  have hempty : parseAddress emptyRequest.bytes = some ⟨"", 80, atypDomain⟩ := by
    decide +kernel
  refine ⟨hshort, ?_, hempty, ?_⟩
  · rw [hshort]
    rintro ⟨⟩
  · rw [hempty]
    rintro ⟨⟩

end Proxinator.Socks5
